import Judge.Suite.Helper
import Judge.Suite.ProcessTable
import Judge.Suite.RunDirectory
import Judge.Suite.Verdict

/-!
# Suite/Sandbox — one run of a candidate

One run makes the run directory, starts the helper, runs the candidate, alone or wired to an
interactor, looks at its exit code and has its answer checked.
-/

namespace Judge

/-- Everything that is fixed for a suite. -/
structure Setup where
  cwd : Path
  inherited : Vars
  options : Options
  surroundings : Surroundings
  checker : Checker
deriving DecidableEq, Repr

/-- What a run that did not fail leads to. -/
structure Outcome where
  /-- The answer: what was captured, the output file, or the log of the interactor. -/
  output : Bytes
  exitCode : Int
  skipped : Bool := false
deriving DecidableEq, Repr

/-- What a checker is asked about a run. -/
def requestOf (s : Setup) (case : TestCase) (v : Invocation) (exitCode : Int)
    (file : String) : CheckRequest :=
  { testName := case.name, info := v.info, input := v.input, reference := v.reference
    outputFile := file, exitCode
    problemDir := Path.absolute s.cwd s.options.problemDir
    fixtureDir := case.fixtureDir, runDir := v.runDir, eps := s.surroundings.eps }

namespace Sandbox

/-- The name of the run directory. -/
def runDirName : String := "run"

/-- The file that an external checker finds captured output in. -/
def capturedName : String := "fake-output.txt"

/-- The name of the log that an interactor writes. -/
def logName : String := "output"

/-- How often the process behind a change of user is looked for. -/
def lookAttempts : Nat := 10

/-- How long it takes until an interactor is looked at again. -/
def lookDelay : Span := Span.ofMillis 100

/-- Reads an answer, which the candidate has to have written. -/
def readAnswer (p : Path) (test : String) : Act Bytes :=
  Act.orElse (Program.fetch p) fun e =>
    .candidate ("No output " ++ p.display ++ " on test " ++ test ++ ": " ++ e.text)

/-- Removes a file that may be missing. -/
def removeIfPresent (p : Path) : Act Unit :=
  Act.sparing .noEntry (Program.onFiles (.unlink p)) fun e => .io (.os e)

/-! ## The candidate -/

variable (s : Setup) (m : Metadata)

/-- How the candidate is started: in a group of its own, and in a pipeline with the limit on
processes that its record sets. -/
def candidateLaunch (v : Invocation) (stdin : Wiring) : Launch :=
  { program := v.executable
    argv := v.argv.map utf8
    env := v.env.toEnvironment
    dir := v.runDir
    stdin
    stdout := if m.checkStderr then .inherit else .pipe
    stderr := if m.checkStderr then .pipe else .inherit
    ownGroup := true
    maxProcesses := if s.surroundings.pipeline then m.maxProcesses else none
    lenient := true }

/-- Starts the candidate. -/
def startCandidate (v : Invocation) (stdin : Wiring) : Act Started :=
  Act.orElse (Program.start (candidateLaunch s m v stdin)) fun e =>
    .candidate ("Failed to start " ++ v.executable.display ++ ": " ++ e.text)

/-- The stream of a candidate that is captured. -/
def captured? (s : Started) : Option Descriptor := s.stdout.or s.stderr

/-- An end of a pipe to the candidate, which is there. -/
def pipeEnd (name : String) : Option Descriptor → Act Descriptor
  | some fd => return fd
  | none => throw (.internal ("Candidate " ++ name ++ " not captured"))

/-- Runs the candidate on its input, and gives what it wrote and how it ended. -/
def runPlain (v : Invocation) : Act (Bytes × WaitStatus) := do
  let input ← Act.orElse (Program.openFile v.input .read) fun e =>
    .config ("Failed to open input " ++ v.input.display ++ ": " ++ e.text)
  let started ← startCandidate s m v (.given input)
  let fd := (captured? started).getD 0
  let output ← Act.ofSystem (Program.drain fd)
  Act.ofProgram (Program.close fd)
  let status ← Act.ofSystem (Program.wait started.pid)
  return (output, status)

/-! ## The interactor -/

/-- What an interactive run leads to. -/
inductive Dialogue where
  | finished (log : Bytes) (status : WaitStatus)
  /-- The interactor failed, and the test may. -/
  | tolerated (log : Bytes) (status : WaitStatus)
deriving DecidableEq, Repr

/-- Kills the candidate and waits for its end, unless that was seen before. -/
def giveUp (pid : Pid) (ended : Option WaitStatus := none) : Act Unit := do
  Act.signal pid Signal.kill
  if ended.isNone then
    let _ ← Act.ofSystem (Program.wait pid)

/-- How a process ended, for a message; it may still run. -/
def statusWord : Option WaitStatus → String
  | none => "None"
  | some status =>
    let word := match status with
      | .exited code => toString (code * 256)
      | .signaled signal => toString signal
      | .running => "65535"
    "Some(ExitStatus(unix_wait_status(" ++ word ++ ")))"

/-- The process to be told about: the candidate, or the one behind a change of user. -/
def target (pid : Pid) : Act Int :=
  if s.options.user.isNone then return pid
  else do
    match ← Act.ofProgram
        (ProcessTable.waitForChild ProcessTable.root pid lookDelay lookAttempts).run with
    | .ok child => return child
    | .error e => do
      let ended ← Act.ofProgram (Program.poll pid)
      Act.say ("Failed to start solution " ++ statusWord ended)
      giveUp pid ended
      throw e

/-- What an interactor is told: the files of the test and the candidate. -/
def interactorArguments (v : Invocation) (name info : String) (pid : Int) : List String :=
  [name, v.input.display, logName, v.reference.display, toString pid, info]

/-- How the interactor is started: it reads what the candidate writes, and the candidate what it
writes. -/
def interactorLaunch (v : Invocation) (program : Path) (arguments : List String)
    (fromCandidate toCandidate : Descriptor) : Launch :=
  { program
    argv := arguments.map utf8
    env := (v.env.overlay m.interactorEnviron).toEnvironment
    dir := v.runDir
    stdin := .given fromCandidate
    stdout := .given toCandidate }

/-- Starts the interactor; if that fails the candidate is killed. -/
def startInteractor (l : Launch) (candidate : Pid) : Act Started := do
  match ← Act.ofProgram (Program.start l) with
  | .ok started => return started
  | .error e =>
    giveUp candidate
    throw (.config ("Failed to start interactor " ++ l.program.display ++ ": " ++ e.text))

variable (case : TestCase)

/-- What follows from the way in which the interactor ended. -/
def concludeDialogue (v : Invocation) (candidate interactor : WaitStatus) : Act Dialogue := do
  let log := v.runDir.child logName
  if interactor.success then
    let output ← readAnswer log case.name
    return .finished output candidate
  else
    let message := "Interactor failed with code " ++ toString interactor.code ++ " on test " ++
      case.name
    if s.options.mayFail case.name then
      Act.say message
      Act.say "May fail local. Skipped"
      let kept ← Act.ofProgram (Program.fetch log)
      return .tolerated (kept.toOption.getD []) candidate
    else
      match ← Act.ofProgram (Program.fetch log) with
      | .ok kept =>
        Act.say (Utf8.text kept)
        Act.say ""
      | .error _ => pure ()
      throw (.candidate message)

/-- Runs the candidate together with the interactor. -/
def runInteractive (v : Invocation) (interactor : Path) : Act Dialogue := do
  let program := Path.absolute s.cwd (s.options.problemDir.join interactor)
  let name ← Act.ofExcept (Invocation.seenFrom s.cwd v.runDir program)
  let started ← startCandidate s m v .pipe
  let pid ← target s started.pid
  let fromCandidate ← pipeEnd "stream" (captured? started)
  let toCandidate ← pipeEnd "stdin" started.stdin
  let hasInfo ← Act.ofProgram (Program.isFile v.info)
  let arguments := interactorArguments v name (if hasInfo then v.info.display else "") pid
  Act.say (Words.joinText arguments)
  let other ← startInteractor
    (interactorLaunch m v program arguments fromCandidate toCandidate) started.pid
  let candidateStatus ← Act.ofSystem (Program.wait started.pid)
  let interactorStatus ← Act.ofSystem (Program.wait other.pid)
  concludeDialogue s case v candidateStatus interactorStatus

/-! ## The answer -/

/-- The error of something on the captured stream where a file was to be written. -/
def unexpectedOutput : JudgeError :=
  .candidate ("Unexpected output on test " ++ case.name)

/-- The answer of a run: the output file when there is one that the judge reads, and otherwise what
was captured. -/
def produced (v : Invocation) (captured : Bytes) : Act Bytes :=
  match s.options.outputFile with
  | some name =>
    if !s.checker.isExternal || s.options.prepareAnswers then
      if !captured.isEmpty then throw (unexpectedOutput case)
      else readAnswer (v.runDir.child name) case.name
    else return captured
  | none => return captured

/-- The file that an external checker is told to look at. -/
def checkedFile (v : Invocation) (answer : Bytes) : Act String :=
  match s.options.outputFile with
  | some name =>
    if s.checker.isExternal && !answer.isEmpty then throw (unexpectedOutput case) else return name
  | none => do
    if s.checker.isExternal then
      Act.ofSystem (Program.store (v.runDir.child capturedName) answer)
    return capturedName

/-- Has the answer checked, and gives whether a failure was looked away from. -/
def checkAnswer (v : Invocation) (exitCode : Int) (answer : Bytes) : Act Bool := do
  let file ← checkedFile s case v answer
  let request := requestOf s case v exitCode file
  match ← Act.ofProgram (s.checker.check s.inherited request answer).run with
  | .ok () => return false
  | .error e =>
    if e.skippable && s.options.mayFail case.name then
      Act.say ("Test " ++ case.name ++ " skipped")
      return true
    else throw e

/-- What follows from a run that has come to its end. -/
def conclude (v : Invocation) (captured : Bytes) (exitCode : Int) : Act Outcome := do
  if s.checker.checksExitCode && !m.expectedExit.accepts exitCode then
    let message := "Solution failed with code " ++ toString exitCode ++ " on test " ++ case.name ++
      ", expected: " ++ m.expectedExit.text
    if s.options.mayFail case.name then
      Act.say message
      Act.say "May fail local. Skipped"
      return { output := captured, exitCode, skipped := true }
    else
      Act.say (Utf8.text captured)
      throw (.candidate message)
  else
    let answer ← produced s case v captured
    let skipped ←
      if s.options.prepareAnswers then pure false else checkAnswer s case v exitCode answer
    match s.options.outputFile with
    | some name => removeIfPresent (v.runDir.child name)
    | none => pure ()
    return { output := answer, exitCode, skipped }

/-- **Judges the candidate**, in a conversation or by what it answers. -/
def judge (v : Invocation) : Act Outcome :=
  match s.options.interactor with
  | some interactor => do
    match ← runInteractive s m case v interactor with
    | .finished log status => conclude s m case v log status.code
    | .tolerated log status =>
      return { output := log, exitCode := status.code, skipped := true }
  | none => do
    let (captured, status) ← runPlain s m v
    conclude s m case v captured status.code

/-- **One run of the candidate** on a test. -/
def run : Act Outcome := do
  let mode := if s.options.staticCopy then Overlay.copy else Overlay.links
  let runDir ← RunDirectory.build s.cwd case.fixtureDir mode (s.options.problemDir.child runDirName)
  let v ← Act.ofExcept (Invocation.build s.cwd s.inherited s.options m case runDir)
  Act.say v.display
  match s.options.initializer with
  | none => judge s m case v
  | some command => do
    let helper ← Act.ofExcept (Helper.ofCommand s.cwd s.options.problemDir command v)
    helper.around s.options.initializerRunTillEnd (judge s m case v)

end Sandbox

end Judge
