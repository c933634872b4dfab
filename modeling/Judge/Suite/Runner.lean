import Judge.Report
import Judge.Suite.Discovery
import Judge.Suite.Sandbox
import Judge.Suite.Seal

/-!
# Suite/Runner — judging a suite

A round seals the references of all tests and then runs them in order.  A test is tried until an
attempt succeeds, fails for good, or no attempt is left.  Around one run stand the checks that no
process was left behind, that the reference is as it was, and that the time was kept.
-/

namespace Judge

/-- The tests of a round, each with the seal of its answer if it has one. -/
abbrev SealedTests := List (TestCase × Option Seal)

namespace Runner

/-! ## Processes left behind -/

/-- How many of the processes left behind are shown. -/
def orphanSample : Nat := 5

/-- The living among the children; the others are waited for. -/
def living : List ProcessEntry → Program (List ProcessEntry)
  | [] => return []
  | e :: rest =>
    if e.isZombie then do
      let _ ← Program.poll e.pid.toNat
      living rest
    else do
      let others ← living rest
      return e :: others

/-- Kills processes, whether they are still there or not. -/
def killAll : List ProcessEntry → Program Unit
  | [] => return ()
  | e :: rest => do
    let _ ← Program.kill e.pid Signal.kill
    let _ ← Program.wait e.pid.toNat
    killAll rest

/-- The error that tells of processes left behind, of the first ones by name. -/
def orphanError (orphans : List ProcessEntry) : JudgeError :=
  let sample := orphans.take orphanSample
  .orphans orphans.length sample.length ("[" ++ ", ".intercalate (sample.map (·.text)) ++ "]")

/-- **Fails when a process was left behind**, and kills what is left. -/
def verifyNoOrphans : Act Unit := do
  let pid ← Act.ofProgram Program.ownPid
  let children ← ProcessTable.childrenOf ProcessTable.root pid
  let orphans ← Act.ofProgram (living children)
  if orphans.isEmpty then return ()
  else
    Act.ofProgram (killAll orphans)
    throw (orphanError orphans)

/-! ## Time -/

/-- The processor time of the children that were waited for. -/
def childTime : Act Span := do
  let micros ← Act.orElse Program.childTime .system
  return ⟨micros * 1000⟩

/-- Tells of the time that was used and of the limit. -/
def timeMessage (used limit : Span) : String :=
  "Time limit exceed: " ++ FloatLayout.running.render used.seconds ++ " > " ++
    FloatLayout.running.render limit.seconds ++ " secs"

/-- Too much time is an error in pipeline mode, and a message otherwise. -/
def checkTime (pipeline : Bool) (used limit : Span) : Act Unit :=
  if used.nanos ≤ limit.nanos then return ()
  else if pipeline then throw (.timeLimit (timeMessage used limit))
  else Act.say ("ERROR: " ++ timeMessage used limit)

/-! ## Attempts -/

/-- A successful attempt. -/
structure Attempt where
  outcome : Outcome
  time : Span
deriving DecidableEq, Repr

variable (s : Setup)

/-- **One attempt**: a run, and then the checks around it.  Processes left behind are reported even
when the run itself failed. -/
def attempt (m : Metadata) (case : TestCase) (kept : Option Seal) : Act Attempt := do
  let before ← childTime
  let result ← Act.ofProgram (Sandbox.run s m case).run
  verifyNoOrphans
  let outcome ← Act.ofExcept result
  match kept with
  | some kept => kept.verify
  | none => pure ()
  let after ← childTime
  let used : Span := ⟨after.nanos - before.nanos⟩
  checkTime s.surroundings.pipeline used (m.timeLimitOr s.surroundings.defaultTimeLimit)
  return { outcome, time := used }

/-- A test in a report, and the error that ends the suite if there is one. -/
structure Result where
  report : TestReport
  error : Option JudgeError := none
deriving DecidableEq, Repr

/-- The result of a test that failed. -/
def failedResult (name : String) (attempts : Nat) (e : JudgeError) (time : Binary64) : Result :=
  { report := { name, attempts, status := .failed, cpuSeconds := time
                error := some e.text }
    error := some e }

/-- The result of an attempt that succeeded; with prepared answers its output becomes the
reference. -/
def accept (case : TestCase) (attempts : Nat) (a : Attempt) : Program Result := do
  let time := a.time.seconds
  let status := if a.outcome.skipped then Status.skipped else Status.passed
  let good : Result :=
    { report := { name := case.name, attempts, status, cpuSeconds := time } }
  if s.options.prepareAnswers then
    match ← Program.store case.reference a.outcome.output with
    | .ok () => return good
    | .error e => return failedResult case.name attempts (.io (.os e)) time
  else return good

/-- Tells of an attempt that failed, and whether there is another one. -/
def attemptMessage (index : Nat) (e : JudgeError) (again : Bool) : String :=
  "Attempt " ++ toString index ++ " failed with " ++ e.text ++ "," ++
    (if again then "" else " not") ++ " going to retry"

/-- Tries a test, `index` attempts having failed and `left` being left. -/
def tryFrom (s : Setup) (m : Metadata) (case : TestCase) (kept : Option Seal) :
    Nat → Nat → Program Result
  | index, 0 =>
    return failedResult case.name index (.internal "Retry loop exhausted") Binary64.zero
  | index, left + 1 => do
    match ← (attempt s m case kept).run with
    | .ok a => accept s case (index + 1) a
    | .error e =>
      let again := decide (0 < left) && e.retryable && !e.integrity
      Program.printLine (attemptMessage index e again)
      if again then tryFrom s m case kept (index + 1) left
      else return failedResult case.name (index + 1) e Binary64.zero

/-- The record of a test; without a file it is empty. -/
def loadMetadata (path : Path) : Act Metadata := do
  if ← Act.ofProgram (Program.isFile path) then
    let raw ← Act.ofSystem (Program.fetch path)
    match Utf8.decode? raw with
    | none => throw (.io .notText)
    | some text => Act.ofExcept ((Metadata.read text).mapError (Metadata.Error.toJudgeAt path))
  else return {}

/-- **Runs one test.** -/
def runTest (case : TestCase) (kept : Option Seal) : Program Result := do
  match ← (loadMetadata case.info).run with
  | .error e => return failedResult case.name 0 e Binary64.zero
  | .ok m => tryFrom s m case kept 0 (max s.options.retries 1)

/-! ## Rounds -/

/-- Seals the reference of a test; it may be absent only while answers are prepared. -/
def sealReference (case : TestCase) : Act (Option Seal) := do
  if ← Act.ofProgram (Program.isFile case.reference) then
    let kept ← Seal.take case.reference
    return some kept
  else if s.options.prepareAnswers then return none
  else throw (.config ("No answer for test " ++ case.name))

/-- A report with one more test. -/
def record (report : Report) (r : TestReport) : Report :=
  { report with tests := report.tests ++ [r] }

/-- Runs tests one after the other up to the first that fails. -/
def runTests (s : Setup) : SealedTests → Report → Program (Except JudgeError Unit × Report)
  | [], report => return (.ok (), report)
  | (case, kept) :: rest, report => do
    let r ← runTest s case kept
    let report := record report r.report
    match r.error with
    | some e => return (.error e, report)
    | none => runTests s rest report

/-- Finds the tests of a round, and seals their references unless answers are prepared. -/
def prepareRound : Act SealedTests := do
  let cases ← discover s.cwd s.options.problemDir s.options.testsDir
  if cases.isEmpty then throw (.config "No tests were found")
  let seals ← cases.mapM (sealReference s)
  return cases.zip seals

/-- **Runs one round**: every test in turn, up to the first that fails. -/
def runRound (report : Report) : Program (Except JudgeError Unit × Report) := do
  match ← (prepareRound s).run with
  | .error e => return (.error e, report)
  | .ok tests => runTests s tests report

/-- Runs `left` rounds, `index` having been run. -/
def runRounds (s : Setup) : Nat → Nat → Report → Program (Except JudgeError Unit × Report)
  | _, 0, report => return (.ok (), report)
  | index, left + 1, report => do
    Program.printLine ("Trying tests #" ++ toString index)
    match ← runRound s report with
    | (.error e, report) => return (.error e, report)
    | (.ok (), report) => runRounds s (index + 1) left report

end Runner

/-- **Judges a suite** and reports on it. -/
def Setup.runSuite (s : Setup) : Program (Except JudgeError Unit × Report) := do
  let empty : Report := { pipeline := s.surroundings.pipeline }
  match ← Runner.runRounds s 0 (max s.options.retests 1) empty with
  | (.error e, report) => return (.error e, report)
  | (.ok (), report) =>
    Program.printLine "All tests passed"
    return (.ok (), { report with passed := true })

/-- The setup of a suite, with the policy of the surroundings applied to the options. -/
def Setup.make (cwd : Path) (inherited : Vars) (options : Options) (surroundings : Surroundings) :
    Except JudgeError Setup := do
  let options := options.underPolicy surroundings
  let checker ← Checker.ofSelector cwd options.checker
  return { cwd := cwd, inherited := inherited, options := options, surroundings := surroundings
           checker := checker }

/-- Judges a suite with the given options, once the judge is told that it is the parent of what its
children leave behind.  A wrong checker is an error before anything is done. -/
def judgeSuite (cwd : Path) (inherited : Vars) (options : Options) (surroundings : Surroundings) :
    Program (Except JudgeError Unit × Report) :=
  match Setup.make cwd inherited options surroundings with
  | .error e => return (.error e, {})
  | .ok s => do
    match ← Program.perform .adopt with
    | .error e => return (.error (.system e), {})
    | .ok () => s.runSuite

/-- Writes a report to a file. -/
def Report.write (path : Path) (r : Report) : Act Unit :=
  Act.ofSystem (Program.store path (utf8 r.render))

end Judge
