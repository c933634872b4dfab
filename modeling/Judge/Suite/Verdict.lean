import Judge.Checker
import Judge.Machine.Act

/-!
# Suite/Verdict — checking what a candidate produced

A checker of the judge compares with the reference, in which the placeholder of the problem
directory is expanded first.  An external checker is a program that is told where everything is and
says with its exit code whether it is content.
-/

namespace Judge

/-- What a checker is asked. -/
structure CheckRequest where
  testName : String
  info : Path
  input : Path
  reference : Path
  /-- The file with what was produced, seen from the run directory. -/
  outputFile : String
  exitCode : Int
  problemDir : Path
  fixtureDir : Path
  runDir : Path
  eps : Binary64
deriving DecidableEq, Repr

namespace Checker

/-- The reference at `p`, with the placeholder of the problem directory expanded. -/
def loadReference (p problemDir : Path) : Act Bytes :=
  (fun raw => expandReference problemDir raw) <$> Act.orElse (Program.fetch p) fun e =>
    .config ("Failed to read reference " ++ p.display ++ ": " ++ e.text)

/-- The file in the run directory that a wrong answer is kept in. -/
def failedOutputName : String := "output"

/-- The variable that tells an external checker the fixture directory. -/
def fixtureVar : String := "DIRENT"

/-- The answer is not the one that was wanted. -/
def mismatchError (request : CheckRequest) (mismatch : Mismatch) : JudgeError :=
  .candidate ("Output mismatched on test " ++ request.testName ++ ": " ++ mismatch.message ++
    ". Check \"" ++ (request.runDir.child failedOutputName).display ++ "\" file")

/-- Compares with the reference; a wrong answer is shown and kept. -/
def checkAgainst (c : Checker) (request : CheckRequest) (produced reference : Bytes) : Act Unit :=
  match c.compare request.eps produced reference with
  | .ok () => return ()
  | .error mismatch => do
    Act.ofProgram (Program.print (utf8 (mismatch.diff.getD "")))
    Act.ofSystem (Program.store (request.runDir.child failedOutputName) produced)
    throw (mismatchError request mismatch)

/-- What a checker of its own is told. -/
def externalArguments (request : CheckRequest) : List String :=
  [request.info.display, request.input.display, request.outputFile, request.reference.display,
    toString request.exitCode]

/-- How a checker of its own is started. -/
def externalLaunch (inherited : Vars) (program : Path) (request : CheckRequest) : Launch :=
  { program
    argv := program.text :: (externalArguments request).map utf8
    env := (inherited.erase fixtureVar).toEnvironment ++
      [(utf8 fixtureVar, (request.problemDir.join request.fixtureDir).text)]
    dir := request.runDir
    stdin := .null }

/-- Starts a program and waits for it. -/
def runToEnd (l : Launch) (tell : OsError → JudgeError) : Act WaitStatus := do
  let started ← Act.orElse (Program.start l) tell
  Act.ofSystem (Program.wait started.pid)

/-- Asks a checker of its own; its exit code is the verdict. -/
def askExternal (inherited : Vars) (program : Path) (request : CheckRequest) : Act Unit := do
  Act.say (program.display ++ " " ++ " ".intercalate (externalArguments request))
  let status ← runToEnd (externalLaunch inherited program request) fun e =>
    .config ("Failed to start checker " ++ program.display ++ ": " ++ e.text)
  if status.success then return ()
  else throw (.candidate ("Test " ++ request.testName ++ " failed"))

/-- **Checks what was produced.** -/
def check (inherited : Vars) (c : Checker) (request : CheckRequest) (produced : Bytes) : Act Unit :=
  match c with
  | .external program => askExternal inherited program request
  | .ignore => return ()
  | _ => do
    let reference ← loadReference request.reference request.problemDir
    c.checkAgainst request produced reference

end Checker

end Judge
