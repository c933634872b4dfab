import Judge.CommandLine.Arguments
import Judge.Machine.Kernel
import Judge.Suite.Runner

/-!
# CommandLine/Suite — the program that judges a suite

It judges the suite of the directory it is started in, as its options and its environment say.
-/

namespace Judge.SuiteCommand

/-! ## Options -/

/-- Whether a word can be a path. -/
def isPath (s : String) : Bool := s != ""

/-- A count: a signed number of 64 bits that is a natural number of 32 bits. -/
def count? (s : String) : Option Nat :=
  match Integer.readSigned64 s.toList with
  | .ok n => if 0 ≤ n && n ≤ Integer.max32 then some n.toNat else none
  | .error _ => none

/-- Whether a word is a count. -/
def isCount (s : String) : Bool := (count? s).isSome

/-- The count that a word gives. -/
def count (s : String) : Nat := (count? s).getD 1

/-- The options of the program. -/
def arguments : Interface :=
  { options :=
      [{ name := "prepare-answers", arity := .flag },
       { name := "output-file", arity := .one },
       { name := "run-cmd", arity := .one },
       { name := "checker", arity := .one },
       { name := "interactor", arity := .one, accepts := isPath },
       { name := "initializer", arity := .one },
       { name := "initializer-run-till-end", arity := .flag },
       { name := "may-fail-local", arity := .many },
       { name := "user", arity := .one },
       { name := "input-filename", arity := .one },
       { name := "static-copy", arity := .flag },
       { name := "retests-count", arity := .one, accepts := isCount },
       { name := "retries-count", arity := .one, accepts := isCount },
       { name := "tests-dir", arity := .one, accepts := isPath },
       { name := "report", arity := .one, accepts := isPath }] }

/-- The options of a run in the directory `dir`. -/
def options (dir : Path) (a : Arguments) : Options :=
  let d : Options := {}
  { problemDir := dir
    testsDir := ((a.value? "tests-dir").map .ofString).getD d.testsDir
    prepareAnswers := a.has "prepare-answers"
    outputFile := a.value? "output-file"
    runCmd := (a.value? "run-cmd").getD d.runCmd
    checker := (a.value? "checker").getD d.checker
    interactor := (a.value? "interactor").map .ofString
    initializer := a.value? "initializer"
    initializerRunTillEnd := a.has "initializer-run-till-end"
    mayFailLocal := a.values "may-fail-local"
    user := a.value? "user"
    inputFilename := (a.value? "input-filename").getD d.inputFilename
    staticCopy := a.has "static-copy"
    retests := ((a.value? "retests-count").map count).getD d.retests
    retries := ((a.value? "retries-count").map count).getD d.retries
    report := (a.value? "report").map .ofString }

/-! ## The program -/

/-- What lies behind an error. -/
def cause? : JudgeError → Option String
  | .io cause => some cause.text
  | .system cause => some cause.wording
  | _ => none

/-- What is told of an error at the end. -/
def errorText (e : JudgeError) : String :=
  "Error: " ++ e.text ++ "\n" ++
    (match cause? e with
      | some cause => "\nCaused by:\n    " ++ cause ++ "\n"
      | none => "")

/-- Writes to the standard error. -/
def complain (text : String) : Program Unit := do
  let data := utf8 text
  let _ ← Program.writeAll 2 data

/-- Tells an error and gives the exit code of a failure. -/
def fail (e : JudgeError) : Program Nat := do
  complain (errorText e)
  return 1

/-- Judges the suite and writes the report, also when judging failed. -/
def carryOut (cwd : Path) (inherited : Vars) (o : Options) (s : Surroundings) : Act Unit := do
  let (result, report) ← Act.ofProgram (judgeSuite cwd inherited o s)
  match o.report with
  | some path => report.write path
  | none => pure ()
  Act.ofExcept result

/-- How the program is called. -/
def usage : String :=
  "Usage: judgebox [OPTIONS]\n\nOptions:\n" ++
    "\n".intercalate (arguments.options.map fun r => "  --" ++ r.name)

/-- The variables of an environment that are text. -/
def varsOf (env : Environment) : Vars :=
  .ofList (env.filterMap fun e => do
    let key ← Utf8.text? e.1
    let value ← Utf8.text? e.2
    return (key, value))

/-- **The judge.** -/
def program (boot : Boot) : Program Nat := do
  match arguments.read (boot.argv.tail.map Utf8.text) with
  | .error .version => do
    Program.printLine "judgebox 0.1.0"
    return 0
  | .error .help => do
    Program.printLine usage
    return 0
  | .error .usage => do
    complain (usage ++ "\n")
    return 2
  | .ok a =>
    let inherited := varsOf boot.env
    match Surroundings.read inherited.get? with
    | .error e => fail e
    | .ok s => do
      let place : Place ← Program.perform .cwd
      let cwd := Path.ofNames place
      match ← (carryOut cwd inherited (options cwd a) s).run with
      | .ok () => return 0
      | .error e => fail e

end Judge.SuiteCommand
