import Judge.Command.Invocation
import Judge.Machine.Act
import Judge.Suite.Verdict

/-!
# Suite/Helper — setting up before a run and tearing down after it

A helper is started before the candidate.  It either does its work and is called again to tear
down, or it lives as long as the run and is interrupted at the end.  `Helper.around` releases the
helper on every path, and the release has no say in the result.
-/

namespace Judge

/-- A helper: the program, its first arguments, and the files of the test that it is told. -/
structure Helper where
  program : Path
  arguments : List String
  files : List Path
  env : Vars
  dir : Path
deriving DecidableEq, Repr

/-- A helper that was started. -/
inductive Helper.Hold where
  | done
  | living (pid : Pid)
deriving DecidableEq, Repr

namespace Helper

/-- The time that a living helper is given to come up. -/
def settleDelay : Span := Span.ofMillis 100

/-- The helper of a command line, for an invocation. -/
def ofCommand (cwd problemDir : Path) (command : String) (v : Invocation) :
    Except JudgeError Helper := do
  match ← Invocation.splitWords command with
  | [] => throw (.config "Initializer command is empty")
  | first :: rest =>
    return {
      program := Path.absolute cwd (problemDir.child first)
      arguments := rest
      files := [v.input, v.reference, v.info]
      env := v.env
      dir := v.runDir }

/-- How the helper is started to do what `verb` says. -/
def launch (h : Helper) (verb : String) : Launch :=
  { program := h.program
    argv := h.program.text :: (h.arguments ++ [verb]).map utf8 ++ h.files.map (·.text)
    env := h.env.toEnvironment
    dir := h.dir }

/-- The helper could not be started. -/
def refusal (h : Helper) (e : OsError) : JudgeError :=
  .config ("Failed to start initializer " ++ h.program.display ++ ": " ++ e.text)

/-- Starts the helper; unless it lives on, it has to come to its end without a failure. -/
def acquire (h : Helper) (tillEnd : Bool) : Act Hold := do
  let started ← Act.orElse (Program.start (h.launch "start")) h.refusal
  if tillEnd then
    Act.ofProgram (Program.sleep settleDelay)
    return .living started.pid
  else
    let status ← Act.ofSystem (Program.wait started.pid)
    if status.success then return .done
    else throw (.config ("Failed to run initializer start " ++ status.text))

/-- Releases the helper: a living one is interrupted and waited for, the other is called to tear
down. -/
def release (h : Helper) : Hold → Act Unit
  | .living pid => do
    Act.signal pid Signal.int
    let _ ← Act.ofSystem (Program.wait pid)
  | .done => do
    let _ ← Checker.runToEnd (h.launch "stop") h.refusal

/-- **Does `body` between acquiring and releasing the helper.** -/
def around {α : Type} (h : Helper) (tillEnd : Bool) (body : Act α) : Act α := do
  let hold ← h.acquire tillEnd
  let result ← Act.ofProgram body.run
  let _ ← Act.ofProgram (h.release hold).run
  Act.ofExcept result

end Helper

end Judge
