import Judge.Shell.Builtin.Directories
import Judge.Shell.Builtin.Jobs
import Judge.Shell.Builtin.Lookup
import Judge.Shell.Condition
import Judge.Shell.Format

/-!
# Shell/Builtin — commands that the shell does itself

The builtin commands that carry out no other command.  Each gives a status, and what it prints comes
out when it is done.
-/

namespace Judge.Shell

namespace Builtin

def test (bracket : Bool) (args : List Text) : Sh Nat := do
  if bracket && (args.getLast?.bind List.head?) != some ']' then fail "missing ]"
  match ← ofProgram (Condition.holds (if bracket then args.dropLast else args)) with
  | .ok b => return if b then 0 else 1
  | .error e => fail e

def printf (args : List Text) : Sh Nat := do
  let (_, args) ← takeOptions "" args
  match args with
  | [] => fail "usage: printf format [arg ...]"
  | format :: args => do
    let f := Format.printf format args
    f.errors.reverse.forM complain
    out f.text
    if f.broken then
      setStatus 2
      throw .error
    return if f.errors.isEmpty then 0 else 1

def leaveLoops (again : Bool) (args : List Text) : Sh Nat := do
  let n ← match args with
    | [] => pure 1
    | t :: _ => do
      let n ← number t
      if n = 0 then fail ("Illegal number: " ++ String.ofList t) else pure n
  let levels := min n (← get).loops
  if 0 < levels then modify fun s => { s with skip := .loops levels again }
  return 0

def leaveFunction (args : List Text) : Sh Nat := do
  let (status, told) ← match args with
    | [] => do pure ((← get).status, false)
    | t :: _ => do pure (← number t, true)
  modify fun s => { s with skip := .function told }
  return status

def leaveShell (args : List Text) : Sh Nat := do
  match args with
  | [] => pure ()
  | t :: _ => do
    let n ← number t
    modify fun s => { s with told := some n }
  throw .exit

def times : Sh Nat := do
  let line := "0m0.000000s 0m0.000000s".toList
  outLine line
  outLine line
  return 0

/-- **What a builtin command does.** -/
def run (name : String) (args : List Text) : Sh Nat :=
  match name with
  | "false" => return 1
  | "echo" => do
    out (Format.echo args)
    return 0
  | "printf" => printf args
  | "test" => test false args
  | "[" => test true args
  | "read" => read args
  | "kill" => kill jobGroup args
  | "trap" => trap args
  | "cd" => cd args
  | "chdir" => cd args
  | "pwd" => pwd args
  | "export" => declare name true false args
  | "readonly" => declare name false true args
  | "local" => localVariables args
  | "unset" => unset args
  | "set" => setCommand args
  | "shift" => shift args
  | "getopts" => getopts args
  | "wait" => wait args
  | "jobs" => jobs args
  | "fg" | "bg" => resume args
  | "break" => leaveLoops false args
  | "continue" => leaveLoops true args
  | "return" => leaveFunction args
  | "exit" => leaveShell args
  | "umask" => umask args
  | "ulimit" => ulimit args
  | "hash" => hash args
  | "type" => each args (describe none true)
  | "command" => commandOptions args
  | "alias" => defineAliases args
  | "unalias" => unalias args
  | "times" => times
  | _ => return 0

end Builtin

end Judge.Shell
