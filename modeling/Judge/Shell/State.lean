import Judge.Machine.Program
import Judge.Shell.Arithmetic
import Judge.Shell.Parser

/-!
# Shell/State — what a shell knows

Variables, arguments, functions, traps, options and jobs, the status of the last command, and how
the shell goes on.  An error leaves what is being done and goes up to where it is caught; leaving a
loop or a function is a part of the state that every command on the way looks at.
-/

namespace Judge.Shell

/-! ## Parts -/

/-- A variable, which may be known without a value. -/
structure Variable where
  value : Option Text
  exported : Bool := false
  readOnly : Bool := false
deriving DecidableEq, Repr

/-- What commands are passed over. -/
inductive Skip where
  | nothing
  | loops (levels : Nat) (again : Bool)
  | function (told : Bool)
deriving DecidableEq, Repr

/-- Why something was left. -/
inductive Raise where
  | error
  | exit
  | done
deriving DecidableEq, Repr

/-- An option of the shell. -/
inductive Setting where
  | errexit | noglob | ignoreeof | interactive | monitor | noexec | stdin | xtrace | verbose | vi
  | emacs | noclobber | allexport | notify | nounset | privileged | nolog | debug
deriving DecidableEq, Repr

namespace Setting

def table : List (Setting × String × Option Char) :=
  [(errexit, "errexit", some 'e'), (noglob, "noglob", some 'f'), (ignoreeof, "ignoreeof", some 'I'),
   (interactive, "interactive", some 'i'), (monitor, "monitor", some 'm'),
   (noexec, "noexec", some 'n'), (stdin, "stdin", some 's'), (xtrace, "xtrace", some 'x'),
   (verbose, "verbose", some 'v'), (vi, "vi", some 'V'), (emacs, "emacs", some 'E'),
   (noclobber, "noclobber", some 'C'), (allexport, "allexport", some 'a'),
   (notify, "notify", some 'b'), (nounset, "nounset", some 'u'),
   (privileged, "privileged", some 'p'), (nolog, "nolog", none), (debug, "debug", none)]

def ofLetter? (c : Char) : Option Setting := (table.find? fun e => e.2.2 == some c).map (·.1)

def ofName? (name : String) : Option Setting := (table.find? fun e => e.2.1 == name).map (·.1)

end Setting

/-- A function, with the line that it is on. -/
structure Function where
  line : Nat
  body : Command

/-- Processes in the background. -/
structure Job where
  number : Nat
  pids : List Pid
  statuses : List (Pid × WaitStatus) := []
  waited : Bool := false

namespace Job

def isDone (j : Job) : Bool := j.pids.all fun pid => (j.statuses.lookup pid).isSome

def pid? (j : Job) : Option Pid := j.pids.getLast?

def status? (j : Job) : Option WaitStatus := j.pid?.bind fun pid => j.statuses.lookup pid

end Job

/-- Something as it was before a function or a command. -/
inductive Hidden where
  | variable (name : Text) (old : Option Variable)
  | settings (old : List Setting)

/-- What a function or a command hides, the last thing first. -/
abbrev Frame := List Hidden

/-- A program that was looked up. -/
structure Known where
  path : Text
  stale : Bool := false
deriving DecidableEq, Repr

/-- The state of a shell. -/
structure State where
  name : Text := []
  pid : Pid := 0
  args : List Text := []
  vars : List (Text × Variable) := []
  functions : List (Text × Function) := []
  aliases : List (Text × Text) := []
  /-- What is done about signals; the number zero stands for the end of the shell. -/
  traps : List (Signal × Text) := []
  deaf : List Signal := []
  status : Nat := 0
  told : Option Nat := none
  line : Nat := 0
  reached : Nat := 1
  command : Option Text := none
  dir : Text := []
  loops : Nat := 0
  skip : Skip := .nothing
  /-- The status of the last commands whose output was taken. -/
  captured : Nat := 0
  lastJob : Option Pid := none
  jobs : List Job := []
  frames : List Frame := []
  settings : List Setting := []
  known : List (Text × Known) := []
  optionIndex : Nat := 1
  optionOffset : Option Nat := none
  regions : Nat := 0
  tracing : Bool := false
  /-- What the builtin command at hand prints when it is done, the last piece first. -/
  output : List Text := []
  pending : List Signal := []
  calls : Nat := 0
  texts : Nat := 0

/-- **What the shell does**: with a state, and until something is raised. -/
abbrev Sh (α : Type) := ExceptT Raise (StateT State Program) α

/-! ## Acting -/

def ofProgram {α : Type} (p : Program α) : Sh α := ExceptT.lift (StateT.lift p)

def perform (c : Call) : Sh c.Reply := ofProgram (Program.perform c)

def attempt {α : Type} (a : Sh α) : Sh (Except Raise α) :=
  ExceptT.mk do
    let r ← ExceptT.run a
    return .ok r

def setStatus (n : Nat) : Sh Unit := modify fun s => { s with status := n }

def has (o : Setting) : Sh Bool := do return (← get).settings.contains o

def printTo (fd : Descriptor) (t : Text) : Sh Bool := do
  let data := toBytes t
  match ← ofProgram (Program.writeAll fd data) with
  | .ok () => return true
  | .error _ => return false

def out (t : Text) : Sh Unit := modify fun s => { s with output := t :: s.output }

def outLine (t : Text) : Sh Unit := out (t ++ ['\n'])

def complain (message : String) : Sh Unit := do
  let s ← get
  let command := match s.command with
    | some c => c ++ ": ".toList
    | none => []
  let place := (": " ++ toString s.line ++ ": ").toList
  let _ ← printTo 2 (s.name ++ place ++ command ++ message.toList ++ ['\n'])

def fail {α : Type} (message : String) : Sh α := do
  complain message
  setStatus 2
  throw .error

def reasonFor (e : OsError) (missing : String) : String :=
  if e = .noEntry || e = .notDirectory then missing else e.reason

/-! ## Variables -/

def pathName : Text := "PATH".toList

def separatorsName : Text := "IFS".toList

def standardSeparators : Text := " \t\n".toList

def optionName : Text := "OPTIND".toList

def lastingNames : List Text :=
  ["IFS", "MAIL", "MAILPATH", "PATH", "PS1", "PS2", "PS4", "OPTIND"].map String.toList

/-- Where programs are looked up if nothing else is said. -/
def standardPath : Text := "/usr/local/sbin:/usr/local/bin:/usr/sbin:/usr/bin:/sbin:/bin".toList

namespace State

variable (s : State) (name : Text)

def value? : Option Text := (s.vars.lookup name).bind (·.value)

def put (v : Variable) : State := { s with vars := Assoc.put s.vars name v }

def remove : State :=
  { s with vars := s.vars.filter (·.1 != name) }

def noted (value : Option Text) : State :=
  if name == pathName then { s with known := [] }
  else if name == optionName then
    { s with
      optionIndex := max 1 (Scan.readDigits 10 (value.getD [])), optionOffset := none }
  else s

def restore : Hidden → State
  | .variable name (some v) => (s.noted name v.value).put name v
  | .variable name none => s.remove name
  | .settings old => { s with settings := old }

def separators : Text := (s.value? separatorsName).getD standardSeparators

def shelf : Nat :=
  ((name.headD '\x00').toNat * 16 + (name.map Char.toNat).sum) % 39

def shelved {α : Type} (entries : List (Text × α)) : List (Text × α) :=
  entries.mergeSort fun a b => shelf a.1 ≤ shelf b.1

def environment : Environment :=
  (shelved (s.vars.filter (·.2.exported))).filterMap fun e =>
    e.2.value.map fun v => (toBytes e.1, toBytes v)

def path : Text := (s.value? pathName).getD []

/-- The state of a shell with a given environment: the variables that it has by itself, the last
ones of them anew. -/
def ofEnvironment (env : Environment) (parent : Pid) : State :=
  let own : List (String × Text) :=
    [("PATH", standardPath), ("PS1", "# ".toList), ("PS2", "> ".toList), ("PS4", "+ ".toList)]
  let s : State := { vars := own.map fun e => (e.1.toList, { value := some e.2 }) }
  let s := env.foldl (fun s e =>
    let name := ofBytes e.1
    if isName name then s.put name { value := some (ofBytes e.2), exported := true } else s) s
  let anew (s : State) (name value : Text) : State :=
    let exported := ((s.vars.lookup name).map (·.exported)).getD false
    s.put name { value := some value, exported }
  let s := anew s separatorsName standardSeparators
  let s := anew s optionName ['1']
  anew s "PPID".toList (toString parent).toList

def parameter? : Option Text :=
  match name with
  | ['?'] => some (toString s.status).toList
  | ['#'] => some (toString s.args.length).toList
  | ['$'] => some (toString s.pid).toList
  | ['!'] => s.lastJob.map fun pid => (toString pid).toList
  | ['-'] =>
    some (Setting.table.reverse.filterMap fun e => if s.settings.contains e.1 then e.2.2 else none)
  | ['0'] => some s.name
  | c :: _ =>
    if c.isDigit then
      match (String.ofList name).toNat? with
      | some 0 => some s.name
      | some (n + 1) => s.args[n]?
      | none => none
    else s.value? name
  | [] => none

end State

def number (t : Text) : Sh Nat := do
  if !t.isEmpty && t.all Char.isDigit then
    return min (Scan.readDigits 10 t) (2 ^ 63 - 1) % 2 ^ 32
  else fail ("Illegal number: " ++ String.ofList t)

variable (name : Text)

def checkName : Sh Unit := do
  unless isName name do fail (String.ofList name ++ ": bad variable name")

/-- Sets a variable, or with no value unsets it, unless it must not change; what it was besides, and
what it is to be, it is. -/
def setVariable (value : Option Text) (exported : Bool := false)
    (readOnly : Bool := false) : Sh Unit := do
  let old := (← get).vars.lookup name
  if (old.map (·.readOnly)).getD false then fail (String.ofList name ++ ": is read only")
  if name == optionName then
    let _ ← number (value.getD [])
  let s := (← get).noted name value
  let exported := exported || s.settings.contains .allexport
  if value.isNone && !exported && !readOnly && !lastingNames.contains name then
    set (s.remove name)
  else
    let v : Variable :=
      { value, exported := exported || (old.map (·.exported)).getD false
        readOnly }
    set (s.put name v)

def assignVariable (name value : Text) : Sh Unit := do
  checkName name
  setVariable name (some value)

def hide (h : Hidden) : Sh Unit :=
  modify fun s => match s.frames with
    | [] => s
    | frame :: frames => { s with frames := (h :: frame) :: frames }

def hideVariable (value : Option Text) (exported : Bool := false) : Sh Unit := do
  let old := (← get).vars.lookup name
  match value with
  | some v => setVariable name (some v) exported
  | none =>
    if old.isNone then
      checkName name
      modify fun s => s.put name { value := none }
  hide (.variable name old)

/-- Brings back what is hidden by everything but the first `depth` frames. -/
def unwind (depth : Nat) : Sh Unit :=
  modify fun s =>
    let frames := s.frames.take (s.frames.length - depth)
    frames.flatten.foldl State.restore { s with frames := s.frames.drop frames.length }

end Judge.Shell
