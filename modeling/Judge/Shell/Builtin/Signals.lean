import Judge.Shell.Builtin.Options

/-!
# Shell/Builtin/Signals — signals in the shell

The names of signals, what the shell says of processes that they ended, and the commands `kill` and
`trap`.
-/

namespace Judge.Shell

namespace Builtin

def signalCount : Nat := 65

def signalName (s : Signal) : String :=
  if s = 0 then "EXIT"
  else if s = 16 || s = 32 || s = 33 then toString s
  else if s = 34 then "RTMIN"
  else if s = 64 then "RTMAX"
  else if 34 < s && s < 50 then "RTMIN+" ++ toString (s - 34)
  else if 50 ≤ s then "RTMAX-" ++ toString (64 - s)
  else ((WaitStatus.signalNames.lookup s).map fun n => String.ofList (n.toList.drop 3)).getD ""

def signal? (least : Signal) (t : Text) : Option Signal :=
  if !t.isEmpty && t.all Char.isDigit then
    let n := Scan.readDigits 10 t
    if n < signalCount then some n else none
  else
    let name := (String.ofList t).toUpper
    (List.range signalCount).find? fun s => least ≤ s && signalName s == name

def signalText (s : Signal) : String :=
  let table : List (Signal × String) :=
    [(1, "Hangup"), (2, "Interrupt"), (3, "Quit"), (4, "Illegal instruction"),
     (5, "Trace/breakpoint trap"), (6, "Aborted"), (7, "Bus error"),
     (8, "Floating point exception"), (9, "Killed"), (10, "User defined signal 1"),
     (11, "Segmentation fault"), (12, "User defined signal 2"), (13, "Broken pipe"),
     (14, "Alarm clock"), (15, "Terminated"), (16, "Stack fault"), (17, "Child exited"),
     (18, "Continued"), (19, "Stopped (signal)"), (20, "Stopped"), (21, "Stopped (tty input)"),
     (22, "Stopped (tty output)"), (23, "Urgent I/O condition"), (24, "CPU time limit exceeded"),
     (25, "File size limit exceeded"), (26, "Virtual timer expired"),
     (27, "Profiling timer expired"), (28, "Window changed"), (29, "I/O possible"),
     (30, "Power failure"), (31, "Bad system call")]
  match table.lookup s with
  | some text => text
  | none =>
    if s < 34 then "Unknown signal " ++ toString s else "Real-time signal " ++ toString (s - 34)

/-- Tells of a process that a signal ended, unless that is nothing special. -/
def tellDeath (status : WaitStatus) : Sh Unit := do
  match status with
  | .signaled s =>
    unless s == Signal.int || s == Signal.pipe do
      let _ ← printTo 2 (signalText s ++ "\n").toList
  | _ => pure ()

def statusOf : WaitStatus → Nat
  | .exited code => code
  | .signaled s => 128 + s
  | .running => 0

/-! ## Sending -/

def killUsage {α : Type} : Sh α :=
  fail ("Usage: kill [-s sigspec | -signum | -sigspec] [pid | job]... or\n" ++
    "kill -l [exitstatus]")

/-- The process that an argument names; for a job `group` gives the number of its first one. -/
def target (group : Text → Sh Pid) (t : Text) : Sh Int := do
  match t with
  | '%' :: _ => return -((← group t) : Int)
  | '-' :: digits => return -((← number digits) : Int)
  | _ => return ((← number t) : Int)

/-- Sends a signal to each process named, and gives whether all went well. -/
def killEach (group : Text → Sh Pid) (s : Signal) : List Text → Bool → Sh Bool
  | [], good => return good
  | t :: rest, good => do
    let pid ← target group t
    match ← perform (.kill pid s) with
    | .ok () => killEach group s rest good
    | .error e => do
      complain (e.reason ++ "\n")
      killEach group s rest false

def listSignals (args : List Text) : Sh Nat := do
  match args with
  | [] => do
    outLine ['0']
    ((List.range signalCount).drop 1).forM fun s => outLine (signalName s).toList
    return 0
  | t :: _ => do
    let n ← number t
    let s := if 128 < n then n - 128 else n
    if 0 < s && s < signalCount then
      outLine (signalName s).toList
      return 0
    else fail ("invalid signal number or exit status: " ++ String.ofList t)

def namedSignal (t : Text) : Sh Signal := do
  match signal? 1 t with
  | some s => return s
  | none => fail ("invalid signal number or name: " ++ String.ofList t)

def kill (group : Text → Sh Pid) (args : List Text) : Sh Nat := do
  let send (s : Signal) (targets : List Text) : Sh Nat := do
    if targets.isEmpty then killUsage
    else return if ← killEach group s targets true then 0 else 1
  match args with
  | [] => killUsage
  | ('-' :: name) :: rest =>
    match signal? 1 name with
    | some s => send s rest
    | none => do
      let (options, rest) ← takeOptions "ls:" args
      if options.any (·.1 == 'l') then listSignals rest
      else
        let s ← match options.getLast? with
          | some (_, name) => namedSignal name
          | none => pure Signal.term
        send s rest
  | _ => send Signal.term args

/-! ## Traps -/

def setTrap (action : Option Text) (s : Signal) : Sh Unit := do
  modify fun st =>
    let others := st.traps.filter (·.1 != s)
    { st with traps := others ++ (action.map fun a => (s, a)).toList }
  if s != 0 && !(← get).deaf.contains s then
    perform (.onSignal s (match action with
      | none => .default
      | some [] => .ignore
      | some _ => .notice))

def setTraps (action : Option Text) : List Text → Sh Nat
  | [] => return 0
  | t :: rest => do
    match signal? 0 t with
    | some s => do
      setTrap action s
      setTraps action rest
    | none => do
      let _ ← printTo 2 ("trap: ".toList ++ t ++ ": bad trap\n".toList)
      return 1

def quoteFrom : Nat → Text → Text
  | 0, _ => []
  | fuel + 1, t =>
    let plain := t.takeWhile (· != '\'')
    let t := t.drop plain.length
    let marks := t.takeWhile (· == '\'')
    let t := t.drop marks.length
    '\'' :: plain ++ '\'' ::
      (if marks.isEmpty then []
       else '"' :: marks ++ '"' :: if t.isEmpty then [] else quoteFrom fuel t)

def quote (t : Text) : Text := quoteFrom (t.length + 1) t

def trap (args : List Text) : Sh Nat := do
  let (_, args) ← takeOptions "" args
  match args with
  | [] => do
    let sorted := (← get).traps.mergeSort fun a b => a.1 ≤ b.1
    sorted.forM fun e =>
      outLine ("trap -- ".toList ++ quote e.2 ++ ' ' :: (signalName e.1).toList)
    return 0
  | [_] => setTraps none args
  | ['-'] :: signals => setTraps none signals
  | action :: signals =>
    if action.all Char.isDigit && (signal? 0 action).isSome then setTraps none args
    else setTraps (some action) signals

end Builtin

end Judge.Shell
