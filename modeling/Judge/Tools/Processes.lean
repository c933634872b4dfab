import Judge.Shell.Session
import Judge.Tools.Option

/-!
# Tools/Processes — tools that wait and that start programs
-/

namespace Judge.Tools

open Program (kill ownPid perform poll writeAll)

open Shell (Text ofBytes toBytes)

/-! ## Time -/

/-- The span that a text such as `0.05` or `2m` writes; one without an end is very long. -/
def span? (t : Text) : Option Span :=
  let r := Scan.real t
  let unit := match r.rest with
    | [] | ['s'] => some 1
    | ['m'] => some 60
    | ['h'] => some 3600
    | ['d'] => some 86400
    | _ => none
  match r.found, r.value, unit with
  | true, .finite negative m e, some unit =>
    if negative && m ≠ 0 then none
    else
      let exact := (Span.ofDyadicSeconds (m * unit) e).nanos
      some ⟨min exact (10 ^ 9 * 10 ^ 9)⟩
  | true, .infinite false, some _ => some ⟨10 ^ 9 * 10 ^ 9⟩
  | _, _, _ => none

def sleep : Tool := withOptions "" fun r c => do
  if c.rest.isEmpty then r.lacking
  else
    let wrong := c.rest.filter fun t => (span? t).isNone
    match wrong.reverse with
    | [] => do
      Program.sleep ⟨((c.rest.filterMap span?).map (·.nanos)).sum⟩
      return 0
    | last :: others => do
      others.reverse.forM fun t => r.complain ("invalid time interval " ++ quoted t)
      r.misused ("invalid time interval " ++ quoted last)

/-! ## Becoming another program -/

def executeFirst (argv : List Bytes) (env : Environment) : OsError → List Path → Program OsError
  | error, [] => return error
  | error, p :: rest => do
    let e : OsError ← perform (.exec p argv env)
    if e = .denied then executeFirst argv env e rest
    else if e = .noEntry || e = .notDirectory then
      executeFirst argv env (if error = .denied then error else e) rest
    else return e

/-- Becomes the program that the arguments name; `tell` says what is told if that fails. -/
def become (r : Request) (args : List Text) (env : Environment) (tell : String := "") :
    Program Nat :=
  match args with
  | [] => return 0
  | name :: _ => do
    let e ← executeFirst (args.map toBytes) env .noEntry
      (if name.isEmpty then [] else Environment.candidates env (toBytes name))
    r.fail (tell ++ quoted name ++ ": " ++ e.reason) (if e = .noEntry then 127 else 126)

def assignAll : List Text → Environment → List Text × Environment
  | [], env => ([], env)
  | t :: rest, env =>
    let name := t.takeWhile (· != '=')
    match t.drop name.length with
    | _ :: value => assignAll rest (Assoc.put env (toBytes name) (toBytes value))
    | [] => (t :: rest, env)

def environmentText (ending : UInt8) (env : Environment) : Bytes :=
  env.flatMap fun e => e.1 ++ 0x3D :: e.2 ++ [ending]

def env : Tool := fun r =>
  let args := match r.args with
    | ('-' :: 'S' :: text) :: rest =>
      let words := if text.isEmpty then rest.headD [] else text
      (runsWhere (fun c => c == ' ' || c == '\t') words) ++
        if text.isEmpty then rest.drop 1 else rest
    | args => args
  withOptions ("i,ignore-environment 0,null u,unset= C,chdir= S,split-string= ,block-signal? " ++
      ",default-signal? ,ignore-signal? ,list-signal-handling v,debug") (fun r c => do
    let bare := c.rest.head? == some ['-']
    let rest := if bare then c.rest.drop 1 else c.rest
    let start : Environment := if c.has "ignore-environment" || bare then [] else r.env
    match (c.all "unset").find? fun n => n.isEmpty || n.contains '=' with
    | some n => r.refuse "cannot unset " n .invalid 125
    | none => do
      let start := start.filter fun e => !(c.all "unset").contains (ofBytes e.1)
      let (command, env) := assignAll rest start
      if command.isEmpty then
        if ← r.print (environmentText (if c.has "null" then 0 else 0x0A) env) then return 0
        else return 125
      else if c.has "null" then
        r.misused "cannot specify --null (-0) with command" 125
      else
        let moved ← match c.last? "chdir" with
          | some d => perform (.chdir (path d))
          | none => pure (.ok ())
        match moved with
        | .error e => r.refuse "cannot change directory to " (c.value "chdir") e 125
        | .ok () => become r command env) true 125 { r with args }

def printenv : Tool := withOptions "0,null" (fun r c => do
  let ending : UInt8 := if c.has "null" then 0 else 0x0A
  if c.rest.isEmpty then
    if ← r.print (environmentText ending r.env) then return 0 else return 2
  else
    let found := c.rest.map fun a => if a.contains '=' then none else r.env.lookup (toBytes a)
    let text := found.flatMap fun v => match v with
      | some v => v ++ [ending]
      | none => []
    if ← r.print text then return (if found.any Option.isNone then 1 else 0) else return 2) true 2

/-! ## Limits -/

def shellCode : WaitStatus → Nat
  | .exited code => code
  | .signaled s => 128 + s
  | .running => 1

/-- How a program is watched. -/
structure Watch where
  child : Pid
  signal : Signal
  killAfter : Option Span
  foreground : Bool
  verbose : Option Text

namespace Watch

def send (w : Watch) (r : Request) (s : Signal) : Program Unit := do
  match w.verbose with
  | some command =>
    r.complain ("sending signal " ++ Shell.Builtin.signalName s ++ " to command " ++
      quoted command)
  | none => pure ()
  let _ ← kill w.child s
  unless w.foreground do
    unless s == Signal.kill do perform (.onSignal s .ignore)
    let _ ← kill 0 s
  unless s == Signal.kill do
    let _ ← kill w.child 18

/-- Waits for the program to end; when it is late it is told so, and later killed. -/
def await (w : Watch) (r : Request) : Nat → Option Nat → Bool → Program (WaitStatus × Bool)
  | 0, _, late => return (.running, late)
  | fuel + 1, deadline, late => do
    match ← poll w.child with
    | some status => return (status, late)
    | none => do
      let caught : List Signal ← perform .noticed
      let now : Nat ← perform .clock
      let isLate := match deadline with
        | some t => decide (t ≤ now)
        | none => false
      match caught, isLate with
      | s :: _, _ => do
        w.send r s
        await w r fuel (w.killAfter.map fun k => now + k.nanos) late
      | [], true =>
        if late then do
          w.send r Signal.kill
          await w r fuel none true
        else do
          w.send r w.signal
          await w r fuel (w.killAfter.map fun k => now + k.nanos) true
      | [], false => do
        Program.sleep (Span.ofMillis 2)
        await w r fuel deadline late

end Watch

def timeout : Tool := withOptions
    "k,kill-after= s,signal= v,verbose ,foreground ,preserve-status" (fun r c => do
  let wrongUse : Program Nat := do
    tell r.hint
    return 125
  let killAfter := (c.last? "kill-after").map span?
  let signal := match c.last? "signal" with
    | some t => Shell.Builtin.signal? 1 t
    | none => some Signal.term
  match killAfter, signal, c.rest with
  | some none, _, _ =>
    r.misused ("invalid time interval " ++ quoted (c.value "kill-after")) 125
  | _, none, _ => r.misused (quoted (c.value "signal") ++ ": invalid signal") 125
  | killAfter, some signal, limit :: command :: args =>
    match span? limit with
    | none => r.misused ("invalid time interval " ++ quoted limit) 125
    | some limit => do
      let foreground := c.has "foreground"
      unless foreground do perform .leadGroup
      let child : Option Pid ← perform .fork
      match child with
      | none => become r (command :: args) r.env "failed to run command "
      | some pid => do
        [1, 2, 3, 15].forM fun s => perform (.onSignal s .notice)
        let now : Nat ← perform .clock
        let w : Watch :=
          { child := pid, signal, killAfter := killAfter.join, foreground
            verbose := if c.has "verbose" then some command else none }
        let deadline := if limit.nanos = 0 then none else some (now + limit.nanos)
        let (status, late) ← w.await r patience deadline false
        match status, late with
        | .signaled s, false => do
          perform (.onSignal s .default)
          let own ← ownPid
          let _ ← kill own s
          return 128 + s
        | status, true => return if c.has "preserve-status" then shellCode status else 124
        | status, false => return shellCode status
  | _, _, _ => wrongUse) true 125

def nohup : Tool := withOptions "" (fun r c => do
  if c.rest.isEmpty then r.lacking 125
  else
    perform (.onSignal 1 .ignore)
    become r c.rest r.env "failed to run command ") true 125

def nice : Tool := fun r =>
  let args := r.args.map fun t => match t with
    | '-' :: ch :: more =>
      if ch.isDigit || (ch == '-' && startsInDigit more) then
        '-' :: 'n' :: ch :: more
      else t
    | _ => t
  let front := r.args.takeWhile fun t => t.head? == some '-'
  withOptions "n,adjustment=" (fun r c => do
    let wrong := (c.last? "adjustment").any fun t => (int? t).isNone
    if wrong then r.fail ("invalid adjustment " ++ quoted (c.value "adjustment")) 125
    else if c.rest.isEmpty then
      if c.has "adjustment" then r.misused "a command must be given with an adjustment" 125
      else r.finish "0\n".toList
    else become r c.rest r.env) true 125
    { r with args := args.take front.length ++ r.args.drop front.length }

def stdbuf : Tool := withOptions "i,input= o,output= e,error=" (fun r c => do
  if c.rest.isEmpty then r.lacking 125
  else if c.given.isEmpty then r.misused "you must specify a buffering mode option" 125
  else become r c.rest r.env "failed to run command ") true 125

/-! ## Commands of the shell -/

/-- `echo`, which resolves backslashes only when it is told to. -/
def echo : Tool := fun r => do
  let isOption (t : Text) : Bool :=
    match t with
    | '-' :: c :: cs => (c :: cs).all fun c => "neE".toList.contains c
    | _ => false
  let letters := (r.args.takeWhile isOption).flatten
  let text := [' '].intercalate (r.args.dropWhile isOption)
  let resolved := (letters.filter fun c => c == 'e' || c == 'E').getLast? == some 'e'
  let (text, goesOn) := if resolved then Shell.Format.unescape (text.length + 1) text []
    else (text, true)
  r.finish (if letters.contains 'n' || !goesOn then text else text ++ ['\n'])

def builtin (name : String) : Tool := fun r => do
  let parent ← perform .parentPid
  let s : Shell.State := { Shell.State.ofEnvironment r.env parent with name := r.name.toList }
  let work : Shell.Sh Unit := do
    let status ← Shell.Builtin.run name r.args
    let _ ← Shell.flushOutput
    Shell.setStatus status
  let (_, s) ← work.run.run s
  return s.status

end Judge.Tools
