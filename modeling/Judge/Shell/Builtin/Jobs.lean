import Judge.Shell.Builtin.Signals

/-!
# Shell/Builtin/Jobs — processes of the shell

Every process that a shell starts belongs to a job with a number.  The shell waits for the jobs in
front of it, and lets those in the background be named, listed and waited for.
-/

namespace Judge.Shell

namespace Builtin

def noteEnd (pid : Pid) (status : WaitStatus) : Sh Unit :=
  modify fun s =>
    let note (j : Job) : Job :=
      if j.pids.contains pid then { j with statuses := (pid, status) :: j.statuses } else j
    { s with jobs := s.jobs.map note }

def running (s : State) : List Pid :=
  s.jobs.flatMap fun j => j.pids.filter fun pid => (j.statuses.lookup pid).isNone

def lookAround : Sh Unit := do
  let pids := running (← get)
  unless pids.isEmpty do
    let ended : List (Pid × WaitStatus) ← perform (.news pids)
    ended.forM fun e => noteEnd e.1 e.2

/-- A number for a new job.  That of a job which has ended and was waited for is given again. -/
def takeNumber : Sh Nat := do
  let s ← get
  let free (n : Nat) : Bool := match s.jobs.find? (·.number == n) with
    | some j => j.waited && j.isDone
    | none => true
  let n := ((List.range (s.jobs.length + 1)).map (· + 1)).find? free |>.getD (s.jobs.length + 1)
  set { s with jobs := s.jobs.filter (·.number != n) }
  return n

def addJob (pids : List Pid) : Sh Unit := do
  let n ← takeNumber
  modify fun s => { s with
    lastJob := pids.getLast?, jobs := { number := n, pids } :: s.jobs }

/-- Waits for processes in front of the shell, and gives the status of `last`.  Those in the
background that end meanwhile are noted. -/
def awaitAll (last : Option Pid) : Nat → List Pid → Nat → Sh Nat
  | 0, _, status => return status
  | fuel + 1, front, status => do
    if front.isEmpty then return status
    else
      let pids := (front ++ running (← get)).mergeSort
      match ← perform (.waitAny pids false) with
      | .error _ => return 127
      | .ok (pid, ended) =>
        if front.contains pid then do
          tellDeath ended
          awaitAll last fuel (front.filter (· != pid))
            (if some pid == last then statusOf ended else status)
        else do
          noteEnd pid ended
          awaitAll last fuel front status

/-- **Waits for a job in front of the shell**, and gives its status. -/
def await (pids : List Pid) : Sh Nat := do
  let others := (running (← get)).length
  let status ← awaitAll pids.getLast? (pids.length + others + 1) pids 0
  lookAround
  return status

/-! ## Naming -/

def jobFor (t : Option Text) (controlled : Bool := false) : Sh Job := do
  let jobs := (← get).jobs
  let word := String.ofList (t.getD "(null)".toList)
  let found : Except String Job := match t.getD ['%'] with
    | ['%'] | ['%', '+'] | ['%', '%'] => (jobs.head?).elim (.error "No current job") .ok
    | ['%', '-'] => (jobs[1]?).elim (.error "No previous job") .ok
    | '%' :: digits =>
      let number := if digits.all Char.isDigit then some (Scan.readDigits 10 digits) else none
      (jobs.find? fun j => some j.number == number).elim (.error ("No such job: " ++ word)) .ok
    | _ => .error ("No such job: " ++ word)
  match found with
  | .error reason => fail reason
  | .ok j =>
    if controlled then fail ("job " ++ word ++ " not created under job control") else return j

def jobGroup (t : Text) : Sh Pid := do return (← jobFor (some t)).pids.headD 0

def resume (args : List Text) : Sh Nat := do
  let (_, args) ← takeOptions "" args
  let _ ← jobFor args.head? true
  return 0

/-! ## Listing -/

def endText : WaitStatus → String
  | .exited 0 => "Done"
  | .exited code => "Done(" ++ toString code ++ ")"
  | .signaled s => signalText s
  | .running => "Running"

def jobColumn : Nat := 33

def padJob (t : String) : Text :=
  t.toList ++ List.replicate (max 1 (jobColumn - t.length)) ' '

/-- The lines about a job, which is the last one or the one before. -/
def jobText (j : Job) (sign : Char) (long : Bool) : Text :=
  let front := "[" ++ toString j.number ++ "] " ++ String.singleton sign ++ " "
  let state := endText (if j.isDone then (j.status?).getD .running else .running)
  let first (pid : Pid) : String := front ++ (if long then toString pid ++ " " else "") ++ state
  let other (pid : Pid) : Text :=
    if long then
      let line := String.ofList (List.replicate front.length ' ') ++ toString pid ++ " "
      " |\n".toList ++ padJob line
    else " | ".toList
  match j.pids with
  | [] => []
  | pid :: rest => padJob (first pid) ++ rest.flatMap other ++ ['\n']

def showJob (pidsOnly long : Bool) (j : Job) : Sh Unit := do
  if pidsOnly then outLine (toString (j.pids.headD 0)).toList
  else
    let jobs := (← get).jobs
    let sign := if (jobs.head?.map (·.number)) == some j.number then '+'
      else if (jobs[1]?.map (·.number)) == some j.number then '-' else ' '
    out (jobText j sign long)
    if j.isDone then
      modify fun s => { s with jobs := s.jobs.filter (·.number != j.number) }

def jobs (args : List Text) : Sh Nat := do
  let (options, args) ← takeOptions "lp" args
  let pidsOnly := options.any (·.1 == 'p')
  let long := options.any (·.1 == 'l')
  if args.isEmpty then
    lookAround
    (← get).jobs.forM (showJob pidsOnly long)
  else args.forM fun t => do showJob pidsOnly long (← jobFor (some t))
  return 0

/-! ## Waiting -/

/-- Waits for processes in the background, unless a signal comes, and tells whether they have
ended.  Others that end meanwhile are noted. -/
def waitProcesses (aloud : Bool) : Nat → List Pid → Sh Bool
  | 0, _ => return true
  | fuel + 1, wanted => do
    if wanted.isEmpty then return true
    else
      match ← perform (.waitAny (running (← get)).mergeSort true) with
      | .ok (pid, status) => do
        noteEnd pid status
        if aloud && wanted.contains pid then tellDeath status
        waitProcesses aloud fuel (wanted.filter (· != pid))
      | .error e =>
        if e = .interrupted then
          let signals : List Signal ← perform .noticed
          modify fun s => { s with pending := s.pending ++ signals }
          return false
        else
          wanted.forM fun pid => noteEnd pid (.exited 127)
          return true

def waitFor (aloud : Bool) (wanted : List Pid) : Sh Bool := do
  waitProcesses aloud ((running (← get)).length + 1) wanted

def markWaited (which : Job → Bool) : Sh Unit :=
  modify fun s =>
    let mark (j : Job) : Job := if which j then { j with waited := true } else j
    { s with jobs := s.jobs.map mark }

def interruptedStatus : Sh Nat := do return 128 + ((← get).pending.getLast?).getD 0

def waitedJob? (t : Text) : Sh (Option Job) := do
  match t with
  | '%' :: _ => return some (← jobFor (some t))
  | _ => do
    let pid ← number t
    return (← get).jobs.find? fun j => j.pid? == some pid

/-- Waits for jobs that are named; `status` is that of the one before. -/
def waitEach : List Text → Nat → Sh Nat
  | [], status => return status
  | t :: rest, status => do
    match ← waitedJob? t with
    | none => waitEach rest status
    | some j => do
      let left := j.pids.filter fun pid => (j.statuses.lookup pid).isNone
      if ← waitFor true left then
        markWaited (·.number == j.number)
        let status := ((← get).jobs.find? (·.number == j.number)).bind Job.status?
        waitEach rest ((status.map statusOf).getD 0)
      else interruptedStatus

def wait (args : List Text) : Sh Nat := do
  let (_, args) ← takeOptions "" args
  if args.isEmpty then
    if ← waitFor false (running (← get)) then
      markWaited fun _ => true
      return 0
    else interruptedStatus
  else waitEach args 127

end Builtin

end Judge.Shell
