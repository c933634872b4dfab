import Judge.ExitPattern
import Judge.Files.Operations
import Judge.Number.Span
import Judge.Conversation.Peer
import Judge.Vars

/-!
# Machine/Program — programs and the calls they make

A program is a value, or a call to the machine together with what is done with the reply.  Programs
are pure data: `Program.run` runs one under any handler, so a statement about a program is a
statement about every behaviour of the files, the clock and the other processes around it.
-/

namespace Judge

/-- The number of a process. -/
abbrev Pid := Nat

/-- The number of an open file in a process. -/
abbrev Descriptor := Nat

/-- Variables of a process, as bytes. -/
abbrev Environment := List (Bytes × Bytes)

/-- Variables as bytes. -/
def Vars.toEnvironment (v : Vars) : Environment := v.entries.map fun e => (utf8 e.1, utf8 e.2)

/-- The files that the name of a program may stand for, where it is looked up as the variables say.
An empty directory is the one that the process is in. -/
def Environment.candidates (env : Environment) (name : Bytes) : List Path :=
  if name.contains Path.slash then [⟨name⟩]
  else
    let text := (env.lookup (utf8 "PATH")).getD (utf8 "/bin:/usr/bin")
    (splitWhere (· == 0x3A) text).map fun dir =>
      if dir.isEmpty then ⟨name⟩ else ⟨dir ++ Path.slash :: name⟩

/-! ## Signals -/

/-- The number of a signal. -/
abbrev Signal := Nat

namespace Signal

/-- The signal to interrupt. -/
abbrev int : Signal := 2

/-- Kill, which cannot be refused. -/
abbrev kill : Signal := 9

/-- The signal of a broken pipe. -/
abbrev pipe : Signal := 13

/-- The signal to end. -/
abbrev term : Signal := 15

end Signal

/-- What a process does about a signal. -/
inductive Disposition where
  | default
  | ignore
  /-- It is noted, and the process asks for it. -/
  | notice
deriving DecidableEq, Repr

/-! ## Limits -/

/-- Something that a process may use only so much of. -/
inductive Resource where
  | time | fileSize | data | stack | core | memory | lockedMemory | processes | files | space
  | locks | priority
deriving DecidableEq, Repr

/-- How much a process may use, and how far that may be raised; without a number, without an end. -/
structure Limit where
  soft : Option Nat := none
  hard : Option Nat := none
deriving DecidableEq, Repr

namespace Limit

/-- Whether `a` is at most `b`, where no number is the greatest. -/
def le : Option Nat → Option Nat → Bool
  | _, none => true
  | some a, some b => decide (a ≤ b)
  | none, some _ => false

end Limit

/-! ## Starting a process -/

/-- Where a standard stream of a new process goes. -/
inductive Wiring where
  /-- Where the starter's own goes. -/
  | inherit
  | null
  | pipe
  /-- To an open file of the starter, who gives it away. -/
  | given (fd : Descriptor)
deriving DecidableEq, Repr

/-- A process to be started. -/
structure Launch where
  /-- The program; a name without a slash is looked up. -/
  program : Path
  /-- The arguments, the name first. -/
  argv : List Bytes
  env : Environment
  dir : Path
  stdin : Wiring := .inherit
  stdout : Wiring := .inherit
  stderr : Wiring := .inherit
  ownGroup : Bool := false
  maxProcesses : Option Nat := none
  /-- Whether a file that is no program is left to the shell. -/
  lenient : Bool := false
deriving DecidableEq, Repr

/-- A started process, with the starter's ends of its pipes. -/
structure Started where
  pid : Pid
  stdin : Option Descriptor := none
  stdout : Option Descriptor := none
  stderr : Option Descriptor := none
deriving DecidableEq, Repr

/-- How a file is opened. -/
inductive OpenMode where
  | read
  | write
  | append
  | update
deriving DecidableEq, Repr

/-- What is behind a descriptor. -/
inductive Footing where
  /-- A regular file, whose place is known unless it was removed. -/
  | file (place : Option Place) (offset size mode : Nat)
  | dir
  /-- A pipe, which is broken if nobody can read what is written to it. -/
  | pipe (broken : Bool)
  | device
deriving DecidableEq, Repr

/-! ## Calls -/

/-- A call to the machine. -/
inductive Call where
  | file (c : FileCall)
  /-- Opens a file, at the least free number. -/
  | openFile (p : Path) (mode : OpenMode)
  | close (fd : Descriptor)
  | look (fd : Descriptor)
  /-- Moves by so many bytes in a file, and gives the new place. -/
  | seek (fd : Descriptor) (delta : Int)
  /-- Cuts a file, or makes it longer with zeros. -/
  | resize (fd : Descriptor) (size : Nat)
  | duplicate (fd target : Descriptor)
  /-- A second number for `fd`, not below `least`; it does not outlive the present program. -/
  | duplicateFrom (fd least : Descriptor)
  /-- A pipe: the end to read from and the end to write to. -/
  | pipe
  | makeFifo (p : Path)
  /-- Waits for the other end of a pipe with a name to be opened, which was done `seen` times. -/
  | meet (pipe : Nat) (writing : Bool) (seen : Nat)
  | read (fd : Descriptor) (limit : Nat)
  | drain (fd : Descriptor) (done : Bytes)
  | readLine (fd : Descriptor) (done : Bytes)
  | write (fd : Descriptor) (data : Bytes)
  | start (l : Launch)
  /-- Goes on twice: here with the number of the new process, there without one. -/
  | fork
  | exec (program : Path) (argv : List Bytes) (env : Environment)
  | exit (code : Nat)
  | wait (pid : Pid)
  /-- Waits for one of several children to end; with `alert` also for a signal. -/
  | waitAny (pids : List Pid) (alert : Bool)
  | poll (pid : Pid)
  /-- Those of several children that are known to have ended. -/
  | news (pids : List Pid)
  | kill (pid : Int) (signal : Signal)
  | noticed
  | onSignal (signal : Signal) (what : Disposition)
  | ignored
  /-- The permissions that new files do not have; they may be set. -/
  | mask (new : Option Nat)
  | limit (r : Resource)
  | setLimit (r : Resource) (l : Limit)
  | ownPid
  | parentPid
  | leadGroup
  | sleep (span : Span)
  | sleepUntil (nanos : Nat)
  | clock
  /-- Uses the processor for so many microseconds. -/
  | spend (micros : Nat)
  /-- The processor time of the children that were waited for, in microseconds. -/
  | childTime
  /-- Asks to be the parent of descendants whose own parent has ended. -/
  | adopt
  | chdir (p : Path)
  | cwd
  | dial (p : Path)
  /-- Ends a connection: everything that was said on it. -/
  | hangUp (said : Bytes)
deriving DecidableEq, Repr

/-- What a call is answered with. -/
def Call.Reply : Call → Type
  | .file c => c.Reply
  | .openFile .. => Except OsError Descriptor
  | .close _ => Unit
  | .look _ => Except OsError Footing
  | .seek .. => Except OsError Nat
  | .resize .. | .duplicate .. => Except OsError Unit
  | .duplicateFrom .. => Except OsError Descriptor
  | .pipe => Descriptor × Descriptor
  | .makeFifo _ => Except OsError Unit
  | .meet .. => Unit
  | .read .. | .drain .. | .readLine .. => Except OsError Bytes
  | .write .. => Except OsError Nat
  | .start _ => Except OsError Started
  | .fork => Option Pid
  | .exec .. => OsError
  | .exit _ => Empty
  | .wait _ => Except OsError WaitStatus
  | .waitAny .. => Except OsError (Pid × WaitStatus)
  | .poll _ => Option WaitStatus
  | .news _ => List (Pid × WaitStatus)
  | .kill .. => Except OsError Unit
  | .noticed => List Signal
  | .onSignal .. => Unit
  | .ignored => List Signal
  | .mask _ => Nat
  | .limit _ => Limit
  | .setLimit .. => Except OsError Unit
  | .ownPid | .parentPid => Pid
  | .leadGroup | .sleep _ | .sleepUntil _ => Unit
  | .clock => Nat
  | .spend _ => Unit
  | .childTime => Except OsError Nat
  | .adopt | .chdir _ => Except OsError Unit
  | .cwd => Place
  | .dial _ => Except IoError (List PeerStep)
  | .hangUp _ => Unit

/-! ## Programs -/

/-- **A program**: a value, or a call and what follows each reply to it. -/
inductive Program (α : Type) where
  | done (a : α)
  | call (c : Call) (next : c.Reply → Program α)

namespace Program

variable {α β : Type}

/-- A program and what follows it. -/
def bind : Program α → (α → Program β) → Program β
  | .done a, f => f a
  | .call c next, f => .call c fun r => (next r).bind f

instance : Monad Program where
  pure := .done
  bind := bind

/-- A single call. -/
def perform (c : Call) : Program c.Reply := .call c .done

def onFiles (c : FileCall) : Program c.Reply := .call (.file c) .done

@[simp] theorem bind_done (p : Program α) : p.bind .done = p := by
  induction p with
  | done a => rfl
  | call c next ih => simp [bind, ih]

theorem bind_assoc {γ : Type} (p : Program α) (f : α → Program β) (g : β → Program γ) :
    (p.bind f).bind g = p.bind fun a => (f a).bind g := by
  induction p with
  | done a => rfl
  | call c next ih => simp [bind, ih]

instance : LawfulMonad Program := LawfulMonad.mk' Program bind_done (fun _ _ => rfl) bind_assoc

/-! ## Running under a handler -/

/-- A handler: how a state answers calls.  A call may get no answer, as the one that ends the
process. -/
abbrev Handler (σ : Type) := (c : Call) → σ → Option (c.Reply × σ)

/-- **Runs a program** under a handler, as long as its calls are answered. -/
def run {σ : Type} (h : Handler σ) : Program α → σ → Option (α × σ)
  | .done a, s => some (a, s)
  | .call c next, s => (h c s).bind fun r => (next r.1).run h r.2

@[simp] theorem run_done {σ : Type} (h : Handler σ) (a : α) (s : σ) :
    (Program.done a).run h s = some (a, s) := rfl

@[simp] theorem run_call {σ : Type} (h : Handler σ) (c : Call) (next : c.Reply → Program α)
    (s : σ) :
    (Program.call c next).run h s = (h c s).bind fun r => (next r.1).run h r.2 := rfl

theorem run_bind {σ : Type} (h : Handler σ) (p : Program α) (f : α → Program β) (s : σ) :
    (p.bind f).run h s = (p.run h s).bind fun r => (f r.1).run h r.2 := by
  induction p generalizing s with
  | done a => rfl
  | call c next ih => simp [bind, ih, Option.bind_assoc]

/-! ## Small programs -/

def start (l : Launch) : Program (Except OsError Started) := perform (.start l)

def wait (pid : Pid) : Program (Except OsError WaitStatus) := perform (.wait pid)

def poll (pid : Pid) : Program (Option WaitStatus) := perform (.poll pid)

def kill (pid : Int) (s : Signal) : Program (Except OsError Unit) := perform (.kill pid s)

def sleep (span : Span) : Program Unit := perform (.sleep span)

def ownPid : Program Pid := perform .ownPid

/-- The processor time of the children that were waited for, in microseconds. -/
def childTime : Program (Except OsError Nat) := perform .childTime

def openFile (p : Path) (mode : OpenMode) : Program (Except OsError Descriptor) :=
  perform (.openFile p mode)

def close (fd : Descriptor) : Program Unit := perform (.close fd)

def read (fd : Descriptor) (limit : Nat) : Program (Except OsError Bytes) :=
  perform (.read fd limit)

/-- Reads everything. -/
def drain (fd : Descriptor) : Program (Except OsError Bytes) := perform (.drain fd [])

def write (fd : Descriptor) (data : Bytes) : Program (Except OsError Nat) :=
  perform (.write fd data)

/-- Writes `data` in at most `fuel` pieces. -/
def writePieces (fd : Descriptor) : Nat → Bytes → Program (Except OsError Unit)
  | 0, _ => return .ok ()
  | fuel + 1, data =>
    if data.isEmpty then return .ok ()
    else do
      match ← write fd data with
      | .error e => return .error e
      | .ok n => writePieces fd fuel (data.drop n)

/-- Writes all of `data`. -/
def writeAll (fd : Descriptor) (data : Bytes) : Program (Except OsError Unit) :=
  writePieces fd (data.length + 1) data

/-- Writes to the standard output, whether it can or not. -/
def print (data : Bytes) : Program Unit := do
  let _ ← writeAll 1 data

def printLine (text : String) : Program Unit := print (utf8 (text ++ "\n"))

end Program

end Judge
