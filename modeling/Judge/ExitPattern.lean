import Judge.Number.Integer
import Judge.Text.Quoted

/-!
# ExitPattern — the exit codes a test expects

A test expects one exit code, or any except zero (`!0`).  A process that a signal ended has the
negated number of the signal as its code.
-/

namespace Judge

/-- The exit codes that a test expects. -/
inductive ExitPattern where
  | exactly (code : Int)
  | nonzero
deriving DecidableEq, Repr

namespace ExitPattern

def accepts : ExitPattern → Int → Bool
  | .exactly expected, code => expected == code
  | .nonzero, code => code != 0

def text : ExitPattern → String
  | .exactly code => toString code
  | .nonzero => "!0"

/-- Reads a pattern; on failure the trimmed text is what cannot be read. -/
def read (raw : List Char) : Except (List Char) ExitPattern :=
  let cs := trim raw
  if cs = ['!', '0'] then .ok .nonzero
  else match Integer.readSigned32 cs with
    | .ok code => .ok (.exactly code)
    | .error _ => .error cs

/-- The message about a pattern that cannot be read. -/
def unsupported (raw : List Char) : String :=
  "Unsupported exit_code pattern " ++ String.ofList (quoteChars raw)

end ExitPattern

/-- How a process ended, or that it did not end. -/
inductive WaitStatus where
  | exited (code : Nat)
  | signaled (signal : Nat)
  | running
deriving DecidableEq, Repr

namespace WaitStatus

/-- Reads a status word: the low seven bits are a signal, zero for none, and all of them set for a
process that did not end; the next byte up is the exit code. -/
def ofWord (word : BitVec 32) : WaitStatus :=
  let low := word.toNat % 128
  if low = 0 then .exited (word.toNat / 256 % 256)
  else if low = 127 then .running
  else .signaled low

def success : WaitStatus → Bool
  | .exited code => code == 0
  | _ => false

def code : WaitStatus → Int
  | .exited code => code
  | .signaled signal => -(signal : Int)
  | .running => -1

def signalNames : List (Nat × String) :=
  [(1, "SIGHUP"), (2, "SIGINT"), (3, "SIGQUIT"), (4, "SIGILL"), (5, "SIGTRAP"), (6, "SIGABRT"),
   (7, "SIGBUS"), (8, "SIGFPE"), (9, "SIGKILL"), (10, "SIGUSR1"), (11, "SIGSEGV"), (12, "SIGUSR2"),
   (13, "SIGPIPE"), (14, "SIGALRM"), (15, "SIGTERM"), (16, "SIGSTKFLT"), (17, "SIGCHLD"),
   (18, "SIGCONT"), (19, "SIGSTOP"), (20, "SIGTSTP"), (21, "SIGTTIN"), (22, "SIGTTOU"),
   (23, "SIGURG"), (24, "SIGXCPU"), (25, "SIGXFSZ"), (26, "SIGVTALRM"), (27, "SIGPROF"),
   (28, "SIGWINCH"), (29, "SIGIO"), (30, "SIGPWR"), (31, "SIGSYS")]

def text : WaitStatus → String
  | .exited code => "exit status: " ++ toString code
  | .signaled signal =>
    "signal: " ++ toString signal ++
      ((signalNames.lookup signal).map fun name => " (" ++ name ++ ")").getD ""
  | .running => "continued (WIFCONTINUED)"

end WaitStatus

end Judge
