import Judge.CommandLine.Arguments
import Judge.Conversation.Live
import Judge.Machine.Kernel

/-!
# CommandLine/Interactor — the program that holds a conversation

It is told a script, a place for the log, the reference answer, the number of the candidate's
process and the metadata of the test.  It holds the conversation of the script, then ends the
candidate, and at last writes the log with everything that the candidate printed elsewhere.
-/

namespace Judge.Interactor

/-- What the interactor is told. -/
structure Request where
  script : Path
  output : Path
  /-- The process to end after the conversation. -/
  pid : Option Int := none
  info : Option Path := none
deriving DecidableEq, Repr

/-- The arguments: script, output, reference, process and metadata, of which the last may be
missing. -/
def arguments : Interface :=
  let isPath (s : String) : Bool := s != ""
  { positionals := [isPath, isPath, isPath, fun _ => true, fun _ => true], required := 4 }

/-- The number of a process, if one is given. -/
def readPid (raw : String) : Except Refusal (Option Int) :=
  match trim raw.toList with
  | [] => .ok none
  | digits =>
    match Integer.readSigned32 digits with
    | .ok pid => .ok (some pid)
    | .error _ => .error .usage

/-- **Reads a command line.** -/
def Request.read (words : List String) : Except Refusal Request := do
  let a ← arguments.read words
  match a.positionals with
  | script :: output :: _ :: pid :: rest =>
    let pid ← readPid pid
    let info := rest.head?.filter (· != "")
    return { script := .ofString script, output := .ofString output, pid
             info := info.map .ofString }
  | _ => throw .usage

/-- Reads a file that has to hold text. -/
def loadText (p : Path) : Program (Except InteractError (List Char)) := do
  let failed (e : IoError) : InteractError :=
    .crash ("Failed to read " ++ p.display ++ ": " ++ e.text)
  match ← Program.onFiles (.read p) with
  | .error e => return .error (failed (.os e))
  | .ok data =>
    match Utf8.decode? data with
    | some text => return .ok text
    | none => return .error (failed .notText)

/-- Where the conversation takes place, by the metadata record. -/
def loadEndpoints (info : Option Path) : Program (Except InteractError Endpoints) := do
  match info with
  | none => return .error (.crash "No metadata record given")
  | some p =>
    match ← loadText p with
    | .error e => return .error e
    | .ok text => return Endpoints.ofEntries (Endpoints.entries text)

/-- The time that the candidate has before the first connection. -/
def startupDelay : Span := Span.ofMillis 100

/-- What became of a conversation: an end and the log, or nothing when the script asks for a pause
that has no end. -/
abbrev Held := Option (Except InteractError Unit × Bytes)

/-- **Holds the conversation.** -/
def hold (r : Request) : Program Held := do
  match ← loadEndpoints r.info with
  | .error e => return some (.error e, [])
  | .ok endpoints =>
    match ← loadText r.script with
    | .error e => return some (.error e, [])
    | .ok text =>
      match Script.read text with
      | .error .endlessSleep => return none
      | .error e => return some (.error (.crash e.message), [])
      | .ok script => do
        Program.sleep startupDelay
        let (result, v) ← Conversation.converse script endpoints
        return some (result, v.logText)

/-- What a failure adds to the log: its text, unless the interactor itself is at fault. -/
def epilogue : Except InteractError Unit → Bytes
  | .ok () | .error (.crash _) => []
  | .error e => utf8 (e.text ++ "\n")

/-- The exit code that tells how a conversation ended. -/
def exitCode : Except InteractError Unit → Nat
  | .ok () => 0
  | .error e => e.exitCode

/-- The exit code of a program that breaks off. -/
def brokenOff : Nat := 101

/-- The exit code of a wrong command line or a log that cannot be written. -/
def crashed : Nat := (InteractError.crash "").exitCode

/-- Holds the conversation and tells how it ended. -/
def carryOut (r : Request) : Program Nat := do
  Program.perform (.onSignal Signal.pipe .ignore)
  match ← hold r with
  | none => return brokenOff
  | some (result, log) => do
    match r.pid with
    | some pid =>
      let _ ← Program.kill pid Signal.term
    | none => pure ()
    let rest ← Program.drain 0
    let log := log ++ epilogue result ++ rest.toOption.getD []
    match ← Program.onFiles (.write r.output log) with
    | .ok () => return exitCode result
    | .error _ => return crashed

/-- How the program is called. -/
def usage : String :=
  "Usage: judgebox-interactor <SCRIPT> <OUTPUT> <REFERENCE> <PID> [INFO]"

/-- **The interactor.** -/
def program (boot : Boot) : Program Nat := do
  match Request.read (boot.argv.tail.map Utf8.text) with
  | .error .version => do
    Program.printLine "judgebox-interactor 0.1.0"
    return 0
  | .error .help => do
    Program.printLine usage
    return 0
  | .error .usage => return crashed
  | .ok r => carryOut r

end Judge.Interactor
