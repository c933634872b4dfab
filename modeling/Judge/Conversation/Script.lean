import Judge.Conversation.Latch
import Judge.Number.Decimal
import Judge.Number.Span
import Judge.Text.Quoted

/-!
# Conversation/Script — what is said, and when

A script has one command to a line: the name of a connection, a verb, and the rest of the line with
its line feed as the argument.  The first line of a connection says how it is made.  A line of `=`
is a barrier: everyone known by then arrives at it, and who is declared later waits for it first.
-/

namespace Judge

/-- How a connection is made. -/
inductive Transport where
  | tcp
  | unix
deriving DecidableEq, Repr

/-- The word of a script for it. -/
def Transport.text : Transport → String
  | .tcp => "tcp"
  | .unix => "unix"

/-- A command of a connection; latches are named by their position in the script. -/
inductive Command where
  | sleep (span : Span)
  /-- Wait for a barrier without taking part in it. -/
  | wait (latch : Nat)
  | arrive (latch : Nat)
  | connect
  | send (data : Bytes)
  | recv (expected : Bytes)
  | stopWrite
  | stopRead
  /-- Say nothing any more and expect that the peer does neither. -/
  | done
deriving DecidableEq, Repr

/-- A command as the log announces it. -/
def Command.text : Command → String
  | .sleep span => "sleep, arg: " ++ span.seconds.shown
  | .wait latch => "wait, arg: Latch " ++ toString latch
  | .arrive latch => "arrive, arg: Latch " ++ toString latch
  | .connect => "conn"
  | .send data => "send, arg: " ++ shownBytes data
  | .recv expected => "recv, arg: " ++ shownBytes expected
  | .stopWrite => "stop"
  | .stopRead => "rstop"
  | .done => "done"

/-- The part of a script that belongs to one connection. -/
structure ConnectionScript where
  name : String
  transport : Transport
  commands : List Command
deriving DecidableEq, Repr

/-- A script: connections in the order of their declaration, and for each barrier the latch that
everyone known by then arrives at. -/
structure Script where
  connections : List ConnectionScript := []
  latches : List Latch := []
deriving DecidableEq, Repr, Inhabited

namespace Script

/-- What is wrong with a script. -/
inductive Error where
  | emptyCommand (line : List Char)
  | noSocketType (name : List Char)
  | unknownSocketType (name kind : List Char)
  | missingArgument (name verb : List Char)
  | badSleep (name raw : List Char)
  | unknownMethod (name verb : List Char)
  | endlessSleep
deriving DecidableEq, Repr

/-- The wording of what is wrong. -/
def Error.message : Error → String
  | .emptyCommand line => "empty cmd: " ++ String.ofList (quoteChars line)
  | .noSocketType name => String.ofList name ++ ": socket type is not specified"
  | .unknownSocketType name kind =>
    String.ofList name ++ ": unknown socket type " ++ String.ofList (quoteChars kind)
  | .missingArgument name verb =>
    String.ofList name ++ ": " ++ String.ofList verb ++ " requires an argument"
  | .badSleep name raw =>
    String.ofList name ++ ": bad sleep duration " ++ String.ofList (quoteChars raw)
  | .unknownMethod name verb =>
    String.ofList name ++ ": unexpected method " ++ String.ofList verb
  | .endlessSleep => "can not convert float seconds to Duration: value is either too big or NaN"

/-! ## Lines -/

/-- The lines of a text, each with the line feed that ends it. -/
def lines (text : List Char) : List (List Char) :=
  let pieces := splitWhere (· == '\n') text
  pieces.dropLast.map (· ++ ['\n']) ++ (pieces.getLast?.filter fun p => !p.isEmpty).toList

/-- Cuts a line at its first two spaces. -/
def fields (line : List Char) : List Char × Option (List Char) × Option (List Char) :=
  match cutAt [' '] line with
  | none => (line, none, none)
  | some (name, rest) =>
    match cutAt [' '] rest with
    | none => (name, some rest, none)
    | some (verb, arg) => (name, some verb, some arg)

/-- A text without the line feeds at its end. -/
def chop (cs : List Char) : List Char := trimRightWhere (· == '\n') cs

/-- What a line is. -/
inductive Line where
  | nothing
  | barrier
  | command (name verb : List Char) (arg : Option (List Char))
  | incomplete (line : List Char)
deriving DecidableEq, Repr

/-- What a line is, its line feed included. -/
def Line.read (line : List Char) : Line :=
  if (trim line).isEmpty || line.head? == some '#' then .nothing
  else if line.head? == some '=' && (trimRightWhere isBlank line).all (· == '=') then .barrier
  else match fields line with
    | (name, some verb, arg) => .command name (chop verb) arg
    | (_, none, _) => .incomplete line

/-! ## Commands -/

/-- The argument that a verb has to have. -/
def required (name verb : List Char) (arg : Option (List Char)) : Except Error (List Char) :=
  match arg with
  | some arg => .ok arg
  | none => .error (.missingArgument name verb)

/-- A pause, in seconds. -/
def readSleep (name arg : List Char) : Except Error Command :=
  let raw := trim arg
  match readDouble raw with
  | .error _ => .error (.badSleep name raw)
  | .ok seconds =>
    if seconds.isFinite && Binary64.zero.le seconds then
      match Span.ofSeconds? seconds with
      | some span => .ok (.sleep span)
      | none => .error .endlessSleep
    else .error (.badSleep name raw)

/-- The command of a verb with its argument. -/
def readCommand (name verb : List Char) (arg : Option (List Char)) : Except Error Command :=
  if verb = "sleep".toList then (required name verb arg).bind (readSleep name)
  else if verb = "conn".toList then .ok .connect
  else if verb = "send".toList then
    (required name verb arg).map fun data => .send (Utf8.encode data)
  else if verb = "recv".toList then
    (required name verb arg).map fun data => .recv (Utf8.encode data)
  else if verb = "stop".toList then .ok .stopWrite
  else if verb = "rstop".toList then .ok .stopRead
  else .error (.unknownMethod name verb)

/-- How a connection is made, from the first line about it. -/
def readTransport (name verb : List Char) (arg : Option (List Char)) : Except Error Transport :=
  if verb ≠ "type".toList then .error (.noSocketType name)
  else
    let kind := chop (arg.getD [])
    if kind = "tcp".toList then .ok .tcp
    else if kind = "unix".toList then .ok .unix
    else .error (.unknownSocketType name kind)

/-! ## Scripts -/

/-- The connection with a command added at the end, if `p` holds of it. -/
def addIf (p : ConnectionScript → Bool) (c : Command) (k : ConnectionScript) : ConnectionScript :=
  if p k then { k with commands := k.commands ++ [c] } else k

/-- Adds a command to some connections. -/
def addWhere (s : Script) (p : ConnectionScript → Bool) (c : Command) : Script :=
  { s with connections := s.connections.map (addIf p c) }

/-- Everyone known arrives at a new latch. -/
def addBarrier (s : Script) : Script :=
  let s' := s.addWhere (fun _ => true) (.arrive s.latches.length)
  { s' with latches := s.latches ++ [⟨s.latches.length, s.connections.length⟩] }

/-- The script with a new connection, which waits for the last barrier so far. -/
def addConnection (s : Script) (name : String) (transport : Transport) : Script :=
  let commands := if s.latches.isEmpty then [] else [Command.wait (s.latches.length - 1)]
  { s with connections := s.connections ++ [⟨name, transport, commands⟩] }

/-- Whether a name is taken. -/
def declares (s : Script) (name : String) : Bool := s.connections.any (·.name == name)

/-- **What a line adds** to a script. -/
def applyLine (s : Script) : Line → Except Error Script
  | .nothing => .ok s
  | .barrier => .ok s.addBarrier
  | .incomplete line => .error (.emptyCommand line)
  | .command name verb arg =>
    let key := String.ofList name
    if s.declares key then
      (readCommand name verb arg).map fun c => s.addWhere (·.name == key) c
    else (readTransport name verb arg).map fun t => s.addConnection key t

/-- The script with the last command of every connection. -/
def close (s : Script) : Script := s.addWhere (fun _ => true) .done

/-- **Reads a script.** -/
def read (text : List Char) : Except Error Script :=
  ((lines text).foldlM (fun (s : Script) line => s.applyLine (Line.read line)) {}).map close

end Script

end Judge
