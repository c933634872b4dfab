import Judge.Conversation.Connection
import Judge.Text.Quoted
import Judge.Number.Integer
import Judge.Vars

/-!
# Conversation/Endpoints — where the peers of a conversation listen

The metadata of a test, read as plain `key = value` lines, has in its `params` a port and the path
of a socket: the endpoints of the two transports.
-/

namespace Judge

/-- The endpoints of a conversation. -/
structure Endpoints where
  port : Nat
  socket : String
deriving DecidableEq, Repr

namespace Endpoints

/-- Where a peer listens, as it is told. -/
def address (e : Endpoints) : String := "[::1]:" ++ toString e.port

/-- A line as key and value, both trimmed; a line without `=` is a key with an empty value. -/
def entry (line : List Char) : String × String :=
  match cutAt ['='] line with
  | some (key, value) => (String.ofList (trim key), String.ofList (trim value))
  | none => (String.ofList line, "")

/-- The entries of a text; of two with one key the later one counts. -/
def entries (text : List Char) : Vars :=
  Vars.ofList (((splitWhere (· == '\n') text).map trim).filter (!·.isEmpty) |>.map entry)

/-- **The endpoints that the entries name.** -/
def ofEntries (info : Vars) : Except InteractError Endpoints :=
  let params := (info.get? "params").getD ""
  let badPort : Except InteractError Endpoints :=
    .error (.crash ("Bad port in params " ++ shown params))
  match words params.toList with
  | [] => badPort
  | port :: rest =>
    match Integer.readNat Integer.max16 port with
    | .error _ => badPort
    | .ok port =>
      match rest with
      | [] => .error (.crash ("No unix socket path in params " ++ shown params))
      | socket :: _ => .ok ⟨port, String.ofList socket⟩

end Endpoints

end Judge
