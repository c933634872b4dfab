import Judge.Conversation.Endpoints
import Judge.Conversation.Peer
import Judge.Machine.Program

/-!
# Conversation/Live — a conversation on a machine

The order of steps is that of `Conversation.run`; here time passes on the clock of the machine, and
a connection that opens asks the machine who listens.
-/

namespace Judge.Conversation

/-- Who answers on a transport.  No machine here has a network. -/
def answerer (e : Endpoints) : Transport → Program (Except IoError (List PeerStep))
  | .tcp => return .error (.os .unreachable)
  | .unix => Program.perform (.dial (.ofString e.socket))

/-- A channel that nobody can open. -/
def closedChannel : Channel PeerSocket := PeerSocket.channel fun _ _ => .error (.os .notConnected)

/-- The channel for the next step of a task: one that opens meets whoever answers. -/
def channelFor (e : Endpoints) : Option (Task PeerSocket) → Program (Channel PeerSocket)
  | some { phase := .opening _, transport, .. } => do
    let found ← answerer e transport
    return PeerSocket.channel fun _ s => found.map fun steps => { s with steps }
  | _ => return closedChannel

/-- Takes at most `fuel` steps, in a conversation that began at the time `start`. -/
def converseFrom (e : Endpoints) (start : Nat) : Nat → Nat → List Nat → Conversation PeerSocket →
    Program (Except InteractError Unit × Conversation PeerSocket)
  | 0, _, _, v => return (.error (.crash "conversation does not end"), v)
  | fuel + 1, now, order, v =>
    match choose closedChannel v order with
    | none =>
      if v.tasks.all Task.isFinished then return (.ok (), v)
      else return (.error (.crash "conversation is stuck"), v)
    | some (index, clock) => do
      let now := max now clock
      Program.perform (.sleepUntil (start + now))
      let v := catchUp closedChannel v now index
      let ch ← channelFor e v.tasks[index]?
      match v.step? ch index with
      | none => return (.error (.crash "conversation is stuck"), v)
      | some v =>
        match v.failure? with
        | some e => return (.error e, v)
        | none => converseFrom e start fuel now (reorder v order index) v

/-- Closes all that is open, and hands in what was heard. -/
def hangUpAll (v : Conversation PeerSocket) : Program Unit :=
  (v.tasks.filter (·.channel.connected)).forM fun t =>
    Program.perform (.hangUp t.channel.totalReceived)

/-- **Runs the conversation of a script** with the peers of the machine. -/
def converse (script : Script) (e : Endpoints) :
    Program (Except InteractError Unit × Conversation PeerSocket) := do
  let v := start script fun _ => ({} : PeerSocket)
  let began : Nat ← Program.perform .clock
  let r ← converseFrom e began v.stepBound 0 (List.range v.tasks.length) v
  hangUpAll r.2
  return r

end Judge.Conversation
