import Judge.Conversation.Schedule

/-!
# Conversation/Peer — a peer that follows a list

The other end of a conversation, as a list of steps: things to say, things to wait for, pauses, and
at any point a sudden end.  `PeerSocket` is the state of one connection to such a peer; the peer
acts as far as its own clock is not ahead of the client's.
-/

namespace Judge

/-- A step of a peer.  What is read with `echo` is also said. -/
inductive PeerStep where
  /-- Says something; it is sent off together with what follows it. -/
  | send (data : Bytes)
  | line (echo : Bool)
  | read (count : Nat) (echo : Bool)
  | eof (echo : Bool)
  | sleep (span : Span)
  | close
deriving DecidableEq, Repr

/-- One connection to a peer. -/
structure PeerSocket where
  steps : List PeerStep := []
  clock : Nat := 0
  peerClock : Nat := 0
  connected : Bool := false
  inbox : Bytes := []
  /-- Whether the client says nothing any more. -/
  clientDone : Bool := false
  /-- Said by the peer and not read. -/
  outbox : Bytes := []
  queued : Bytes := []
  partly : Bytes := []
  received : Bytes := []
  /-- Whether the peer says nothing any more. -/
  peerDone : Bool := false
  closed : Bool := false
  /-- Whether it went away without reading everything, and the client does not know it yet. -/
  resetDue : Bool := false
deriving Repr

namespace PeerSocket

variable (s : PeerSocket)

/-- What was queued is on its way. -/
def flush : PeerSocket :=
  { s with outbox := s.outbox ++ s.queued, queued := [] }

/-- Takes the first `n` bytes of the inbox for the present step. -/
def take (s : PeerSocket) (n : Nat) : PeerSocket :=
  { s with
    inbox := s.inbox.drop n
    partly := s.partly ++ s.inbox.take n
    received := s.received ++ s.inbox.take n }

/-- Ends the present step; what it read is said if `echo` asks for it. -/
def endStep (echo : Bool) : PeerSocket :=
  { s with
    queued := if echo then s.queued ++ s.partly else s.queued
    partly := [] }

/-- After the last step: says what is queued and then nothing more, and reads on. -/
def windUp : PeerSocket :=
  let s := s.flush
  { s with
    steps := [], peerDone := true, inbox := [], partly := [], received := s.received ++ s.inbox }

/-- The bytes of the inbox up to and including a line feed, if there is one. -/
def lineLength? (inbox : Bytes) : Option Nat := (inbox.findIdx? (· == 0x0A)).map (· + 1)

/-- What the peer does up to the time `now`, with `steps` left. -/
def act (now : Nat) : List PeerStep → PeerSocket → PeerSocket
  | [], s => s.windUp
  | step :: rest, s =>
    if now < s.peerClock then { s with steps := step :: rest }
    else match step with
      | .send data => act now rest { s with queued := s.queued ++ data }
      | .sleep span => act now rest { s.flush with peerClock := s.peerClock + span.nanos }
      | .close =>
        let s := s.flush
        { s with steps := [], peerDone := true, closed := true, resetDue := !s.inbox.isEmpty }
      | .line echo =>
        let s := s.flush
        match lineLength? s.inbox with
        | some n => act now rest ((s.take n).endStep echo)
        | none => await step rest (s.take s.inbox.length)
      | .read count echo =>
        let s := s.flush
        let n := count - s.partly.length
        if n ≤ s.inbox.length then act now rest ((s.take n).endStep echo)
        else await step rest (s.take s.inbox.length)
      | .eof echo =>
        let s := s.flush
        let s := s.take s.inbox.length
        if s.clientDone then act now rest (s.endStep echo)
        else { s with steps := step :: rest, peerClock := now }
where
  /-- Waits for more; if nothing more comes, what was read is not said, and the rest of the list is
  left out. -/
  await (step : PeerStep) (rest : List PeerStep) (s : PeerSocket) : PeerSocket :=
    if s.clientDone then s.windUp
    else { s with steps := step :: rest, peerClock := now }

/-- Lets the peer act up to the client's time. -/
def settle : PeerSocket :=
  if !s.connected || s.closed then s
  else if s.peerDone then { s with inbox := [], received := s.received ++ s.inbox }
  else act s.clock s.steps s

/-- Reads at most `n` bytes, after waiting for a sleeping peer at most `fuel` times. -/
def readFrom : Nat → Nat → PeerSocket → Except IoError Bytes × PeerSocket
  | fuel, n, s =>
    let s := s.settle
    if !s.outbox.isEmpty then (.ok (s.outbox.take n), { s with outbox := s.outbox.drop n })
    else if s.resetDue then (.error (.os .reset), { s with resetDue := false })
    else if s.peerDone then (.ok [], s)
    else match fuel with
      | 0 => (.ok [], s)
      | fuel + 1 => readFrom fuel n { s with clock := max s.clock s.peerClock }

/-- **The socket of a client of a peer**, where `dial` says what becomes of a connection. -/
def channel (dial : Transport → PeerSocket → Except IoError PeerSocket) : Channel PeerSocket where
  connect t s :=
    match dial t s with
    | .ok s => (.ok (), { s with connected := true, peerClock := s.clock }.settle)
    | .error e => (.error e, s)
  write data s :=
    let s := s.settle
    if s.closed then (.error (.os .brokenPipe), s)
    else (.ok (), { s with inbox := s.inbox ++ data }.settle)
  read n s := readFrom (s.steps.length + 1) n s
  stopWrite s := (.ok (), { s.settle with clientDone := true }.settle)
  stopRead s := (.ok (), s.settle)
  pause span s := { s with clock := s.clock + span.nanos }
  clock s := s.clock
  waitUntil now s := { s with clock := max s.clock now }

/-- Everything that the peer will have read once the client is gone. -/
def totalReceived : Bytes :=
  let late := s.clock + s.peerClock +
    (s.steps.map fun step => match step with
      | .sleep span => span.nanos
      | _ => 0).sum
  ({ s.settle with clientDone := true, clock := late }.settle).received

end PeerSocket

end Judge
