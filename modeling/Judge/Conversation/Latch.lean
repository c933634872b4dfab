/-!
# Conversation/Latch — barriers

A latch expects a number of arrivals.  An arrival blocks until the last one releases the latch; one
can also wait for the release without counting as an arrival.  `LatchBoard` runs arrivals and waits
against several latches and keeps account of who is blocked.
-/

namespace Judge

/-- A latch: its number and the arrivals it still expects. -/
structure Latch where
  id : Nat
  remaining : Nat
deriving DecidableEq, Repr, Inhabited

namespace Latch

/-- Whether nobody is expected any more. -/
def released (l : Latch) : Bool := l.remaining == 0

/-- The name of a latch in messages. -/
def text (l : Latch) : String := "Latch " ++ toString l.id

/-- The latch after one more arrival; nobody may arrive at a released latch. -/
def arrive? (l : Latch) : Option Latch :=
  if l.remaining = 0 then none else some { l with remaining := l.remaining - 1 }

/-- The message about an arrival that nobody expects. -/
def unexpected (l : Latch) : String := "Unexpected arrive_and_wait() call on " ++ l.text

end Latch

/-- Latches, and for each task that is blocked the position of the latch it waits for. -/
structure LatchBoard where
  latches : List Latch := []
  blocked : List Nat := []
deriving DecidableEq, Repr

namespace LatchBoard

/-- A step on the board. -/
inductive Move where
  | create (expected : Nat) (id : Option Nat)
  | arrive (index : Nat)
  | wait (index : Nat)
deriving DecidableEq, Repr

/-- What a step leads to. -/
inductive Result where
  | created (latch : Latch)
  /-- The task goes on at once. -/
  | passed
  | blocked
  | refused (latch : Latch)
deriving DecidableEq, Repr

/-- Whether the latch at an index is open. -/
def releasedAt (b : LatchBoard) (index : Nat) : Bool :=
  match b.latches[index]? with
  | some latch => latch.released
  | none => false

/-- Lets go of those whose latch is open. -/
def settle (b : LatchBoard) : LatchBoard :=
  { b with blocked := b.blocked.filter fun index => !b.releasedAt index }

/-- **One call**, and what it comes to. -/
def step (b : LatchBoard) : Move → Result × LatchBoard
  | .create expected id =>
    let latch : Latch := ⟨id.getD b.latches.length, expected⟩
    (.created latch, { b with latches := b.latches ++ [latch] })
  | .arrive index =>
    match b.latches[index]? with
    | none => (.passed, b)
    | some latch =>
      match latch.arrive? with
      | none => (.refused latch, b)
      | some latch =>
        let b := { b with latches := b.latches.set index latch }
        if latch.released then (.passed, b.settle)
        else (.blocked, { b with blocked := b.blocked ++ [index] })
  | .wait index =>
    if b.releasedAt index then (.passed, b)
    else (.blocked, { b with blocked := b.blocked ++ [index] })

end LatchBoard

end Judge
