import Judge.Number.Shortest

/-!
# Number/Span — spans of time

A span is a whole number of nanoseconds below `2 ^ 64` seconds.  From a number of seconds it is the
nearest one, with the even number of nanoseconds on a tie.
-/

namespace Judge

/-- A span of time. -/
structure Span where
  nanos : Nat
deriving DecidableEq, Repr

namespace Span

def perSecond : Nat := 10 ^ 9

def ofMillis (ms : Nat) : Span := ⟨ms * 10 ^ 6⟩

def millis (s : Span) : Nat := s.nanos / 10 ^ 6

def ofDyadicSeconds (mantissa : Nat) (exponent : Int) : Span :=
  if 0 ≤ exponent then ⟨mantissa * 2 ^ exponent.toNat * perSecond⟩
  else ⟨Binary64.roundDiv (mantissa * perSecond) (2 ^ (-exponent).toNat)⟩

/-- The span of a finite, nonnegative number of seconds; `none` from `2 ^ 64` seconds on, which no
span holds. -/
def ofSeconds? : Binary64 → Option Span
  | .finite _ m e =>
    let s := ofDyadicSeconds m e
    if s.nanos < 2 ^ 64 * perSecond then some s else none
  | _ => none

/-- The number of seconds of a span: whole seconds and the fraction are rounded apart and then
added. -/
def seconds (s : Span) : Binary64 :=
  (Binary64.ofNat (s.nanos / perSecond)).add
    (Binary64.ofRatio false (s.nanos % perSecond) perSecond)

end Span

end Judge
