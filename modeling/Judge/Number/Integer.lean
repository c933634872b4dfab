import Judge.Number.Basic

/-!
# Number/Integer — integers in records and arguments

Decimal digits with an optional sign, bounded by the width of the field they are read into.  The
digits are taken from the left and the first thing that is wrong decides the error.
-/

namespace Judge

/-- Why a text is not an integer of the wanted width. -/
inductive IntegerError where
  | empty
  | invalidDigit
  | tooLarge
  | tooSmall
deriving DecidableEq, Repr

def IntegerError.message : IntegerError → String
  | .empty => "cannot parse integer from empty string"
  | .invalidDigit => "invalid digit found in string"
  | .tooLarge => "number too large to fit in target type"
  | .tooSmall => "number too small to fit in target type"

namespace Integer

def digit? (c : Char) : Option Nat :=
  if '0' ≤ c ∧ c ≤ '9' then some (c.toNat - '0'.toNat) else none

/-- Reads digits after the value `acc`; a value above `limit` is the error `overflow`. -/
def readDigits (limit : Nat) (overflow : IntegerError) : Nat → List Char → Except IntegerError Nat
  | acc, [] => .ok acc
  | acc, c :: cs =>
    match digit? c with
    | none => .error .invalidDigit
    | some d =>
      if limit < acc * 10 + d then .error overflow
      else readDigits limit overflow (acc * 10 + d) cs

def readMagnitude (limit : Nat) (overflow : IntegerError) (cs : List Char) :
    Except IntegerError Nat :=
  if cs.isEmpty then .error .invalidDigit else readDigits limit overflow 0 cs

/-- Reads a natural number of at most `limit`; a plus sign may stand in front. -/
def readNat (limit : Nat) : List Char → Except IntegerError Nat
  | [] => .error .empty
  | '+' :: cs | cs => readMagnitude limit .tooLarge cs

def readInt (low high : Nat) : List Char → Except IntegerError Int
  | [] => .error .empty
  | '+' :: cs => (readMagnitude high .tooLarge cs).map Int.ofNat
  | '-' :: cs => (readMagnitude low .tooSmall cs).map fun n => -(Int.ofNat n)
  | cs => (readMagnitude high .tooLarge cs).map Int.ofNat

/-- The greatest number of 16 bits. -/
abbrev max16 : Nat := 2 ^ 16 - 1

/-- The greatest number of 32 bits. -/
abbrev max32 : Nat := 2 ^ 32 - 1

/-- The greatest number of 64 bits. -/
abbrev max64 : Nat := 2 ^ 64 - 1

def read64 (cs : List Char) : Except IntegerError Nat := readNat max64 cs

def readSigned32 (cs : List Char) : Except IntegerError Int := readInt (2 ^ 31) (2 ^ 31 - 1) cs

def readSigned64 (cs : List Char) : Except IntegerError Int := readInt (2 ^ 63) (2 ^ 63 - 1) cs

end Integer

end Judge
