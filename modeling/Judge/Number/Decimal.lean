import Judge.Number.Binary64
import Judge.Number.Digits
import Judge.Number.Integer

/-!
# Number/Decimal — decimal numerals

A numeral is a sign and then either a name (`inf`, `infinity`, `nan`, in any case) or digits with an
optional point and an optional exponent.  Its value is exact; `Numeral.toBinary64` rounds it once.
-/

namespace Judge

/-- A decimal numeral: a name, or `± digits · 10 ^ exponent`. -/
inductive Numeral where
  | nan
  | infinite (negative : Bool)
  | decimal (negative : Bool) (digits : Nat) (exponent : Int)
deriving DecidableEq, Repr

/-- Why a text is not a numeral. -/
inductive NumeralError where
  | empty
  | invalid
deriving DecidableEq, Repr

def NumeralError.message : NumeralError → String
  | .empty => "cannot parse float from empty string"
  | .invalid => "invalid float literal"

namespace Numeral

def isDigit (c : Char) : Bool := '0' ≤ c && c ≤ '9'

/-- The number that decimal digits write. -/
def digitsValue (ds : List Char) : Nat :=
  Digits.total 10 (ds.reverse.map fun c => c.toNat - '0'.toNat)

/-- The exponent that decimal digits write.  Beyond `65536` further digits do not count: such an
exponent already lies outside every range. -/
def exponentValue (ds : List Char) : Nat :=
  ds.foldl (fun n c => if n < 0x10000 then n * 10 + (c.toNat - '0'.toNat) else n) 0

/-- The exponent after the mark `e`. -/
def readExponent? (cs : List Char) : Option Int :=
  let negative := cs.head? == some '-'
  let ds := if negative || cs.head? == some '+' then cs.tail else cs
  if ds.isEmpty || !ds.all isDigit then none
  else some (if negative then -(exponentValue ds : Int) else exponentValue ds)

/-- The text in lower case, as far as ASCII has cases. -/
def lower (cs : List Char) : List Char := cs.map Char.toLower

def readUnsigned? (negative : Bool) (cs : List Char) : Option Numeral :=
  if lower cs = "inf".toList ∨ lower cs = "infinity".toList then some (.infinite negative)
  else if lower cs = "nan".toList then some .nan
  else
    let int := cs.takeWhile isDigit
    let afterInt := cs.dropWhile isDigit
    let hasPoint := afterInt.head? == some '.'
    let frac := if hasPoint then afterInt.tail.takeWhile isDigit else []
    let rest := if hasPoint then afterInt.tail.dropWhile isDigit else afterInt
    if int.isEmpty && frac.isEmpty then none
    else
      let value := digitsValue (int ++ frac)
      match rest with
      | [] => some (.decimal negative value (-(frac.length : Int)))
      | c :: more =>
        if c = 'e' ∨ c = 'E' then
          (readExponent? more).map fun e => .decimal negative value (e - frac.length)
        else none

def read : List Char → Except NumeralError Numeral
  | [] => .error .empty
  | '-' :: cs => ((readUnsigned? true cs).map .ok).getD (.error .invalid)
  | '+' :: cs | cs => ((readUnsigned? false cs).map .ok).getD (.error .invalid)

/-- The double nearest to `± digits · 10 ^ exponent`.  Values far outside the range are settled
before any power is computed: with `l` for the binary logarithm of `digits`, the number has more
than `l / 4` and at most `l / 3 + 1` decimal digits. -/
def ofDecimal (negative : Bool) (digits : Nat) (exponent : Int) : Binary64 :=
  if digits = 0 then .finite negative 0 Binary64.minExponent
  else if 310 < (digits.log2 / 4 : Int) + exponent then .infinite negative
  else if (digits.log2 / 3 + 1 : Int) + exponent < -330 then
    .finite negative 0 Binary64.minExponent
  else if 0 ≤ exponent then Binary64.ofRatio negative (digits * 10 ^ exponent.toNat) 1
  else Binary64.ofRatio negative digits (10 ^ (-exponent).toNat)

/-- **The double a numeral names.** -/
def toBinary64 : Numeral → Binary64
  | .nan => .nan
  | .infinite negative => .infinite negative
  | .decimal negative digits exponent => ofDecimal negative digits exponent

end Numeral

def readDouble (cs : List Char) : Except NumeralError Binary64 :=
  (Numeral.read cs).map Numeral.toBinary64

end Judge
