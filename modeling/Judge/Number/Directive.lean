import Judge.Number.Shortest

/-!
# Number/Directive — numbers as a directive asks for them

A directive tells how a value is printed: with a sign, in a base, with so many digits, and filled up
to a width.  Digits of fractions are exact, rounded once and on a tie to the even digit.
-/

namespace Judge.Directive

/-- What a directive asks for beside its letter. -/
structure Shape where
  left : Bool := false
  plus : Bool := false
  space : Bool := false
  alternate : Bool := false
  zero : Bool := false
  width : Nat := 0
  precision : Option Nat := none
deriving DecidableEq, Repr

def readFlags : List Char → Shape → Shape × List Char
  | '-' :: cs, s => readFlags cs { s with left := true }
  | '+' :: cs, s => readFlags cs { s with plus := true }
  | ' ' :: cs, s => readFlags cs { s with space := true }
  | '#' :: cs, s => readFlags cs { s with alternate := true }
  | '0' :: cs, s => readFlags cs { s with zero := true }
  | cs, s => (s, cs)

variable (s : Shape)

def pad (t : List Char) : List Char :=
  let fill := List.replicate (s.width - t.length) ' '
  if s.left then t ++ fill else fill ++ t

def text (t : List Char) : List Char := pad s (t.take (s.precision.getD t.length))

/-- A number with its sign, filled up to the width; with `zeros` zeros may do so. -/
def padNumber (sign digits : List Char) (zeros : Bool) : List Char :=
  if zeros && s.zero && !s.left then
    sign ++ List.replicate (s.width - sign.length - digits.length) '0' ++ digits
  else pad s (sign ++ digits)

def sign (negative : Bool) : List Char :=
  if negative then ['-'] else if s.plus then ['+'] else if s.space then [' '] else []

/-! ## Integers -/

/-- The digits of a number, with zeros in front up to the precision; a zero has none if none are
asked for. -/
def digits (base n : Nat) : List Char :=
  if n = 0 && s.precision == some 0 then []
  else
    let ds := Nat.toDigits base n
    List.replicate (s.precision.getD 1 - ds.length) '0' ++ ds

def signed (n : Int) : List Char :=
  padNumber s (sign s (n < 0)) (digits s 10 n.natAbs) s.precision.isNone

/-- A number without a sign, in a base. -/
def unsigned (base : Nat) (upper : Bool) (n : Nat) : List Char :=
  let ds := digits s base n
  let ds := if base = 8 && s.alternate && ds.head? != some '0' then '0' :: ds else ds
  let mark := if base = 16 && s.alternate && n ≠ 0 then ['0', 'x'] else []
  let all := padNumber s mark ds s.precision.isNone
  if upper then all.map Char.toUpper else all

/-! ## Fractions -/

/-- The digits of `num / den` with so many places. -/
def fixed (alternate : Bool) (num den places : Nat) : List Char :=
  let ds := Nat.toDigits 10 (Binary64.roundDiv (num * 10 ^ places) den)
  let ds := List.replicate (places + 1 - ds.length) '0' ++ ds
  let whole := ds.take (ds.length - places)
  if places = 0 && !alternate then whole else whole ++ '.' :: ds.drop (ds.length - places)

/-- The digits of `num / den` rounded to one place before the point and `places` behind it, and the
power of ten. -/
def rounded (num den places : Nat) : Nat × Int :=
  let k := if num = 0 then 0 else Shortest.magnitude num den
  let r := Shortest.scaled10 num den (k - places)
  let q := Binary64.roundDiv r.1 r.2
  if 10 ^ (places + 1) ≤ q then (q / 10, k + 1) else (q, k)

/-- An exponent with its sign and at least two digits. -/
def exponent (k : Int) : List Char :=
  let ds := Nat.toDigits 10 k.natAbs
  (if k < 0 then '-' else '+') :: List.replicate (2 - ds.length) '0' ++ ds

/-- The digits of `num / den` with an exponent and so many places. -/
def scientific (alternate : Bool) (num den places : Nat) : List Char :=
  let (q, k) := rounded num den places
  let ds := Nat.toDigits 10 q
  let ds := List.replicate (places + 1 - ds.length) '0' ++ ds
  let mantissa := if places = 0 && !alternate then ds else ds.take 1 ++ '.' :: ds.drop 1
  mantissa ++ 'e' :: exponent k

/-- Digits without zeros at the end of the fraction. -/
def trimFraction (ds : List Char) : List Char :=
  let mantissa := ds.takeWhile (· != 'e')
  let tail := ds.drop mantissa.length
  if mantissa.contains '.' then
    let cut := mantissa.reverse.dropWhile (· == '0')
    let cut := match cut with
      | '.' :: rest => rest
      | _ => cut
    cut.reverse ++ tail
  else ds

/-- The digits of `num / den` in the shorter of the two ways. -/
def general (alternate : Bool) (num den places : Nat) : List Char :=
  let p := max places 1
  let (_, k) := rounded num den (p - 1)
  let trim (ds : List Char) : List Char := if alternate then ds else trimFraction ds
  if k < -4 || (p : Int) ≤ k then trim (scientific alternate num den (p - 1))
  else trim (fixed alternate num den ((p : Int) - 1 - k).toNat)

/-- The hexadecimal digits of `m · 2 ^ e` behind a leading digit. -/
def hexadecimal (m : Nat) (e : Int) : List Char :=
  let (lead, power) := if m = 0 then (0, 0) else (m.log2, e + m.log2)
  let (bits, power) := if m = 0 then (0, power)
    else if lead ≤ 52 then (m * 2 ^ (52 - lead), power) else (m / 2 ^ (lead - 52), power)
  let places := s.precision.getD 13
  let q := if places < 13 then Binary64.roundDiv bits (16 ^ (13 - places)) else bits
  let ds := Nat.toDigits 16 q
  let width := min places 13 + 1
  let ds := List.replicate (width - ds.length) '0' ++ ds
  let frac := ds.drop 1 ++ List.replicate (places - 13) '0'
  let frac := if s.precision.isNone then (frac.reverse.dropWhile (· == '0')).reverse else frac
  let point := if frac.isEmpty && !s.alternate then [] else ['.']
  let sign := if power < 0 then '-' else '+'
  ds.take 1 ++ point ++ frac ++ 'p' :: sign :: Nat.toDigits 10 power.natAbs

/-- The fraction `num / den` as the letter asks for it. -/
def ratio (letter : Char) (negative : Bool) (num den : Nat) : List Char :=
  let places := s.precision.getD 6
  let lower := letter.toLower
  let ds :=
    if lower == 'e' then scientific s.alternate num den places
    else if lower == 'g' then general s.alternate num den places
    else fixed s.alternate num den places
  padNumber s (sign s negative) (if letter.isUpper then ds.map Char.toUpper else ds) true

def floating (letter : Char) (x : Binary64) : List Char :=
  let cased (t : List Char) : List Char := if letter.isUpper then t.map Char.toUpper else t
  match x with
  | .nan => pad s (sign s false ++ cased "nan".toList)
  | .infinite negative => pad s (sign s negative ++ cased "inf".toList)
  | .finite negative m e =>
    if letter.toLower == 'a' then
      cased (padNumber s (sign s negative ++ ['0', 'x']) (hexadecimal s m e) true)
    else ratio s letter negative (m * 2 ^ e.toNat) (2 ^ (-e).toNat)

end Judge.Directive
