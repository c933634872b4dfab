import Judge.Number.Decimal
import Judge.Number.HexFloat

/-!
# Number/Scan — the number at the start of a text

Numbers as they are read off the front of a text: blanks and a sign may stand before them, and
whatever follows them is left.  A number that does not fit is told apart, and the nearest one that
does takes its place.
-/

namespace Judge.Scan

def isSpace (c : Char) : Bool := c == ' ' || ('\t' ≤ c && c ≤ '\r')

/-- The value of a digit in any base up to thirty-six. -/
def digitValue? (c : Char) : Option Nat :=
  if c.isDigit then some (c.toNat - '0'.toNat)
  else if 'a' ≤ c && c ≤ 'z' then some (c.toNat - 'a'.toNat + 10)
  else if 'A' ≤ c && c ≤ 'Z' then some (c.toNat - 'A'.toNat + 10)
  else none

def isDigitIn (base : Nat) (c : Char) : Bool :=
  match digitValue? c with
  | some d => decide (d < base)
  | none => false

def readDigits (base : Nat) (ds : List Char) : Nat :=
  Digits.total base (ds.reverse.map fun c => (digitValue? c).getD 0)

/-- The digits in a base at the start of a text, and what follows them. -/
def takeDigits (base : Nat) (cs : List Char) : List Char × List Char :=
  (cs.takeWhile (isDigitIn base), cs.dropWhile (isDigitIn base))

/-- A text without its sign, and whether it is negative. -/
def takeSign : List Char → Bool × List Char
  | '-' :: cs => (true, cs)
  | '+' :: cs | cs => (false, cs)

/-! ## Integers -/

/-- How the base of an integer is found. -/
inductive Base where
  | ten
  /-- A zero leads to octal digits, and with an `x` to hexadecimal ones. -/
  | written
deriving DecidableEq, Repr

/-- The base of digits, the digits, and what follows them. -/
def takeConstant (base : Base) (cs : List Char) : Nat × List Char × List Char :=
  match base, cs with
  | .written, '0' :: x :: d :: rest =>
    if (x == 'x' || x == 'X') && isDigitIn 16 d then (16, takeDigits 16 (d :: rest))
    else (8, takeDigits 8 cs)
  | .written, '0' :: _ => (8, takeDigits 8 cs)
  | _, _ => (10, takeDigits 10 cs)

/-- An integer at the start of a text. -/
structure Whole where
  value : Int
  found : Bool
  /-- Whether another number would have to stand here. -/
  outOfRange : Bool := false
  rest : List Char

/-- **Reads an integer** between `low` and `high`. -/
def whole (base : Base) (low high : Int) (cs : List Char) : Whole :=
  let (negative, digits) := takeSign (cs.dropWhile isSpace)
  let (b, ds, rest) := takeConstant base digits
  let n : Int := if negative then -(readDigits b ds : Int) else readDigits b ds
  if ds.isEmpty then { value := 0, found := false, rest := cs }
  else if high < n then { value := high, found := true, outOfRange := true, rest }
  else if n < low then { value := low, found := true, outOfRange := true, rest }
  else { value := n, found := true, rest }

/-! ## Doubles -/

/-- A double at the start of a text. -/
structure Real where
  value : Binary64
  found : Bool := true
  outOfRange : Bool := false
  rest : List Char

/-- What follows `word` at the start of a text, in any case. -/
def afterWord? (word : String) (cs : List Char) : Option (List Char) :=
  let n := word.toList.length
  if Numeral.lower (cs.take n) = word.toList then some (cs.drop n) else none

/-- The exponent after the mark `e`, and what follows it; without digits there is none. -/
def takeExponent (mark : Char) (cs : List Char) : Option (List Char) × List Char :=
  match cs with
  | c :: rest =>
    if c.toLower == mark then
      let (sign, digits) := match rest with
        | '-' :: ds => (['-'], ds)
        | '+' :: ds | ds => ([], ds)
      let (ds, after) := takeDigits 10 digits
      if ds.isEmpty then (none, cs) else (some (sign ++ ds), after)
    else (none, cs)
  | [] => (none, [])

/-- Digits with a point among them, and what follows. -/
def takeFraction (base : Nat) (cs : List Char) : List Char × List Char × List Char :=
  let (int, rest) := takeDigits base cs
  match rest with
  | '.' :: more =>
    let (frac, after) := takeDigits base more
    if int.isEmpty && frac.isEmpty then ([], [], cs) else (int, frac, after)
  | _ => (int, [], rest)

/-- Whether a double with digits other than zero lies outside of what can be told exactly. -/
def isExtreme (x : Binary64) (digits : List Char) : Bool :=
  match x with
  | .infinite _ => true
  | .finite _ m _ => decide (m < 2 ^ 52) && digits.any (· != '0')
  | .nan => false

def negate : Binary64 → Binary64
  | .nan => .nan
  | .infinite s => .infinite !s
  | .finite s m e => .finite (!s) m e

def unsignedReal? (cs : List Char) : Option Real :=
  match cs with
  | '0' :: x :: rest =>
    let (int, frac, after) := takeFraction 16 rest
    if (x == 'x' || x == 'X') && !(int.isEmpty && frac.isEmpty) then
      let (exponent, after) := takeExponent 'p' after
      let text := int ++ '.' :: frac ++ (exponent.map ('p' :: ·)).getD []
      some { value := (HexFloat.read? text).getD .zero, rest := after }
    else decimal
  | _ => decimal
where
  /-- Reads a decimal number or a name. -/
  decimal : Option Real :=
    match afterWord? "infinity" cs, afterWord? "inf" cs, afterWord? "nan" cs with
    | some rest, _, _ | _, some rest, _ => some { value := .infinite false, rest }
    | _, _, some rest => some { value := .nan, rest }
    | _, _, _ =>
      let (int, frac, after) := takeFraction 10 cs
      if int.isEmpty && frac.isEmpty then none
      else
        let (exponent, after) := takeExponent 'e' after
        let text := int ++ '.' :: frac ++ (exponent.map ('e' :: ·)).getD []
        match readDouble text with
        | .ok x => some { value := x, outOfRange := isExtreme x (int ++ frac), rest := after }
        | .error _ => none

/-- **Reads a double.** -/
def real (cs : List Char) : Real :=
  let (negative, digits) := takeSign (cs.dropWhile isSpace)
  match unsignedReal? digits with
  | some r => if negative then { r with value := negate r.value } else r
  | none => { value := .zero, found := false, rest := cs }

end Judge.Scan
