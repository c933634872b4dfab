import Judge.Number.Binary64
import Judge.Number.Integer
import Judge.Text.Cut

/-!
# Number/HexFloat — hexadecimal numerals

`digits[.digits][p exponent]` in base 16 with a binary exponent.  The digits are collected exactly
as long as they fit into 120 bits (`Mantissa.push`); later ones only shift the scale and leave a
sticky bit.  The collected mantissa is rounded to a double and then moved to its place by powers of
two, in steps that stay inside the range of powers a double can hold.
-/

namespace Judge.HexFloat

/-- The value of a hexadecimal digit. -/
def digit? (c : Char) : Option Nat :=
  if '0' ≤ c ∧ c ≤ '9' then some (c.toNat - '0'.toNat)
  else if 'a' ≤ c ∧ c ≤ 'f' then some (c.toNat - 'a'.toNat + 10)
  else if 'A' ≤ c ∧ c ≤ 'F' then some (c.toNat - 'A'.toNat + 10)
  else none

/-- The digits collected so far: their leading bits, the power of two they stand at, and whether a
digit other than zero was dropped. -/
structure Mantissa where
  bits : Nat := 0
  scale : Int := 0
  sticky : Bool := false
deriving DecidableEq, Repr

/-- Adds one digit.  While the top bits are free the digit is kept; afterwards it is dropped. -/
def Mantissa.push (m : Mantissa) (fractional : Bool) (digit : Nat) : Mantissa :=
  if m.bits / 2 ^ 116 = 0 then
    { m with bits := m.bits * 16 + digit, scale := if fractional then m.scale - 4 else m.scale }
  else
    { m with scale := if fractional then m.scale else m.scale + 4,
             sticky := m.sticky || digit != 0 }

/-- Adds the digits of one side of the point; `none` if one of them is no digit. -/
def Mantissa.pushAll (fractional : Bool) : Mantissa → List Char → Option Mantissa
  | m, [] => some m
  | m, c :: cs =>
    match digit? c with
    | none => none
    | some d => (m.push fractional d).pushAll fractional cs

def Mantissa.total (m : Mantissa) : Nat :=
  if m.sticky && m.bits % 2 == 0 then m.bits + 1 else m.bits

/-- The greatest power of two used in one multiplication. -/
def step : Int := 1000

/-- Multiplies by `2 ^ 1000` as long as the shift is larger than that and it makes a difference. -/
def scaleUp (x : Binary64) (shift : Int) : Binary64 × Int :=
  if step < shift ∧ x.isFinite ∧ !x.isZero then scaleUp (x.mulPow2 step) (shift - step)
  else (x, shift)
termination_by shift.toNat
decreasing_by simp only [step] at *; omega

/-- Divides by `2 ^ 1000` as long as the shift is smaller than that and it makes a difference. -/
def scaleDown (x : Binary64) (shift : Int) : Binary64 × Int :=
  if shift < -step ∧ !x.isZero then scaleDown (x.mulPow2 (-step)) (shift + step)
  else (x, shift)
termination_by (-shift).toNat
decreasing_by simp only [step] at *; omega

/-- The shift as a signed number of 32 bits. -/
def wrap32 (shift : Int) : Int := Int.bmod shift (2 ^ 32)

def scaleBy (x : Binary64) (shift : Int) : Binary64 :=
  let up := scaleUp x shift
  let down := scaleDown up.1 up.2
  down.1.mulPow2 (wrap32 down.2)

def cutExponent? (cs : List Char) : Option (List Char × Int) :=
  let mantissa := cs.takeWhile fun c => c != 'p' && c != 'P'
  match cs.dropWhile fun c => c != 'p' && c != 'P' with
  | [] => some (mantissa, 0)
  | _ :: exponent =>
    match Integer.readSigned32 exponent with
    | .ok e => some (mantissa, e)
    | .error _ => none

/-- The mantissa that the digits on both sides of the point write. -/
def collect? (int frac : List Char) : Option Mantissa :=
  if int.isEmpty && frac.isEmpty then none
  else (Mantissa.pushAll false {} int).bind fun m => m.pushAll true frac

/-- Reads what follows `0x`. -/
def read? (cs : List Char) : Option Binary64 := do
  let (mantissa, exponent) ← cutExponent? cs
  let (int, frac) := (cutAt ['.'] mantissa).getD (mantissa, [])
  let m ← collect? int frac
  some (scaleBy (Binary64.ofNat m.total) (exponent + m.scale))

end Judge.HexFloat
