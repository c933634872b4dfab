import Judge.Number.Basic

/-!
# Number/Binary64 — double precision, exactly

A finite double is `± mantissa · 2 ^ exponent`; it is *canonical* when the mantissa has at most 53
bits, the exponent is at least `-1074`, and a mantissa of fewer than 53 bits goes with the exponent
`-1074` only.  Every operation computes the exact result and then rounds once, to the nearest
canonical value and on a tie to the even mantissa (`ofRatio`).
-/

namespace Judge

/-- A double: not a number, an infinity, or `± mantissa · 2 ^ exponent`. -/
inductive Binary64 where
  | nan
  | infinite (negative : Bool)
  | finite (negative : Bool) (mantissa : Nat) (exponent : Int)
deriving DecidableEq, Repr

namespace Binary64

def minExponent : Int := -1074

def maxExponent : Int := 971

def zero : Binary64 := .finite false 0 minExponent

/-! ## Rounding -/

/-- The integer nearest to `n / d`, the even one on a tie. -/
def roundDiv (n d : Nat) : Nat :=
  if 2 * (n % d) < d then n / d
  else if d < 2 * (n % d) then n / d + 1
  else if n / d % 2 = 0 then n / d
  else n / d + 1

def scaled (num den : Nat) (e : Int) : Nat × Nat :=
  if 0 ≤ e then (num, den * 2 ^ e.toNat) else (num * 2 ^ (-e).toNat, den)

def leading (num den : Nat) : Int :=
  let l : Int := (num.log2 : Int) - den.log2
  let r := scaled num den l
  if r.2 ≤ r.1 then l else l - 1

/-- A rounded mantissa with its exponent, or an infinity when the exponent is too large. -/
def pack (negative : Bool) (mantissa : Nat) (e : Int) : Binary64 :=
  if maxExponent < e then .infinite negative else .finite negative mantissa e

/-- **The double nearest to `± num / den`**, with the even mantissa on a tie. -/
def ofRatio (negative : Bool) (num den : Nat) : Binary64 :=
  if num = 0 then .finite negative 0 minExponent
  else
    let e := max (leading num den - 52) minExponent
    let r := scaled num den e
    let m := roundDiv r.1 r.2
    if m < 2 ^ 53 then pack negative m e else pack negative (2 ^ 52) (e + 1)

/-- The double nearest to a natural number. -/
def ofNat (n : Nat) : Binary64 := ofRatio false n 1

def ofDyadic (negative : Bool) (n : Nat) (e : Int) : Binary64 :=
  if 0 ≤ e then ofRatio negative (n * 2 ^ e.toNat) 1 else ofRatio negative n (2 ^ (-e).toNat)

/-- The double nearest to `v · 2 ^ e`; an exact zero is positive. -/
def ofSigned (v : Int) (e : Int) : Binary64 := ofDyadic (decide (v < 0)) v.natAbs e

/-! ## Arithmetic and comparison -/

def signed (negative : Bool) (mantissa : Nat) : Int :=
  if negative then -(mantissa : Int) else mantissa

/-- Two finite values over the smaller of their exponents. -/
def aligned (v₁ : Int) (e₁ : Int) (v₂ : Int) (e₂ : Int) : Int × Int × Int :=
  let e := min e₁ e₂
  (v₁ * 2 ^ (e₁ - e).toNat, v₂ * 2 ^ (e₂ - e).toNat, e)

/-- The rounded sum. -/
def add : Binary64 → Binary64 → Binary64
  | .nan, _ | _, .nan => .nan
  | .infinite s, .infinite t => if s = t then .infinite s else .nan
  | .infinite s, .finite .. => .infinite s
  | .finite .., .infinite t => .infinite t
  | .finite s m e, .finite t n f =>
    let a := aligned (signed s m) e (signed t n) f
    ofSigned (a.1 + a.2.1) a.2.2

/-- The rounded product of two finite values. -/
def mul : Binary64 → Binary64 → Binary64
  | .finite s m e, .finite t n f => ofDyadic (s != t) (m * n) (e + f)
  | _, _ => .nan

/-- The rounded quotient of two finite values, the second one not zero. -/
def div : Binary64 → Binary64 → Binary64
  | .finite s m e, .finite t n f =>
    if n = 0 then .nan
    else if 0 ≤ e - f then ofRatio (s != t) (m * 2 ^ (e - f).toNat) n
    else ofRatio (s != t) m (n * 2 ^ (f - e).toNat)
  | _, _ => .nan

/-- The rounded distance `|x - y|`. -/
def distance : Binary64 → Binary64 → Binary64
  | .nan, _ | _, .nan => .nan
  | .infinite s, .infinite t => if s = t then .nan else .infinite false
  | .infinite _, .finite .. | .finite .., .infinite _ => .infinite false
  | .finite s m e, .finite t n f =>
    let a := aligned (signed s m) e (signed t n) f
    ofDyadic false (a.1 - a.2.1).natAbs a.2.2

/-- `x ≤ y`; no comparison holds of what is not a number. -/
def le : Binary64 → Binary64 → Bool
  | .nan, _ | _, .nan => false
  | .infinite s, .infinite t => s || !t
  | .infinite s, .finite .. => s
  | .finite .., .infinite t => !t
  | .finite s m e, .finite t n f =>
    let a := aligned (signed s m) e (signed t n) f
    decide (a.1 ≤ a.2.1)

/-- Numerical equality: the two zeros are equal, and what is not a number equals nothing. -/
def same (x y : Binary64) : Bool := le x y && le y x

/-- Whether the value is neither infinite nor undefined. -/
def isFinite : Binary64 → Bool
  | .finite .. => true
  | _ => false

def isZero : Binary64 → Bool
  | .finite _ m _ => m == 0
  | _ => false

/-- The greatest exponent of a power of two that is a double. -/
def maxPower : Int := 1023

/-- Multiplication by the power `2 ^ k`, rounded once.  The power itself is infinite above
`2 ^ 1023` and zero below `2 ^ -1023`, so it makes a zero, or an infinity, undefined. -/
def mulPow2 (k : Int) : Binary64 → Binary64
  | .nan => .nan
  | .infinite s => if k < -maxPower then .nan else .infinite s
  | .finite s m e =>
    if maxPower < k then if m = 0 then .nan else .infinite s
    else if k < -maxPower then .finite s 0 minExponent
    else ofDyadic s m (e + k)

/-! ## The interchange format -/

/-- The 64 bits of a value: sign, biased exponent, fraction. -/
def bits : Binary64 → Nat
  | .nan => 0x7FF8 * 2 ^ 48
  | .infinite s => (if s then 2 ^ 63 else 0) + 0x7FF * 2 ^ 52
  | .finite s m e =>
    (if s then 2 ^ 63 else 0) +
      (if m < 2 ^ 52 then m else (e + 1075).toNat * 2 ^ 52 + (m - 2 ^ 52))

end Binary64

end Judge
