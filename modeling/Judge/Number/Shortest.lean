import Judge.Number.Binary64

/-!
# Number/Shortest — doubles in the fewest digits

The reals that round to a given double form an interval.  `Shortest.digits` takes the coarsest
decimal grid that has a point in it, and of the two grid points beside the value the nearer one.
How the digits are then laid out is a `FloatLayout`; the layouts in use stand at the end.
-/

namespace Judge

namespace Shortest

/-- The reals that round to a double, as three numerators over one denominator: the lower end, the
value, the upper end.  The ends belong to it when the mantissa is even. -/
structure Interval where
  low : Nat
  mid : Nat
  high : Nat
  den : Nat
  closed : Bool

/-- The interval of `mantissa · 2 ^ exponent`.  Below a power of two the neighbour is half as
far. -/
def interval (mantissa : Nat) (exponent : Int) : Interval :=
  let below := if mantissa = 2 ^ 52 ∧ Binary64.minExponent < exponent then 1 else 2
  let up := 2 ^ (exponent - 2).toNat
  let down := 2 ^ (2 - exponent).toNat
  { low := (4 * mantissa - below) * up
    mid := 4 * mantissa * up
    high := (4 * mantissa + 2) * up
    den := down
    closed := mantissa % 2 == 0 }

def scaled10 (num den : Nat) (k : Int) : Nat × Nat :=
  if 0 ≤ k then (num, den * 10 ^ k.toNat) else (num * 10 ^ (-k).toNat, den)

def magnitude (num den : Nat) : Int :=
  let l : Int := ((Nat.toDigits 10 num).length : Int) - (Nat.toDigits 10 den).length
  let r := scaled10 num den l
  if r.2 ≤ r.1 then l else l - 1

/-- Whether the grid point `q · 10 ^ k` lies in the interval. -/
def Interval.holds (i : Interval) (q : Nat) (k : Int) : Bool :=
  let up := 10 ^ k.toNat
  let down := 10 ^ (-k).toNat
  let point := q * up * i.den
  if i.closed then decide (i.low * down ≤ point) && decide (point ≤ i.high * down)
  else decide (i.low * down < point) && decide (point < i.high * down)

/-- Which of two decimals that are equally near is taken. -/
inductive Tie where
  | up
  | even
deriving DecidableEq, Repr

/-- Whether a value that is `rest / unit` above `q` goes up to `q + 1`. -/
def Tie.goesUp (t : Tie) (q rest unit : Nat) : Bool :=
  decide (unit < 2 * rest) || (decide (unit = 2 * rest) && (decide (t = .up) || q % 2 == 1))

/-- The grid point at `10 ^ k` that lies in the interval, the nearer one if there are two. -/
def Interval.pick? (i : Interval) (t : Tie) (k : Int) : Option Nat :=
  let r := scaled10 i.mid i.den k
  let q := r.1 / r.2
  match i.holds q k, i.holds (q + 1) k with
  | false, false => none
  | true, false => some q
  | false, true => some (q + 1)
  | true, true => if t.goesUp q (r.1 % r.2) r.2 then some (q + 1) else some q

/-- Tries the grids from the given number of digits on, at most `n` of them. -/
def search (i : Interval) (t : Tie) : Nat → Int → Nat × Int
  | 0, k => (i.mid / i.den, k)
  | n + 1, k =>
    match i.pick? t k with
    | some q => (q, k)
    | none => search i t n (k - 1)

/-- A number without the zeros at its end, which go into the exponent. -/
def strip : Nat → Nat → Int → Nat × Int
  | 0, q, k => (q, k)
  | n + 1, q, k => if q ≠ 0 ∧ q % 10 = 0 then strip n (q / 10) (k + 1) else (q, k)

/-- **The shortest digits** of `mantissa · 2 ^ exponent` and the power of ten they stand at. -/
def digits (t : Tie) (mantissa : Nat) (exponent : Int) : Nat × Int :=
  if mantissa = 0 then (0, 0)
  else
    let i := interval mantissa exponent
    let found := search i t 17 (magnitude i.mid i.den)
    strip 20 found.1 found.2

end Shortest

/-- How the digits of a double are chosen and laid out: the decimal exponents that are written
positionally, whether an integer keeps a `.0`, whether a positive exponent has a sign, and which way
a tie goes. -/
structure FloatLayout where
  positional : Int → Bool
  keepPoint : Bool
  plusSign : Bool
  tie : Shortest.Tie := .up

namespace FloatLayout

/-- The digits `q · 10 ^ k` with a point in their place. -/
def plain (l : FloatLayout) (q : Nat) (k : Int) : String :=
  let ds := Nat.toDigits 10 q
  let point : Int := ds.length + k
  if 0 ≤ k then
    String.ofList (ds ++ List.replicate k.toNat '0') ++ (if l.keepPoint then ".0" else "")
  else if 0 < point then
    String.ofList (ds.take point.toNat) ++ "." ++ String.ofList (ds.drop point.toNat)
  else "0." ++ String.ofList (List.replicate (-point).toNat '0' ++ ds)

/-- The digits `q · 10 ^ k` with one digit before the point and an exponent. -/
def scientific (l : FloatLayout) (q : Nat) (k : Int) : String :=
  let ds := Nat.toDigits 10 q
  let e : Int := ds.length + k - 1
  let mantissa :=
    if ds.length = 1 then String.ofList ds
    else String.ofList (ds.take 1) ++ "." ++ String.ofList (ds.drop 1)
  let sign := if e < 0 then "-" else if l.plusSign then "+" else ""
  mantissa ++ "e" ++ sign ++ toString e.natAbs

def render (l : FloatLayout) : Binary64 → String
  | .nan => "NaN"
  | .infinite negative => if negative then "-inf" else "inf"
  | .finite negative m e =>
    let d := Shortest.digits l.tie m e
    let magnitude : Int := (Nat.toDigits 10 d.1).length + d.2 - 1
    (if negative then "-" else "") ++
      (if m = 0 || l.positional magnitude then l.plain d.1 d.2 else l.scientific d.1 d.2)

/-- In messages: positional from `1e-4` up to `1e16`, and always with a point. -/
def message : FloatLayout := ⟨fun e => decide (-4 ≤ e) && decide (e < 16), true, false, .up⟩

/-- In running text: always positional, and integers without a point. -/
def running : FloatLayout := ⟨fun _ => true, false, false, .up⟩

/-- In reports: positional from `1e-5` up to `1e16`, with a point and a sign in every exponent; a
tie goes to the even digit. -/
def report : FloatLayout := ⟨fun e => decide (-5 ≤ e) && decide (e < 16), true, true, .even⟩

end FloatLayout

def Binary64.shown (x : Binary64) : String := FloatLayout.message.render x

end Judge
