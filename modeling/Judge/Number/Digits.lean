import Judge.Number.Basic

/-!
# Number/Digits — the number that digits write

Digits stand with the least significant one first.  `Digits.value` reads them one by one.
`Digits.total` pairs neighbours into digits of the squared base until one is left, so a long numeral
takes a few large products and not many small ones; it gives the same number (`total_eq_value`).
-/

namespace Judge.Digits

def value (base : Nat) : List Nat → Nat
  | [] => 0
  | d :: ds => d + base * value base ds

/-- The pairs of neighbours as digits of the squared base, after those in `done`, the last of which
comes first. -/
def pairUp (base : Nat) : List Nat → List Nat → List Nat
  | done, [] => done.reverse
  | done, [d] => (d :: done).reverse
  | done, d :: e :: ds => pairUp base ((d + base * e) :: done) ds

variable (base : Nat)

theorem value_append (ds es : List Nat) :
    value base (ds ++ es) = value base ds + base ^ ds.length * value base es := by
  induction ds with
  | nil => simp [value]
  | cons d ds ih =>
    simp only [List.cons_append, value, ih, List.length_cons, Nat.pow_succ]
    grind

theorem value_pairUp (done ds : List Nat) :
    value (base * base) (pairUp base done ds) =
      value (base * base) done.reverse + (base * base) ^ done.length * value base ds := by
  fun_induction pairUp base done ds with
  | case1 done => simp [value]
  | case2 done d => simp [value_append, value]
  | case3 done d e ds ih =>
    simp only [ih, List.reverse_cons, value_append, value, List.length_reverse, List.length_cons,
      Nat.pow_succ]
    grind

theorem length_pairUp (done ds : List Nat) :
    (pairUp base done ds).length = done.length + (ds.length + 1) / 2 := by
  fun_induction pairUp base done ds with
  | case1 done | case2 done d => simp
  | case3 done d e ds ih => simp [ih]; omega

/-- The number that digits write, from pairs of pairs. -/
def total (base : Nat) (ds : List Nat) : Nat :=
  match ds with
  | [] => 0
  | [d] => d
  | d :: e :: ds => total (base * base) (pairUp base [] (d :: e :: ds))
termination_by ds.length
decreasing_by simp [length_pairUp]; omega

/-- **Reading by pairs gives the number that the digits write.** -/
theorem total_eq_value (ds : List Nat) : total base ds = value base ds := by
  fun_induction total base ds with
  | case1 => rfl
  | case2 => simp [value]
  | case3 base d e ds ih => simp [ih, value_pairUp, value]

end Judge.Digits
