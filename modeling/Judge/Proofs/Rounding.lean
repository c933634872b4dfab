import Judge.Number.Binary64
import Mathlib.Algebra.Order.Field.Power
import Mathlib.Algebra.Order.Field.Rat
import Mathlib.Tactic.Linarith
import Mathlib.Tactic.NormNum
import Mathlib.Tactic.Positivity
import Mathlib.Tactic.Ring

/-!
# Proofs/Rounding — where rounding leads

Rounding works on a grid: around `q` the doubles are the multiples of `2 ^ e` for the one exponent
with `Grid q e`, and the mantissa is the `NearestStep`.  `Rounds s q x` says that `x` is what the
rational number `q` is rounded to, with the sign `s`, and `Rounds.exists_step` how that is done.

So rounding never crosses a power of two: what is at least `2 ^ a` stays so (`Rounds.of_ge`), what
is at most `2 ^ b` stays so (`Rounds.of_le`).  From `2 ^ 1024` on it is infinite (`Rounds.of_huge`),
and below half of the smallest step it is zero (`Rounds.of_tiny`).
-/

namespace Judge.Binary64

variable {num den n d i k m : Nat} {s : Bool} {a b e e' f : Int} {q t : ℚ} {x : Binary64}

/-! ## The nearest integer -/

/-- **The integer nearest to a number**, the even one if there are two. -/
structure NearestStep (t : ℚ) (k : Nat) : Prop where
  close : |t - k| ≤ 1 / 2
  even : |t - k| = 1 / 2 → Even k

theorem abs_sub_eq_half_iff : |t - k| = 1 / 2 ↔ t = k - 1 / 2 ∨ t = k + 1 / 2 := by
  rw [abs_eq (by norm_num)]
  constructor
  · rintro (h | h)
    · exact .inr (by linarith)
    · exact .inl (by linarith)
  · rintro (h | h)
    · exact .inr (by linarith)
    · exact .inl (by linarith)

theorem nearestStep_iff :
    NearestStep t k ↔
      (k - 1 / 2 ≤ t ∧ t ≤ k + 1 / 2) ∧ (t = k - 1 / 2 ∨ t = k + 1 / 2 → Even k) := by
  have hclose : |t - k| ≤ 1 / 2 ↔ k - 1 / 2 ≤ t ∧ t ≤ k + 1 / 2 := by
    rw [abs_le]
    constructor <;> rintro ⟨h₁, h₂⟩ <;> constructor <;> linarith
  rw [← hclose, ← abs_sub_eq_half_iff]
  exact ⟨fun h => ⟨h.close, h.even⟩, fun h => ⟨h.1, h.2⟩⟩

theorem nearestStep_natCast (k : Nat) : NearestStep k k := by
  constructor <;> norm_num

theorem nearestStep_roundDiv (hd : 0 < d) (n : Nat) : NearestStep (n / d) (roundDiv n d) := by
  have hpos : (0 : ℚ) < d := by exact_mod_cast hd
  have hn : (n : ℚ) = d * (n / d : Nat) + (n % d : Nat) := by
    exact_mod_cast (Nat.div_add_mod n d).symm
  have hsplit : (n : ℚ) / d = (n / d : Nat) + (n % d : Nat) / d := by
    rw [hn, add_div, mul_div_cancel_left₀ _ hpos.ne']
  have hrest : (0 : ℚ) ≤ (n % d : Nat) / d := by positivity
  have hlt : ((n % d : Nat) : ℚ) / d < 1 := by
    rw [div_lt_one hpos]
    exact_mod_cast Nat.mod_lt n hd
  have hless : 2 * (n % d) < d ↔ ((n % d : Nat) : ℚ) / d < 1 / 2 := by
    rw [div_lt_div_iff₀ hpos two_pos, mul_comm, one_mul]
    exact_mod_cast Iff.rfl
  have hmore : d < 2 * (n % d) ↔ 1 / 2 < ((n % d : Nat) : ℚ) / d := by
    rw [div_lt_div_iff₀ two_pos hpos, mul_comm _ (2 : ℚ), one_mul]
    exact_mod_cast Iff.rfl
  rw [hsplit, nearestStep_iff, roundDiv]
  generalize ((n % d : Nat) : ℚ) / d = r at *
  split_ifs with h₁ h₂ heven
  · rw [hless] at h₁
    refine ⟨⟨by linarith, by linarith⟩, ?_⟩
    rintro (h | h) <;> linarith
  · rw [hmore] at h₂
    push_cast
    refine ⟨⟨by linarith, by linarith⟩, ?_⟩
    rintro (h | h) <;> linarith
  · rw [hless] at h₁
    rw [hmore] at h₂
    exact ⟨⟨by linarith, by linarith⟩, fun _ => Nat.even_iff.mpr heven⟩
  · rw [hless] at h₁
    rw [hmore] at h₂
    push_cast
    exact ⟨⟨by linarith, by linarith⟩, fun _ => Nat.even_iff.mpr (by omega)⟩

namespace NearestStep

theorem le_of_le (h : NearestStep t k) (ht : t ≤ i) : k ≤ i := by
  obtain ⟨⟨hlow, -⟩, -⟩ := nearestStep_iff.mp h
  have hlt : (k : ℚ) < i + 1 := by linarith
  exact Nat.lt_succ_iff.mp (by exact_mod_cast hlt)

theorem ge_of_ge (h : NearestStep t k) (ht : i ≤ t) : i ≤ k := by
  obtain ⟨⟨-, hhigh⟩, -⟩ := nearestStep_iff.mp h
  have hlt : (i : ℚ) < k + 1 := by linarith
  exact Nat.lt_succ_iff.mp (by exact_mod_cast hlt)

theorem eq_of_natCast (h : NearestStep i k) : k = i :=
  le_antisymm (h.le_of_le le_rfl) (h.ge_of_ge le_rfl)

end NearestStep

/-! ## The grid around a number -/

theorem two_zpow_pos (e : Int) : (0 : ℚ) < 2 ^ e := zpow_pos (by norm_num) e

theorem two_zpow_le_iff : (2 : ℚ) ^ a ≤ 2 ^ b ↔ a ≤ b := zpow_le_zpow_iff_right₀ (by norm_num)

theorem two_zpow_lt_iff : (2 : ℚ) ^ a < 2 ^ b ↔ a < b := zpow_lt_zpow_iff_right₀ (by norm_num)

theorem two_pow_mul (j : Nat) (e : Int) : (2 : ℚ) ^ j * 2 ^ e = 2 ^ (e + j) := by
  rw [← zpow_natCast, ← zpow_add₀ two_ne_zero, add_comm]

theorem two_pow_le_div_iff (j : Nat) : 2 ^ j ≤ q / 2 ^ e ↔ 2 ^ (e + j) ≤ q := by
  rw [le_div_iff₀ (two_zpow_pos e), two_pow_mul]

theorem two_zpow_le_mul {j : Nat} (h : 2 ^ j ≤ m) (e : Int) : (2 : ℚ) ^ (e + j) ≤ m * 2 ^ e := by
  have hm : (2 : ℚ) ^ j ≤ m := by exact_mod_cast h
  rw [← two_pow_mul]
  gcongr

theorem exists_two_zpow_eq (h : e ≤ a) : ∃ k : Nat, (2 : ℚ) ^ a = k * 2 ^ e := by
  obtain ⟨k, hk⟩ := Int.eq_ofNat_of_zero_le (sub_nonneg.mpr h)
  refine ⟨2 ^ k, ?_⟩
  rw [← sub_add_cancel a e, zpow_add₀ two_ne_zero, hk]
  simp

theorem scaled_pos (hden : den ≠ 0) (e : Int) : 0 < (scaled num den e).2 := by
  unfold scaled
  split
  · exact Nat.mul_pos (Nat.pos_of_ne_zero hden) (Nat.two_pow_pos _)
  · exact Nat.pos_of_ne_zero hden

theorem scaled_ratio (num den : Nat) (e : Int) :
    ((scaled num den e).1 : ℚ) / (scaled num den e).2 = num / den / 2 ^ e := by
  unfold scaled
  split
  · rename_i he
    obtain ⟨k, rfl⟩ := Int.eq_ofNat_of_zero_le he
    simp [div_div]
  · obtain ⟨k, rfl⟩ : ∃ k : Nat, e = -k := ⟨(-e).toNat, by omega⟩
    simp
    ring

/-- A number lies within a factor of two of its power of two. -/
theorem log2_bounds (hn : n ≠ 0) :
    (2 : ℚ) ^ (n.log2 : Int) ≤ n ∧ (n : ℚ) < 2 ^ ((n.log2 : Int) + 1) := by
  constructor
  · rw [zpow_natCast]
    exact_mod_cast Nat.log2_self_le hn
  · have hsucc : (n.log2 : Int) + 1 = ((n.log2 + 1 : Nat) : Int) := rfl
    rw [hsucc, zpow_natCast]
    exact_mod_cast Nat.lt_log2_self

/-- **The power of two below a number.** -/
theorem leading_spec (hnum : num ≠ 0) (hden : den ≠ 0) :
    (2 : ℚ) ^ leading num den ≤ num / den ∧ (num : ℚ) / den < 2 ^ (leading num den + 1) := by
  obtain ⟨hnumLow, hnumHigh⟩ := log2_bounds hnum
  obtain ⟨hdenLow, hdenHigh⟩ := log2_bounds hden
  have hdenPos : (0 : ℚ) < den := by exact_mod_cast Nat.pos_of_ne_zero hden
  have hside : (scaled num den (num.log2 - den.log2)).2 ≤ (scaled num den (num.log2 - den.log2)).1 ↔
      (2 : ℚ) ^ ((num.log2 : Int) - den.log2) ≤ num / den := by
    have hpos : (0 : ℚ) < (scaled num den (num.log2 - den.log2)).2 := by
      exact_mod_cast scaled_pos hden _
    rw [← one_le_div (two_zpow_pos _), ← scaled_ratio, one_le_div hpos, Nat.cast_le]
  unfold leading
  dsimp only
  split
  · rename_i h
    refine ⟨hside.mp h, ?_⟩
    rw [div_lt_iff₀ hdenPos]
    calc (num : ℚ) < 2 ^ ((num.log2 : Int) + 1) := hnumHigh
      _ = 2 ^ ((num.log2 : Int) - den.log2 + 1) * 2 ^ (den.log2 : Int) := by
        rw [← zpow_add₀ two_ne_zero]
        congr 1
        ring
      _ ≤ 2 ^ ((num.log2 : Int) - den.log2 + 1) * den := by gcongr
  · rename_i h
    rw [sub_add_cancel]
    refine ⟨?_, not_le.mp (mt hside.mpr h)⟩
    rw [le_div_iff₀ hdenPos]
    calc (2 : ℚ) ^ ((num.log2 : Int) - den.log2 - 1) * den
        ≤ 2 ^ ((num.log2 : Int) - den.log2 - 1) * 2 ^ ((den.log2 : Int) + 1) := by gcongr
      _ = 2 ^ (num.log2 : Int) := by
        rw [← zpow_add₀ two_ne_zero]
        congr 1
        ring
      _ ≤ num := hnumLow

/-- The exponent of the steps around `num / den`. -/
def gridExponent (num den : Nat) : Int := max (leading num den - 52) minExponent

/-- The step that `num / den` is rounded to. -/
def gridMantissa (num den : Nat) : Nat :=
  roundDiv (scaled num den (gridExponent num den)).1 (scaled num den (gridExponent num den)).2

/-- **The exponent of the doubles around `q`**: with it, `q` has 53 digits before the point, or
fewer if there is no smaller one. -/
structure Grid (q : ℚ) (e : Int) : Prop where
  low : minExponent ≤ e
  above : q < 2 ^ (e + 53)
  below : e = minExponent ∨ 2 ^ (e + 52) ≤ q

theorem Grid.unique (h : Grid q e) (h' : Grid q e') : e = e' := by
  have hle : ∀ {a b : Int}, Grid q a → Grid q b → a ≤ b := by
    intro a b ha hb
    rcases ha.below with rfl | hlow
    · exact hb.low
    · have := two_zpow_lt_iff.mp (hlow.trans_lt hb.above)
      omega
  exact le_antisymm (hle h h') (hle h' h)

theorem grid_gridExponent (hnum : num ≠ 0) (hden : den ≠ 0) :
    Grid (num / den) (gridExponent num den) := by
  obtain ⟨hlow, hhigh⟩ := leading_spec hnum hden
  refine ⟨le_max_right _ _, hhigh.trans_le (two_zpow_le_iff.mpr ?_), ?_⟩
  · unfold gridExponent
    omega
  · rcases le_total (leading num den - 52) minExponent with hle | hle
    · exact .inl (max_eq_right hle)
    · refine .inr ?_
      rwa [gridExponent, max_eq_left hle, sub_add_cancel]

theorem nearestStep_gridMantissa (hden : den ≠ 0) :
    NearestStep (num / den / 2 ^ gridExponent num den) (gridMantissa num den) := by
  rw [← scaled_ratio]
  exact nearestStep_roundDiv (scaled_pos hden _) _

theorem gridMantissa_le_two_pow (hnum : num ≠ 0) (hden : den ≠ 0) :
    gridMantissa num den ≤ 2 ^ 53 := by
  refine (nearestStep_gridMantissa hden).le_of_le ?_
  rw [div_le_iff₀ (two_zpow_pos _), Nat.cast_pow, Nat.cast_ofNat, two_pow_mul]
  exact (grid_gridExponent hnum hden).above.le

/-! ## Doubles -/

/-- **A mantissa and an exponent in the form of doubles**: 53 binary digits, or fewer with the
smallest exponent. -/
structure Canonical (m : Nat) (e : Int) : Prop where
  fits : m < 2 ^ 53
  low : minExponent ≤ e
  high : e ≤ maxExponent
  full : e = minExponent ∨ 2 ^ 52 ≤ m

theorem Canonical.grid (h : Canonical m e) : Grid (m * 2 ^ e) e := by
  refine ⟨h.low, ?_, h.full.imp id fun hfull => ?_⟩
  · refine lt_of_lt_of_eq ?_ (two_pow_mul 53 e)
    have hfits : (m : ℚ) < 2 ^ 53 := by exact_mod_cast h.fits
    gcongr
  · exact two_zpow_le_mul hfull e

theorem Canonical.unique (h : Canonical m e) (h' : Canonical n f)
    (heq : (m : ℚ) * 2 ^ e = n * 2 ^ f) : m = n ∧ e = f := by
  obtain rfl := h.grid.unique (heq ▸ h'.grid)
  exact ⟨by exact_mod_cast mul_right_cancel₀ (two_zpow_pos e).ne' heq, rfl⟩

/-- **What rounding leads to**: the nearest step, or the same number written with the next exponent
when the mantissa is full. -/
theorem ofRatio_cases (hnum : num ≠ 0) (hden : den ≠ 0) (s : Bool) :
    (gridMantissa num den < 2 ^ 53 ∧
      ofRatio s num den = pack s (gridMantissa num den) (gridExponent num den)) ∨
    (gridMantissa num den = 2 ^ 53 ∧
      ofRatio s num den = pack s (2 ^ 52) (gridExponent num den + 1)) := by
  have hofRatio : ofRatio s num den =
      if gridMantissa num den < 2 ^ 53 then pack s (gridMantissa num den) (gridExponent num den)
      else pack s (2 ^ 52) (gridExponent num den + 1) := by
    rw [ofRatio, if_neg hnum]
    rfl
  rcases (gridMantissa_le_two_pow hnum hden).lt_or_eq with hlt | heq
  · exact .inl ⟨hlt, hofRatio.trans (if_pos hlt)⟩
  · exact .inr ⟨heq, hofRatio.trans (if_neg (by omega))⟩

theorem pack_cases (s : Bool) (m : Nat) (e : Int) :
    pack s m e = .infinite s ∧ maxExponent < e ∨ pack s m e = .finite s m e ∧ e ≤ maxExponent := by
  unfold pack
  split
  · exact .inl ⟨rfl, by assumption⟩
  · exact .inr ⟨rfl, by omega⟩

/-- **How a rounding ends**: beyond the grid, or with the nearest step in the form of a double. -/
inductive Ends (s : Bool) (e : Int) (k : Nat) : Binary64 → Prop
  | infinite : maxExponent < e ∨ e = maxExponent ∧ k = 2 ^ 53 → Ends s e k (.infinite s)
  | finite {m : Nat} {f : Int} : Canonical m f → (m : ℚ) * 2 ^ f = k * 2 ^ e →
      (Even k → Even m) → Ends s e k (.finite s m f)

theorem NearestStep.ge_of_grid (h : NearestStep (q / 2 ^ e) k) (hgrid : Grid q e) :
    e = minExponent ∨ 2 ^ 52 ≤ k := by
  refine hgrid.below.imp id fun hlow => h.ge_of_ge ?_
  exact (two_pow_le_div_iff 52).mpr hlow

theorem ends_ofRatio (hnum : num ≠ 0) (hden : den ≠ 0) (s : Bool) :
    Ends s (gridExponent num den) (gridMantissa num den) (ofRatio s num den) := by
  have hgrid := grid_gridExponent hnum hden
  have hfull := (nearestStep_gridMantissa hden).ge_of_grid hgrid
  rcases ofRatio_cases hnum hden s with ⟨hlt, heq⟩ | ⟨hcarry, heq⟩
  · rcases pack_cases s (gridMantissa num den) (gridExponent num den) with ⟨h, he⟩ | ⟨h, he⟩
    · rw [heq, h]
      exact .infinite (.inl he)
    · rw [heq, h]
      exact .finite ⟨hlt, hgrid.low, he, hfull⟩ rfl id
  · rcases pack_cases s (2 ^ 52) (gridExponent num den + 1) with ⟨h, he⟩ | ⟨h, he⟩
    · rw [heq, h]
      refine .infinite ?_
      rw [hcarry]
      omega
    · rw [heq, h]
      have hlow := hgrid.low
      refine .finite ⟨by norm_num, by omega, he, .inr le_rfl⟩ ?_ fun _ => by decide
      rw [hcarry, zpow_add_one₀ two_ne_zero]
      ring

/-! ## Rounding a rational number -/

/-- **`x` is what `q` is rounded to**, with the sign `s`. -/
def Rounds (s : Bool) (q : ℚ) (x : Binary64) : Prop :=
  ∃ num den : Nat, den ≠ 0 ∧ (num : ℚ) / den = q ∧ x = ofRatio s num den

theorem rounds_ofDyadic (s : Bool) (n : Nat) (e : Int) : Rounds s (n * 2 ^ e) (ofDyadic s n e) := by
  unfold ofDyadic
  split
  · rename_i he
    obtain ⟨k, rfl⟩ := Int.eq_ofNat_of_zero_le he
    exact ⟨_, _, one_ne_zero, by simp, rfl⟩
  · obtain ⟨k, rfl⟩ : ∃ k : Nat, e = -k := ⟨(-e).toNat, by omega⟩
    exact ⟨_, _, (Nat.two_pow_pos _).ne', by simp [div_eq_mul_inv], rfl⟩

/-- **Rounding takes the nearest step of the grid.** -/
theorem Rounds.exists_step (h : Rounds s q x) :
    ∃ e k, Grid q e ∧ NearestStep (q / 2 ^ e) k ∧ Ends s e k x := by
  obtain ⟨num, den, hden, rfl, rfl⟩ := h
  by_cases hnum : num = 0
  · subst hnum
    refine ⟨minExponent, 0, ⟨le_rfl, ?_, .inl rfl⟩, ?_, ?_⟩
    · simpa using two_zpow_pos _
    · simpa using nearestStep_natCast 0
    · rw [ofRatio, if_pos rfl]
      exact .finite ⟨by decide, by decide, by decide, .inl rfl⟩ rfl id
  · exact ⟨_, _, grid_gridExponent hnum hden, nearestStep_gridMantissa hden,
      ends_ofRatio hnum hden s⟩

/-! ## Where the numbers end -/

/-- **The least number that is rounded to an infinity**: half a step beyond the greatest double. -/
def overflowBound : ℚ := (2 ^ 54 - 1) * 2 ^ (970 : Int)

theorem overflowBound_lt : overflowBound < 2 ^ (1024 : Int) := by
  refine lt_of_lt_of_eq ?_ (two_pow_mul 54 970)
  unfold overflowBound
  gcongr
  norm_num

theorem two_zpow_lt_overflowBound (h : e ≤ maxPower) : 2 ^ e < overflowBound := by
  refine (two_zpow_le_iff.mpr h).trans_lt ?_
  refine (two_pow_mul 53 970).symm.trans_lt ?_
  unfold overflowBound
  gcongr
  norm_num

theorem Canonical.lt_overflowBound (h : Canonical m e) : (m : ℚ) * 2 ^ e < overflowBound := by
  have hfits : (m : ℚ) ≤ 2 ^ 53 - 1 := by
    have : (m : ℚ) + 1 ≤ 2 ^ 53 := by exact_mod_cast h.fits
    linarith
  have hdouble : (2 : ℚ) ^ maxExponent = 2 ^ (970 : Int) * 2 := zpow_add_one₀ two_ne_zero 970
  calc (m : ℚ) * 2 ^ e ≤ (2 ^ 53 - 1) * 2 ^ maxExponent :=
        mul_le_mul hfits (two_zpow_le_iff.mpr h.high) (two_zpow_pos e).le (by norm_num)
    _ < overflowBound := by
      rw [hdouble, overflowBound]
      have := two_zpow_pos 970
      generalize (2 : ℚ) ^ (970 : Int) = p at *
      linarith

/-- Below the bound a rounding ends with a double. -/
theorem Ends.exists_of_lt (h : Ends s e k x) (hgrid : Grid q e) (hstep : NearestStep (q / 2 ^ e) k)
    (hq : q < overflowBound) : ∃ m f, x = .finite s m f ∧ Canonical m f ∧
      (m : ℚ) * 2 ^ f = k * 2 ^ e ∧ (Even k → Even m) := by
  cases h with
  | finite hm hvalue heven => exact ⟨_, _, rfl, hm, hvalue, heven⟩
  | infinite hover =>
    exfalso
    rcases hover with hover | ⟨rfl, rfl⟩
    · have hlow := hgrid.below.resolve_left (by simp only [maxExponent, minExponent] at *; omega)
      have hpower : (2 : ℚ) ^ (1024 : Int) ≤ 2 ^ (e + 52) :=
        two_zpow_le_iff.mpr (by simp only [maxExponent] at hover; omega)
      linarith [overflowBound_lt]
    · obtain ⟨⟨hle, -⟩, -⟩ := nearestStep_iff.mp hstep
      rw [le_div_iff₀ (two_zpow_pos _)] at hle
      have hbound : (((2 ^ 53 : Nat) : ℚ) - 1 / 2) * 2 ^ maxExponent = overflowBound := by
        have hdouble : (2 : ℚ) ^ maxExponent = 2 ^ (970 : Int) * 2 := zpow_add_one₀ two_ne_zero 970
        rw [overflowBound, hdouble]
        generalize (2 : ℚ) ^ (970 : Int) = p
        ring
      linarith

/-! ## What rounding does not cross -/

/-- The least power of two from which on doubles have 53 digits. -/
def normalExponent : Int := minExponent + 52

theorem canonical_subnormal (hk : k < 2 ^ 53) : Canonical k minExponent :=
  ⟨hk, le_rfl, by decide, .inl rfl⟩

namespace Rounds

/-- What is not below a power of two stays so. -/
theorem of_ge (h : Rounds s q x) (hq : 2 ^ a ≤ q) (ha : minExponent ≤ a) :
    x = .infinite s ∨ ∃ (m : Nat) (e : Int), x = .finite s m e ∧ (2 : ℚ) ^ a ≤ m * 2 ^ e := by
  obtain ⟨e, k, hgrid, hstep, hends⟩ := h.exists_step
  have hle : (2 : ℚ) ^ a ≤ k * 2 ^ e := by
    rcases le_or_gt e a with hle | hlt
    · -- the power is a step of the grid
      obtain ⟨i, hi⟩ := exists_two_zpow_eq hle
      have hik : i ≤ k := hstep.ge_of_ge (by rwa [le_div_iff₀ (two_zpow_pos e), ← hi])
      rw [hi]
      gcongr
    · -- the power is smaller than a step, and the number is not
      have hfull := (hstep.ge_of_grid hgrid).resolve_left (ha.trans_lt hlt).ne'
      have hone : 1 ≤ k := le_trans (by norm_num) hfull
      exact (two_zpow_le_iff.mpr hlt.le).trans
        (le_mul_of_one_le_left (two_zpow_pos e).le (by exact_mod_cast hone))
  cases hends with
  | infinite => exact .inl rfl
  | finite _ hvalue => exact .inr ⟨_, _, rfl, hvalue ▸ hle⟩

/-- What is not above a power of two that is a double stays so. -/
theorem of_le (h : Rounds s q x) (hq : q ≤ 2 ^ b) (hlow : minExponent ≤ b) (hhigh : b ≤ maxPower) :
    ∃ (m : Nat) (e : Int), x = .finite s m e ∧ (m : ℚ) * 2 ^ e ≤ 2 ^ b := by
  obtain ⟨e, k, hgrid, hstep, hends⟩ := h.exists_step
  have hle : e ≤ b := by
    rcases hgrid.below with rfl | hbelow
    · exact hlow
    · have := two_zpow_le_iff.mp (hbelow.trans hq)
      omega
  obtain ⟨m, f, rfl, -, hvalue, -⟩ :=
    hends.exists_of_lt hgrid hstep (hq.trans_lt (two_zpow_lt_overflowBound hhigh))
  refine ⟨m, f, rfl, ?_⟩
  obtain ⟨i, hi⟩ := exists_two_zpow_eq hle
  have hki : k ≤ i := hstep.le_of_le (by rwa [div_le_iff₀ (two_zpow_pos e), ← hi])
  rw [hvalue, hi]
  gcongr

theorem of_huge (h : Rounds s q x) (hq : 2 ^ (maxPower + 1) ≤ q) : x = .infinite s := by
  obtain ⟨e, k, hgrid, hstep, hends⟩ := h.exists_step
  have hbeyond : maxExponent < e := by
    have := two_zpow_lt_iff.mp (hq.trans_lt hgrid.above)
    simp only [maxExponent, maxPower] at *
    omega
  cases hends with
  | infinite => rfl
  | @finite m f hm hvalue =>
    have hfull := (hstep.ge_of_grid hgrid).resolve_left (by
      simp only [maxExponent, minExponent] at *
      omega)
    have hpower : (2 : ℚ) ^ (e + 52) < 2 ^ (f + 53) := by
      calc (2 : ℚ) ^ (e + 52) ≤ k * 2 ^ e := two_zpow_le_mul hfull e
        _ = m * 2 ^ f := hvalue.symm
        _ < 2 ^ (f + 53) := hm.grid.above
    have := two_zpow_lt_iff.mp hpower
    have := hm.high
    omega

/-- Near zero rounding takes the nearest multiple of the smallest double. -/
theorem exists_subnormal (h : Rounds s q x) (hq : q ≤ 2 ^ normalExponent) :
    ∃ k ≤ 2 ^ 52, x = .finite s k minExponent ∧ NearestStep (q / 2 ^ minExponent) k := by
  obtain ⟨e, k, hgrid, hstep, hends⟩ := h.exists_step
  have hsmall : Grid q minExponent := by
    refine ⟨le_rfl, hq.trans_lt (two_zpow_lt_iff.mpr ?_), .inl rfl⟩
    unfold normalExponent
    omega
  obtain rfl := hgrid.unique hsmall
  have hk : k ≤ 2 ^ 52 := hstep.le_of_le (by
    rw [div_le_iff₀ (two_zpow_pos _), Nat.cast_pow, Nat.cast_ofNat, two_pow_mul]
    exact hq)
  refine ⟨k, hk, ?_, hstep⟩
  cases hends with
  | infinite hover =>
    simp only [maxExponent, minExponent] at hover
    omega
  | finite hm hvalue =>
    obtain ⟨rfl, rfl⟩ := hm.unique (canonical_subnormal (by omega)) hvalue
    rfl

/-- Below half of the smallest step all is zero. -/
theorem of_tiny (h : Rounds s q x) (hq : q < 2 ^ (minExponent - 1)) :
    x = .finite s 0 minExponent := by
  obtain ⟨k, -, rfl, hstep⟩ :=
    h.exists_subnormal (hq.le.trans (two_zpow_le_iff.mpr (by decide)))
  rw [zpow_sub_one₀ two_ne_zero, ← div_lt_iff₀' (two_zpow_pos _)] at hq
  have hzero : (k : ℚ) < 1 := by linarith [(nearestStep_iff.mp hstep).1.1]
  obtain rfl : k = 0 := Nat.lt_one_iff.mp (by exact_mod_cast hzero)
  rfl

theorem ne_nan (h : Rounds s q x) : x ≠ .nan := by
  obtain ⟨e, k, -, -, hends⟩ := h.exists_step
  cases hends <;> simp

end Rounds

/-! ## Numbers compared with powers of two -/

variable {k : Int}

/-- **A positive number that is not below `2 ^ a`.** -/
def AtLeast (a : Int) (x : Binary64) : Prop :=
  ∃ (m : Nat) (e : Int), x = .finite false m e ∧ (2 : ℚ) ^ a ≤ m * 2 ^ e

/-- **A number that is not above `2 ^ b`**, perhaps zero. -/
def AtMost (b : Int) (x : Binary64) : Prop :=
  ∃ (m : Nat) (e : Int), x = .finite false m e ∧ (m : ℚ) * 2 ^ e ≤ 2 ^ b

theorem AtLeast.isFinite (h : x.AtLeast a) : x.isFinite = true := by
  obtain ⟨m, e, rfl, -⟩ := h
  rfl

theorem AtLeast.isZero (h : x.AtLeast a) : x.isZero = false := by
  obtain ⟨m, e, rfl, hlow⟩ := h
  refine beq_eq_false_iff_ne.mpr ?_
  rintro rfl
  rw [Nat.cast_zero, zero_mul] at hlow
  exact (two_zpow_pos a).not_ge hlow

/-- Multiplication by a power of two that is a double rounds once. -/
theorem rounds_mulPow2 (hlow : -maxPower ≤ k) (hhigh : k ≤ maxPower) (s : Bool) (m : Nat)
    (e : Int) : Rounds s (m * 2 ^ e * 2 ^ k) (mulPow2 k (.finite s m e)) := by
  rw [mulPow2, if_neg (by omega), if_neg (by omega), mul_assoc, ← zpow_add₀ two_ne_zero]
  exact rounds_ofDyadic s m (e + k)

section Multiplied

variable (hlow : -maxPower ≤ k) (hhigh : k ≤ maxPower)
include hlow hhigh

theorem AtLeast.rounds (h : x.AtLeast a) :
    ∃ q : ℚ, 2 ^ (a + k) ≤ q ∧ Rounds false q (x.mulPow2 k) := by
  obtain ⟨m, e, rfl, hle⟩ := h
  refine ⟨m * 2 ^ e * 2 ^ k, ?_, rounds_mulPow2 hlow hhigh false m e⟩
  rw [zpow_add₀ two_ne_zero]
  gcongr

theorem AtMost.rounds (h : x.AtMost b) :
    ∃ q : ℚ, q ≤ 2 ^ (b + k) ∧ Rounds false q (x.mulPow2 k) := by
  obtain ⟨m, e, rfl, hle⟩ := h
  refine ⟨m * 2 ^ e * 2 ^ k, ?_, rounds_mulPow2 hlow hhigh false m e⟩
  rw [zpow_add₀ two_ne_zero]
  gcongr

theorem AtLeast.mulPow2 (h : x.AtLeast a) (hak : minExponent ≤ a + k) :
    x.mulPow2 k = .infinite false ∨ (x.mulPow2 k).AtLeast (a + k) := by
  obtain ⟨q, hq, hrounds⟩ := h.rounds hlow hhigh
  exact hrounds.of_ge hq hak

theorem AtLeast.mulPow2_huge (h : x.AtLeast a) (hak : maxPower < a + k) :
    x.mulPow2 k = .infinite false := by
  obtain ⟨q, hq, hrounds⟩ := h.rounds hlow hhigh
  exact hrounds.of_huge ((two_zpow_le_iff.mpr hak).trans hq)

theorem AtMost.mulPow2 (h : x.AtMost b) (hbk : minExponent ≤ b + k) (hbk' : b + k ≤ maxPower) :
    (x.mulPow2 k).AtMost (b + k) := by
  obtain ⟨q, hq, hrounds⟩ := h.rounds hlow hhigh
  exact hrounds.of_le hq hbk hbk'

theorem AtMost.mulPow2_tiny (h : x.AtMost b) (hbk : b + k < minExponent - 1) :
    x.mulPow2 k = .zero := by
  obtain ⟨q, hq, hrounds⟩ := h.rounds hlow hhigh
  exact hrounds.of_tiny (hq.trans_lt (two_zpow_lt_iff.mpr hbk))

theorem AtLeast.mulPow2_ne_nan (h : x.AtLeast a) : x.mulPow2 k ≠ .nan := by
  obtain ⟨q, -, hrounds⟩ := h.rounds hlow hhigh
  exact hrounds.ne_nan

end Multiplied

theorem rounds_ofNat (n : Nat) : Rounds false n (ofNat n) := ⟨n, 1, one_ne_zero, by simp, rfl⟩

theorem atMost_ofNat (h : n ≤ 2 ^ d) (hd : d ≤ 1023) : (ofNat n).AtMost d := by
  refine (rounds_ofNat n).of_le ?_ ?_ ?_
  · rw [zpow_natCast]
    exact_mod_cast h
  · simp only [minExponent]
    omega
  · simp only [maxPower]
    omega

theorem atLeast_ofNat (h : 2 ^ d ≤ n) (hfinite : (ofNat n).isFinite = true) :
    (ofNat n).AtLeast d := by
  have hge := (rounds_ofNat n).of_ge (a := d) (by rw [zpow_natCast]; exact_mod_cast h)
    (by simp only [minExponent]; omega)
  rcases hge with hinf | hge
  · rw [hinf] at hfinite
    cases hfinite
  · exact hge

end Judge.Binary64
