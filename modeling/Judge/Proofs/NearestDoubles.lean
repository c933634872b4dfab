import Judge.Proofs.Rounding

/-!
# Proofs/NearestDoubles — rounding finds the nearest double

`Nearest q x` says what it is to be the double nearest to a rational number: no other double is
nearer, and if another one is as near, then the mantissa is even.  It speaks of all doubles and not
of the way in which one is found.

Rounding takes the nearest step of the grid, and `NearestStep.nearest` says that nothing off the
grid is nearer.  What is a double already is not changed (`Rounds.eq_of_canonical`).
-/

namespace Judge.Binary64

variable {k m : Nat} {s : Bool} {e f : Int} {q t : ℚ} {x y : Binary64}

/-! ## Doubles -/

/-- **A finite double.** -/
def IsNumber : Binary64 → Prop
  | .finite _ m e => Canonical m e
  | _ => False

/-- The rational number that a finite double is. -/
def toRat : Binary64 → ℚ
  | .finite s m e => signed s m * 2 ^ e
  | _ => 0

/-- The mantissa of a finite double. -/
def mantissa : Binary64 → Nat
  | .finite _ m _ => m
  | _ => 0

/-- **The double nearest to `q`**, the one with the even mantissa if there are two. -/
structure Nearest (q : ℚ) (x : Binary64) : Prop where
  isNumber : x.IsNumber
  close : ∀ y : Binary64, y.IsNumber → |x.toRat - q| ≤ |y.toRat - q|
  even : ∀ y : Binary64, y.IsNumber → y.toRat ≠ x.toRat → |x.toRat - q| = |y.toRat - q| →
    Even x.mantissa

theorem toRat_positive (m : Nat) (e : Int) : (finite false m e).toRat = m * 2 ^ e := by
  simp [toRat, signed]

/-- What is not on the grid around a number lies below it, beyond a step of the grid. -/
theorem Grid.toRat_cases (h : Grid q e) (hy : y.IsNumber) :
    (∃ j : Int, y.toRat = j * 2 ^ e) ∨ 2 ^ (e + 52) ≤ q ∧ y.toRat < 2 ^ (e + 52) := by
  match y, hy with
  | .finite s n f, hy =>
    rcases le_or_gt e f with hle | hlt
    · obtain ⟨j, hj⟩ := Int.eq_ofNat_of_zero_le (sub_nonneg.mpr hle)
      refine .inl ⟨signed s n * 2 ^ j, ?_⟩
      rw [toRat, Int.cast_mul, mul_assoc, Int.cast_pow, Int.cast_ofNat, two_pow_mul]
      congr 2
      omega
    · refine .inr ⟨h.below.resolve_left (hy.low.trans_lt hlt).ne', ?_⟩
      have hsigned : (signed s n : ℚ) < 2 ^ 53 := by
        have hint : signed s n < 2 ^ 53 := by
          have := hy.fits
          unfold signed
          split <;> omega
        exact_mod_cast hint
      calc (signed s n : ℚ) * 2 ^ f < 2 ^ 53 * 2 ^ f := by gcongr
        _ = 2 ^ (f + 53) := two_pow_mul 53 f
        _ ≤ 2 ^ (e + 52) := two_zpow_le_iff.mpr (by omega)

theorem abs_mul_two_zpow_sub (a q : ℚ) (e : Int) :
    |a * 2 ^ e - q| = |a - q / 2 ^ e| * 2 ^ e := by
  have hpos := two_zpow_pos e
  rw [← abs_of_pos hpos, ← abs_mul, abs_of_pos hpos, sub_mul, div_mul_cancel₀ _ hpos.ne']

/-- No integer is nearer, and only if the nearest one is even there may be another as near. -/
theorem NearestStep.abs_le (h : NearestStep t k) (j : Int) :
    |(k : ℚ) - t| ≤ |(j : ℚ) - t| ∧ (j ≠ k → |(k : ℚ) - t| = |(j : ℚ) - t| → Even k) := by
  by_cases hj : j = k
  · subst hj
    exact ⟨le_rfl, fun hne => absurd rfl hne⟩
  have hapart : (1 : ℚ) ≤ |(j : ℚ) - k| := by
    have hint : 1 ≤ |j - k| := Int.one_le_abs (sub_ne_zero.mpr hj)
    exact_mod_cast hint
  have htriangle := abs_sub_le (j : ℚ) t k
  have hclose := h.close
  rw [abs_sub_comm (k : ℚ) t]
  refine ⟨by linarith, fun _ htie => h.even (le_antisymm hclose ?_)⟩
  linarith

/-- **No double is nearer than the nearest step of the grid.** -/
theorem NearestStep.toRat_le (h : NearestStep (q / 2 ^ e) k) (hgrid : Grid q e) (hy : y.IsNumber) :
    |k * 2 ^ e - q| ≤ |y.toRat - q| ∧
      (y.toRat ≠ k * 2 ^ e → |k * 2 ^ e - q| = |y.toRat - q| → Even k) := by
  have hpos := two_zpow_pos e
  rcases hgrid.toRat_cases hy with ⟨j, hj⟩ | ⟨hlow, hlt⟩
  · obtain ⟨hle, htie⟩ := h.abs_le j
    rw [hj, abs_mul_two_zpow_sub, abs_mul_two_zpow_sub]
    refine ⟨mul_le_mul_of_nonneg_right hle hpos.le, fun hne heq => htie ?_ ?_⟩
    · rintro rfl
      exact hne (by norm_num)
    · exact mul_right_cancel₀ hpos.ne' heq
  · -- a step of the grid lies between
    have hstep : |k * 2 ^ e - q| ≤ |(2 : ℚ) ^ (e + 52) - q| := by
      have hle := mul_le_mul_of_nonneg_right (h.abs_le (2 ^ 52)).1 hpos.le
      rw [← abs_mul_two_zpow_sub, ← abs_mul_two_zpow_sub, Int.cast_pow, Int.cast_ofNat,
        two_pow_mul] at hle
      exact hle
    have hfar : |(2 : ℚ) ^ (e + 52) - q| < |y.toRat - q| := by
      rw [abs_of_nonpos (by linarith), abs_of_neg (by linarith)]
      linarith
    exact ⟨hstep.trans hfar.le, fun _ heq => absurd heq (hstep.trans_lt hfar).ne⟩

theorem NearestStep.nearest (h : NearestStep (q / 2 ^ e) k) (hgrid : Grid q e)
    (hm : Canonical m f) (hvalue : (m : ℚ) * 2 ^ f = k * 2 ^ e) (heven : Even k → Even m) :
    Nearest q (.finite false m f) := by
  have hx : (finite false m f).toRat = k * 2 ^ e := (toRat_positive m f).trans hvalue
  refine ⟨hm, fun y hy => ?_, fun y hy hne htie => heven ?_⟩
  · rw [hx]
    exact (h.toRat_le hgrid hy).1
  · rw [hx] at hne htie
    exact (h.toRat_le hgrid hy).2 hne htie

/-! ## What rounding does -/

/-- **What is a double is not changed.** -/
theorem Rounds.eq_of_canonical (h : Rounds s q x) (hm : Canonical m f) (hq : q = m * 2 ^ f) :
    x = .finite s m f := by
  obtain ⟨e, k, hgrid, hstep, hends⟩ := h.exists_step
  obtain rfl := hgrid.unique (hq ▸ hm.grid)
  rw [hq, mul_div_cancel_right₀ _ (two_zpow_pos e).ne'] at hstep
  obtain rfl := hstep.eq_of_natCast
  cases hends with
  | infinite hover =>
    have := hm.high
    have := hm.fits
    omega
  | finite hm' hvalue =>
    obtain ⟨rfl, rfl⟩ := hm'.unique hm hvalue
    rfl

/-- **Rounding finds the nearest double.** -/
theorem Rounds.nearest (h : Rounds false q x) (hq : q < overflowBound) : Nearest q x := by
  obtain ⟨e, k, hgrid, hstep, hends⟩ := h.exists_step
  obtain ⟨m, f, rfl, hm, hvalue, heven⟩ := hends.exists_of_lt hgrid hstep hq
  exact hstep.nearest hgrid hm hvalue heven

end Judge.Binary64
