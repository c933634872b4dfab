import Judge.Proofs.NearestDoubles

/-!
# Proofs/TwoRoundings — rounding a number that was rounded before

`Shortens q w` says that `w` is `q` rounded to 53 binary digits, whatever its size.  Digits that are
dropped beforehand do no harm if one odd digit is left in their place (`Shortens.congr`).

Where doubles have 53 digits, rounding `w` again changes nothing.  Near zero they have fewer, and the
second rounding goes wrong if the first one led to the middle between two doubles from the side that
the even one is not on.  `Misleads q` says so, and `nearest_iff_not_misleads` that nothing else
goes wrong.
-/

namespace Judge.Binary64

variable {i k k' m n : Nat} {s : Bool} {a e f g : Int} {q q' t t' u w w' : ℚ} {x : Binary64}

/-! ## Nearest integers of two numbers -/

theorem NearestStep.unique (h : NearestStep t k) (h' : NearestStep t k') : k = k' := by
  have hle : ∀ {a b : Nat}, NearestStep t a → NearestStep t b → a ≤ b := by
    intro a b ha hb
    obtain ⟨⟨halow, -⟩, haeven⟩ := nearestStep_iff.mp ha
    obtain ⟨⟨-, hbhigh⟩, hbeven⟩ := nearestStep_iff.mp hb
    by_contra! hlt
    have hsucc : a = b + 1 := by
      have hle : (a : ℚ) ≤ b + 1 := by linarith
      have : a ≤ b + 1 := by exact_mod_cast hle
      omega
    -- then the number lies in the middle, and one of the two is odd
    subst hsucc
    push_cast at halow haeven
    have hodd := haeven (.inl (by linarith))
    have heven := hbeven (.inr (by linarith))
    rw [Nat.even_iff] at hodd heven
    omega
  exact le_antisymm (hle h h') (hle h' h)

/-- **Nearest integers after a rounding**: if `u` is on no other side of a middle than `t`, though it
may have come to lie on it, then the integer nearest to `u` is nearest to `t` unless `u` lies on a
middle and the even neighbour is on the other side. -/
theorem NearestStep.iff_of_sides (h : NearestStep u k) (ht : 0 ≤ t)
    (hside : ∀ i : Nat, (t ≤ i + 1 / 2 → u ≤ i + 1 / 2) ∧ (i + 1 / 2 ≤ t → i + 1 / 2 ≤ u)) :
    NearestStep t k ↔
      ¬ ∃ i : Nat, u = i + 1 / 2 ∧ (t < i + 1 / 2 ∧ Odd i ∨ i + 1 / 2 < t ∧ Even i) := by
  obtain ⟨⟨hlow, hhigh⟩, heven⟩ := nearestStep_iff.mp h
  have hmiddle : ∀ i : Nat, t = i + 1 / 2 → u = i + 1 / 2 := fun i hi =>
    le_antisymm ((hside i).1 hi.le) ((hside i).2 hi.ge)
  constructor
  · rintro hk ⟨i, hi, hcross⟩
    obtain ⟨⟨htlow, hthigh⟩, -⟩ := nearestStep_iff.mp hk
    have hik : i ≤ k := by
      have hlt : (i : ℚ) < k + 1 := by linarith
      exact Nat.lt_succ_iff.mp (by exact_mod_cast hlt)
    have hki : k ≤ i + 1 := by
      have hle : (k : ℚ) ≤ i + 1 := by linarith
      exact_mod_cast hle
    rcases hcross with ⟨hless, hodd⟩ | ⟨hmore, hieven⟩
    · obtain rfl : k = i := by
        by_contra hne
        obtain rfl : k = i + 1 := by omega
        push_cast at htlow
        linarith
      exact Nat.not_even_iff_odd.mpr hodd (heven (.inr hi))
    · obtain rfl : k = i + 1 := by
        by_contra hne
        obtain rfl : k = i := by omega
        linarith
      have hsucc := heven (.inl (by push_cast; linarith))
      exact Nat.not_even_iff_odd.mpr hieven.add_one hsucc
  · intro hno
    have hupper : t ≤ k + 1 / 2 := by
      by_contra! hlt
      have hu : u = k + 1 / 2 := le_antisymm hhigh ((hside k).2 hlt.le)
      exact hno ⟨k, hu, .inr ⟨hlt, heven (.inr hu)⟩⟩
    rw [nearestStep_iff]
    cases k with
    | zero => exact ⟨⟨by push_cast; linarith, hupper⟩, fun _ => Even.zero⟩
    | succ j =>
      have hbelow : ((j + 1 : Nat) : ℚ) - 1 / 2 = j + 1 / 2 := by
        push_cast
        ring
      rw [hbelow] at hlow heven ⊢
      refine ⟨⟨?_, hupper⟩, ?_⟩
      · by_contra! hlt
        have hu : u = j + 1 / 2 := le_antisymm ((hside j).1 hlt.le) hlow
        refine hno ⟨j, hu, .inl ⟨hlt, ?_⟩⟩
        have := heven (.inl hu)
        rw [Nat.even_iff] at this
        exact Nat.odd_iff.mpr (by omega)
      · rintro (h | h)
        · exact heven (.inl (hmiddle j h))
        · exact heven (.inr (hmiddle _ h))

/-- Numbers on the same side of every middle have the same nearest integer. -/
theorem NearestStep.congr (h : NearestStep t k) (ht' : 0 ≤ t')
    (hside : ∀ i : Nat, (t < i + 1 / 2 ↔ t' < i + 1 / 2) ∧ (i + 1 / 2 < t ↔ i + 1 / 2 < t')) :
    NearestStep t' k := by
  refine (h.iff_of_sides ht' fun i => ⟨fun hle => ?_, fun hle => ?_⟩).mpr ?_
  · exact not_lt.mp (mt (hside i).2.mp hle.not_gt)
  · exact not_lt.mp (mt (hside i).1.mp hle.not_gt)
  · -- a number on a middle has only that middle beside it
    rintro ⟨i, hi, ⟨hless, -⟩ | ⟨hmore, -⟩⟩
    · exact ((hside i).1.mpr hless).ne hi
    · exact ((hside i).2.mpr hmore).ne' hi

/-! ## Rounding to 53 digits -/

/-- **`w` is `q` rounded to 53 binary digits**, however small or large it is. -/
def Shortens (q w : ℚ) : Prop :=
  ∃ (e : Int) (k : Nat), 2 ^ (e + 52) ≤ q ∧ q < 2 ^ (e + 53) ∧ NearestStep (q / 2 ^ e) k ∧
    w = k * 2 ^ e

namespace Shortens

theorem unique (h : Shortens q w) (h' : Shortens q w') : w = w' := by
  obtain ⟨e, k, hlow, hhigh, hstep, rfl⟩ := h
  obtain ⟨f, k', hlow', hhigh', hstep', rfl⟩ := h'
  have h₁ := two_zpow_lt_iff.mp (hlow.trans_lt hhigh')
  have h₂ := two_zpow_lt_iff.mp (hlow'.trans_lt hhigh)
  obtain rfl : e = f := by omega
  rw [hstep.unique hstep']

theorem pos (h : Shortens q w) : 0 < q := by
  obtain ⟨e, -, hlow, -⟩ := h
  exact (two_zpow_pos _).trans_le hlow

/-- Powers of two are only a matter of place. -/
theorem scale (h : Shortens q w) (a : Int) : Shortens (q * 2 ^ a) (w * 2 ^ a) := by
  obtain ⟨e, k, hlow, hhigh, hstep, rfl⟩ := h
  have hpos := two_zpow_pos a
  refine ⟨e + a, k, ?_, ?_, ?_, ?_⟩
  · calc (2 : ℚ) ^ (e + a + 52) = 2 ^ (e + 52) * 2 ^ a := by
          rw [← zpow_add₀ two_ne_zero]
          congr 1
          ring
      _ ≤ q * 2 ^ a := by gcongr
  · calc q * 2 ^ a < 2 ^ (e + 53) * 2 ^ a := by gcongr
      _ = 2 ^ (e + a + 53) := by
          rw [← zpow_add₀ two_ne_zero]
          congr 1
          ring
  · rwa [zpow_add₀ two_ne_zero, mul_div_mul_right _ _ hpos.ne']
  · rw [zpow_add₀ two_ne_zero, mul_assoc]

/-- A number of 53 digits that is not below the power of two of a grid is on that grid. -/
theorem exists_step_of_digits (hn : n < 2 ^ 53) (h : (2 : ℚ) ^ (e + 52) ≤ n * 2 ^ g) :
    ∃ i : Nat, (n : ℚ) * 2 ^ g = i * 2 ^ e := by
  have hle : e ≤ g := by
    have hn' : (n : ℚ) < 2 ^ 53 := by exact_mod_cast hn
    have hlt : (2 : ℚ) ^ (e + 52) < 2 ^ (g + 53) := by
      calc (2 : ℚ) ^ (e + 52) ≤ n * 2 ^ g := h
        _ < 2 ^ 53 * 2 ^ g := by gcongr
        _ = 2 ^ (g + 53) := two_pow_mul 53 g
    have := two_zpow_lt_iff.mp hlt
    omega
  obtain ⟨j, hj⟩ := exists_two_zpow_eq hle
  exact ⟨n * j, by rw [hj]; push_cast; ring⟩

/-- Rounding never crosses a number of 53 digits, upwards … -/
theorem le_of_le (h : Shortens q w) (hn : n < 2 ^ 53) (hq : q ≤ n * 2 ^ g) : w ≤ n * 2 ^ g := by
  obtain ⟨e, k, hlow, hhigh, hstep, rfl⟩ := h
  obtain ⟨i, hi⟩ := exists_step_of_digits hn (hlow.trans hq)
  have hle : k ≤ i := hstep.le_of_le (by rwa [div_le_iff₀ (two_zpow_pos e), ← hi])
  rw [hi]
  gcongr

theorem ge_of_ge (h : Shortens q w) (hn : n < 2 ^ 53) (hq : n * 2 ^ g ≤ q) : n * 2 ^ g ≤ w := by
  obtain ⟨e, k, hlow, hhigh, hstep, rfl⟩ := h
  rcases le_total ((2 : ℚ) ^ (e + 52)) (n * 2 ^ g) with hge | hle
  · obtain ⟨i, hi⟩ := exists_step_of_digits hn hge
    have hle : i ≤ k := hstep.ge_of_ge (by rwa [le_div_iff₀ (two_zpow_pos e), ← hi])
    rw [hi]
    gcongr
  · have hfull : 2 ^ 52 ≤ k := hstep.ge_of_ge (by exact (two_pow_le_div_iff 52).mpr hlow)
    exact hle.trans (two_zpow_le_mul hfull e)

/-- **Dropped digits do no harm** as long as no even number is crossed: from `2 ^ 54` on, the numbers
of 53 digits and the middles between them are all even. -/
theorem congr (h : Shortens q w) (hq : 2 ^ 54 ≤ q) (hq' : 0 ≤ q')
    (hside : ∀ i : Nat, Even i → (q < i ↔ q' < i) ∧ (i < q ↔ i < q')) : Shortens q' w := by
  obtain ⟨e, k, hlow, hhigh, hstep, rfl⟩ := h
  obtain ⟨j, rfl⟩ : ∃ j : Nat, e = j + 2 := by
    have hlt : (2 : ℚ) ^ (54 : Int) < 2 ^ (e + 53) := hq.trans_lt hhigh
    have := two_zpow_lt_iff.mp hlt
    exact ⟨(e - 2).toNat, by omega⟩
  have hpos := two_zpow_pos ((j : Int) + 2)
  have hunit : (2 : ℚ) ^ ((j : Int) + 2) = ((2 * (2 * 2 ^ j) : Nat) : ℚ) := by
    rw [zpow_add₀ two_ne_zero, zpow_natCast]
    push_cast
    ring
  have hpower : ∀ l : Nat, (2 : ℚ) ^ ((j : Int) + 2 + l) = ((2 * (2 ^ l * (2 * 2 ^ j)) : Nat) : ℚ) :=
    fun l => by
      rw [← two_pow_mul, hunit]
      push_cast
      ring
  have hmiddle : ∀ i : Nat, (i + 1 / 2 : ℚ) =
      ((2 * ((2 * i + 1) * 2 ^ j) : Nat) : ℚ) / 2 ^ ((j : Int) + 2) := fun i => by
    rw [eq_div_iff hpos.ne', hunit]
    push_cast
    ring
  have hbottom : (2 : ℚ) ^ ((j : Int) + 2 + 52) = _ := hpower 52
  have htop : (2 : ℚ) ^ ((j : Int) + 2 + 53) = _ := hpower 53
  refine ⟨j + 2, k, ?_, ?_, hstep.congr (by positivity) fun i => ?_, rfl⟩
  · rw [hbottom] at hlow ⊢
    exact not_lt.mp (mt (hside _ (even_two_mul _)).1.mpr (not_lt.mpr hlow))
  · rw [htop] at hhigh ⊢
    exact (hside _ (even_two_mul _)).1.mp hhigh
  · rw [hmiddle i]
    simp only [div_lt_div_iff_of_pos_right hpos]
    exact hside _ (even_two_mul _)

end Shortens

/-! ## Rounding twice -/

theorem exists_rounds (s : Bool) (hq : 0 ≤ q) : ∃ x, Rounds s q x := by
  refine ⟨_, q.num.toNat, q.den, q.den_nz, ?_, rfl⟩
  have hnum : ((q.num.toNat : Int) : ℚ) = q.num := by rw [Int.toNat_of_nonneg (Rat.num_nonneg.mpr hq)]
  rw [← Int.cast_natCast q.num.toNat, hnum, Rat.num_div_den]

/-- **Where doubles have 53 digits**, rounding is rounding to 53 digits. -/
theorem Rounds.exists_shortens (h : Rounds s q x) (hlow : 2 ^ normalExponent ≤ q)
    (hhigh : q < overflowBound) :
    ∃ m f, x = .finite s m f ∧ Canonical m f ∧ Shortens q (m * 2 ^ f) := by
  obtain ⟨e, k, hgrid, hstep, hends⟩ := h.exists_step
  obtain ⟨m, f, rfl, hm, hvalue, -⟩ := hends.exists_of_lt hgrid hstep hhigh
  refine ⟨m, f, rfl, hm, e, k, ?_, hgrid.above, hstep, hvalue⟩
  rcases hgrid.below with rfl | hbelow
  · exact hlow
  · exact hbelow

/-- **A number between two doubles near zero**, in the middle. -/
def middle (k : Nat) : ℚ := (k + 1 / 2) * 2 ^ minExponent

/-- **The first rounding misleads the second one**: it leads to the middle between two doubles from
the side that the even one is not on. -/
def Misleads (q : ℚ) : Prop :=
  ∃ k : Nat, Shortens q (middle k) ∧ (q < middle k ∧ Odd k ∨ middle k < q ∧ Even k)

/-! ## Near zero -/

theorem nearestStep_of_neighbours (ht : 0 ≤ t)
    (h : ∀ i : Nat, i ≤ k + 1 → |(k : ℚ) - t| ≤ |(i : ℚ) - t| ∧
      (i ≠ k → |(k : ℚ) - t| = |(i : ℚ) - t| → Even k)) : NearestStep t k := by
  obtain ⟨habove, hevenAbove⟩ := h (k + 1) le_rfl
  rw [← sq_le_sq] at habove
  rw [← sq_eq_sq_iff_abs_eq_abs] at hevenAbove
  push_cast at habove hevenAbove
  have hupper : t ≤ k + 1 / 2 := by linarith
  rw [nearestStep_iff]
  cases k with
  | zero => exact ⟨⟨by push_cast; linarith, hupper⟩, fun _ => Even.zero⟩
  | succ j =>
    obtain ⟨hbelow, hevenBelow⟩ := h j (by omega)
    rw [← sq_le_sq] at hbelow
    rw [← sq_eq_sq_iff_abs_eq_abs] at hevenBelow
    push_cast at *
    refine ⟨⟨by linarith, hupper⟩, ?_⟩
    rintro (rfl | rfl)
    · exact hevenBelow (by omega) (by ring)
    · exact hevenAbove (by omega) (by ring)

/-- Near zero, the nearest double is the nearest multiple of the smallest one. -/
theorem nearest_subnormal_iff (hq : 0 ≤ q) (hlt : q < 2 ^ normalExponent) (hk : k ≤ 2 ^ 52) :
    Nearest q (.finite false k minExponent) ↔ NearestStep (q / 2 ^ minExponent) k := by
  have hpos := two_zpow_pos minExponent
  constructor
  · intro h
    refine nearestStep_of_neighbours (by positivity) fun i hi => ?_
    have hnumber : (finite false i minExponent).IsNumber := canonical_subnormal (by omega)
    have hclose := h.close _ hnumber
    have heven := h.even _ hnumber
    rw [toRat_positive, toRat_positive, abs_mul_two_zpow_sub, abs_mul_two_zpow_sub] at hclose heven
    refine ⟨le_of_mul_le_mul_right hclose hpos, fun hne htie => heven ?_ (by rw [htie])⟩
    intro heq
    exact hne (by exact_mod_cast mul_right_cancel₀ hpos.ne' heq)
  · intro h
    refine h.nearest ⟨le_rfl, hlt.trans (two_zpow_lt_iff.mpr ?_), .inl rfl⟩
      (canonical_subnormal (by omega)) rfl id
    unfold normalExponent
    omega

theorem middle_eq (k : Nat) : middle k = ((2 * k + 1 : Nat) : ℚ) * 2 ^ (minExponent - 1) := by
  rw [middle, zpow_sub_one₀ two_ne_zero]
  push_cast
  ring

theorem Shortens.le_normal (h : Shortens q w) (hq : q ≤ 2 ^ normalExponent) :
    w ≤ 2 ^ normalExponent := by
  have hone : ((1 : Nat) : ℚ) * 2 ^ normalExponent = 2 ^ normalExponent := by simp
  rw [← hone] at hq ⊢
  exact h.le_of_le (by norm_num) hq

theorem Shortens.normal_le (h : Shortens q w) (hq : 2 ^ normalExponent ≤ q) :
    2 ^ normalExponent ≤ w := by
  have hone : ((1 : Nat) : ℚ) * 2 ^ normalExponent = 2 ^ normalExponent := by simp
  rw [← hone] at hq ⊢
  exact h.ge_of_ge (by norm_num) hq

/-- Rounding to 53 digits leads to no other side of a middle between doubles near zero. -/
theorem Shortens.sides (h : Shortens q w) (hlt : q < 2 ^ normalExponent) (i : Nat) :
    (q ≤ middle i → w ≤ middle i) ∧ (middle i ≤ q → middle i ≤ w) := by
  rcases lt_or_ge i (2 ^ 52) with hi | hi
  · rw [middle_eq]
    exact ⟨h.le_of_le (by omega), h.ge_of_ge (by omega)⟩
  · -- a middle that is so large is above both
    have hi' : (2 : ℚ) ^ 52 ≤ i := by exact_mod_cast hi
    have hlarge : 2 ^ normalExponent < middle i := by
      calc (2 : ℚ) ^ normalExponent = 2 ^ 52 * 2 ^ minExponent := (two_pow_mul 52 minExponent).symm
        _ < (i + 1 / 2) * 2 ^ minExponent := by
          gcongr
          linarith
    have hw := h.le_normal hlt.le
    exact ⟨fun _ => hw.trans hlarge.le, fun hle => absurd (hle.trans_lt hlt) hlarge.not_gt⟩

theorem Shortens.nearestStep_iff_not_misleads (h : Shortens q w) (hlt : q < 2 ^ normalExponent)
    (hstep : NearestStep (w / 2 ^ minExponent) k) :
    NearestStep (q / 2 ^ minExponent) k ↔ ¬ Misleads q := by
  have hpos := two_zpow_pos minExponent
  have hq := h.pos
  rw [hstep.iff_of_sides (by positivity) fun i => ?_]
  · refine not_congr ⟨?_, ?_⟩
    · rintro ⟨i, hi, hcross⟩
      have hw : w = middle i := (div_eq_iff hpos.ne').mp hi
      rw [div_lt_iff₀ hpos, lt_div_iff₀ hpos] at hcross
      exact ⟨i, hw ▸ h, hcross⟩
    · rintro ⟨i, hi, hcross⟩
      refine ⟨i, ?_, ?_⟩
      · rw [h.unique hi, middle, mul_div_cancel_right₀ _ hpos.ne']
      · rw [div_lt_iff₀ hpos, lt_div_iff₀ hpos]
        exact hcross
  · rw [div_le_iff₀ hpos, le_div_iff₀ hpos, div_le_iff₀ hpos, le_div_iff₀ hpos]
    exact h.sides hlt i

/-! ## What comes of two roundings -/

/-- The middles between doubles near zero are no doubles. -/
theorem Canonical.ne_middle (hm : Canonical m f) (k : Nat) : middle k ≠ m * 2 ^ f := by
  obtain ⟨i, hi⟩ := exists_two_zpow_eq hm.low
  rw [middle, hi, ← mul_assoc]
  intro heq
  have hhalf := mul_right_cancel₀ (two_zpow_pos minExponent).ne' heq
  have hdouble : ((2 * k + 1 : Nat) : ℚ) = ((2 * (m * i) : Nat) : ℚ) := by
    push_cast
    linarith
  have : 2 * k + 1 = 2 * (m * i) := by exact_mod_cast hdouble
  omega

/-- From the least double with 53 digits on, the first rounding leads to a double. -/
theorem Shortens.exists_canonical (h : Shortens q w) (hlow : 2 ^ normalExponent ≤ q)
    (hhigh : q < overflowBound) :
    ∃ (m : Nat) (f : Int), w = m * 2 ^ f ∧ Canonical m f ∧ Nearest q (.finite false m f) := by
  obtain ⟨y, hy⟩ := exists_rounds false h.pos.le
  obtain ⟨m, f, rfl, hm, hshort⟩ := hy.exists_shortens hlow hhigh
  exact ⟨m, f, h.unique hshort, hm, hy.nearest hhigh⟩

theorem Shortens.not_misleads (h : Shortens q w) (hlow : 2 ^ normalExponent ≤ q)
    (hhigh : q < overflowBound) : ¬ Misleads q := by
  obtain ⟨m, f, rfl, hm, -⟩ := h.exists_canonical hlow hhigh
  rintro ⟨k, hk, -⟩
  exact hm.ne_middle k (hk.unique h)

/-- Rounding to 53 digits does not lead beyond the doubles. -/
theorem Shortens.lt_overflowBound (h : Shortens q w) (hhigh : q < overflowBound) :
    w < overflowBound := by
  rcases le_total q (2 ^ normalExponent) with hle | hge
  · exact (h.le_normal hle).trans_lt (two_zpow_lt_overflowBound (by decide))
  · obtain ⟨m, f, rfl, hm, -⟩ := h.exists_canonical hge hhigh
    exact hm.lt_overflowBound

/-- **Two roundings find the nearest double unless the first one misleads the second.** -/
theorem Shortens.nearest_iff_not_misleads (h : Shortens q w) (hx : Rounds false w x)
    (hq : q < overflowBound) : Nearest q x ↔ ¬ Misleads q := by
  rcases lt_or_ge q (2 ^ normalExponent) with hlt | hge
  · obtain ⟨k, hk, rfl, hstep⟩ := hx.exists_subnormal (h.le_normal hlt.le)
    rw [nearest_subnormal_iff h.pos.le hlt hk, h.nearestStep_iff_not_misleads hlt hstep]
  · obtain ⟨m, f, hw, hm, hnearest⟩ := h.exists_canonical hge hq
    obtain rfl := hx.eq_of_canonical hm hw
    exact iff_of_true hnearest (h.not_misleads hge hq)

end Judge.Binary64
