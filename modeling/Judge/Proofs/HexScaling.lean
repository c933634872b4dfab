import Judge.Proofs.HexNumerals
import Judge.Proofs.Rounding

/-!
# Proofs/HexScaling — how a hexadecimal numeral is moved to its place

The mantissa is multiplied by `2 ^ 1000` or `2 ^ -1000` until what is left of the shift is small,
and then once more.  A mantissa has at most 120 bits, so two multiplications make it infinite or
zero: the loops make no more than two steps (`residual_leaves`).

They stop early when there is nothing more to do, and then what is left of the shift is not small.
The last multiplication is made all the same, by a power of two that may be infinite or zero, and
after the shift was cut down to 32 bits, which may turn its sign.  `scaled_numeral` says what comes
of it for every numeral, and for which ones it is no number.
-/

namespace Judge.HexFloat

open Binary64 (maxPower ofNat)

variable {cs : List Char} {int frac : List Char} {x y : Binary64} {m : Mantissa}
  {a k shift exponent : Int} {d : Nat}

/-! ## The last multiplication -/

theorem wrap32_of_range (hlow : -2 ^ 31 ≤ k) (hhigh : k < 2 ^ 31) : wrap32 k = k :=
  Int.bmod_eq_of_le hlow hhigh

theorem mulPow2_zero (k : Int) :
    Binary64.zero.mulPow2 k = if maxPower < k then .nan else .zero := by
  rw [Binary64.zero, Binary64.mulPow2]
  split
  · rfl
  · split
    · rfl
    · simp [Binary64.ofDyadic, Binary64.ofRatio]

theorem mulPow2_infinite (s : Bool) (k : Int) :
    (Binary64.infinite s).mulPow2 k = if k < -maxPower then .nan else .infinite s := rfl

/-! ## The loops -/

theorem scaleUp_of_le (h : shift ≤ step) : scaleUp x shift = (x, shift) := by
  rw [scaleUp, if_neg fun hgo => absurd hgo.1 (not_lt.mpr h)]

theorem scaleUp_infinite (s : Bool) (shift : Int) :
    scaleUp (.infinite s) shift = (.infinite s, shift) := by
  rw [scaleUp, if_neg fun hgo => Bool.false_ne_true hgo.2.1]

theorem scaleUp_of_lt (hx : x.AtLeast a) (h : step < shift) :
    scaleUp x shift = scaleUp (x.mulPow2 step) (shift - step) := by
  rw [scaleUp, if_pos ⟨h, hx.isFinite, by rw [hx.isZero]; rfl⟩]

theorem scaleDown_of_ge (h : -step ≤ shift) : scaleDown x shift = (x, shift) := by
  rw [scaleDown, if_neg fun hgo => absurd hgo.1 (not_lt.mpr h)]

theorem scaleDown_zero (shift : Int) : scaleDown .zero shift = (.zero, shift) := by
  rw [scaleDown, if_neg fun hgo => Bool.false_ne_true hgo.2]

theorem scaleDown_of_lt (hx : x.AtLeast a) (h : shift < -step) :
    scaleDown x shift = scaleDown (x.mulPow2 (-step)) (shift + step) := by
  rw [scaleDown, if_pos ⟨h, by rw [hx.isZero]; rfl⟩]

/-- **What the loops leave**: a number, and the shift that remains for it. -/
def residual (x : Binary64) (shift : Int) : Binary64 × Int :=
  scaleDown (scaleUp x shift).1 (scaleUp x shift).2

theorem scaleBy_eq (x : Binary64) (shift : Int) :
    scaleBy x shift = (residual x shift).1.mulPow2 (wrap32 (residual x shift).2) := rfl

theorem residual_of_scaleUp (h : scaleUp x shift = (y, k)) (hk : -step ≤ k) :
    residual x shift = (y, k) := by
  rw [residual, h, scaleDown_of_ge hk]

/-- **How the loops end**: with a positive number and a small shift; with an infinity, after one
step up or two; or with zero, after two steps down. -/
inductive Leaves (shift : Int) : Binary64 × Int → Prop
  | small {y : Binary64} {a k : Int} : y.AtLeast a → -step ≤ k → k ≤ step →
      -(2 * step) ≤ shift → shift ≤ 2 * step → Leaves shift (y, k)
  | overflow {k : Int} : k = shift - step ∨ k = shift - 2 * step → 0 < k →
      Leaves shift (.infinite false, k)
  | underflow : shift < -(2 * step) → Leaves shift (.zero, shift + 2 * step)

/-- Up: the first step leads beyond `2 ^ 1000`, and a second one beyond all numbers. -/
theorem leaves_up (hx : x.AtLeast 0) (h : step < shift) : Leaves shift (residual x shift) := by
  have hstep : step = 1000 := rfl
  have hup := scaleUp_of_lt hx h
  rcases hx.mulPow2 (k := step) (by decide) (by decide) (by decide) with hinf | hfirst
  · rw [hinf, scaleUp_infinite] at hup
    rw [residual_of_scaleUp hup (by omega)]
    exact .overflow (.inl rfl) (by omega)
  · rcases le_or_gt (shift - step) step with hlast | hmore
    · rw [scaleUp_of_le hlast] at hup
      rw [residual_of_scaleUp hup (by omega)]
      exact .small hfirst (by omega) hlast (by omega) (by omega)
    · rw [scaleUp_of_lt hfirst hmore, hfirst.mulPow2_huge (by decide) (by decide) (by decide),
        scaleUp_infinite] at hup
      rw [residual_of_scaleUp hup (by omega)]
      exact .overflow (.inr (by omega)) (by omega)

/-- Down: the first step leads below `2 ^ -880`, and a second one to zero. -/
theorem leaves_down (hx : x.AtLeast 0) (hx' : x.AtMost 120) (h : shift < -step) :
    Leaves shift (residual x shift) := by
  have hstep : step = 1000 := rfl
  have hdown : residual x shift = scaleDown (x.mulPow2 (-step)) (shift + step) := by
    rw [residual, scaleUp_of_le (by omega), scaleDown_of_lt hx h]
  have hsmall := hx'.mulPow2 (k := -step) (by decide) (by decide) (by decide) (by decide)
  rcases hx.mulPow2 (k := -step) (by decide) (by decide) (by decide) with hinf | hfirst
  · obtain ⟨m, e, heq, -⟩ := hsmall
    rw [hinf] at heq
    cases heq
  rcases le_or_gt (-step) (shift + step) with hlast | hmore
  · rw [hdown, scaleDown_of_ge hlast]
    exact .small hfirst hlast (by omega) (by omega) (by omega)
  · have htwo : shift + step + step = shift + 2 * step := by omega
    have htiny := hsmall.mulPow2_tiny (k := -step) (by decide) (by decide) (by decide)
    rw [hdown, scaleDown_of_lt hfirst hmore, htiny, scaleDown_zero, htwo]
    exact .underflow (by omega)

/-- **The loops make at most two steps**, and leave what `Leaves` says. -/
theorem residual_leaves (hx : x.AtLeast 0) (hx' : x.AtMost 120) (shift : Int) :
    Leaves shift (residual x shift) := by
  have hstep : step = 1000 := rfl
  rcases lt_or_ge step shift with hup | hlow
  · exact leaves_up hx hup
  rcases lt_or_ge shift (-step) with hdown | hhigh
  · exact leaves_down hx hx' hdown
  · rw [residual_of_scaleUp (scaleUp_of_le hlow) hhigh]
    exact .small hx hhigh hlow (by omega) (by omega)

/-- A long mantissa is infinite after one step. -/
theorem residual_of_long (hx : x.AtLeast 116) (h : step < shift) :
    residual x shift = (.infinite false, shift - step) := by
  have hstep : step = 1000 := rfl
  have hup := scaleUp_of_lt hx h
  rw [hx.mulPow2_huge (by decide) (by decide) (by decide), scaleUp_infinite] at hup
  exact residual_of_scaleUp hup (by omega)

/-! ## What comes of it -/

/-- **What the last multiplication gives.**  A positive number is multiplied by a power of two that
a double can hold.  An infinity and a zero stay what they are, unless the power is zero or infinite,
and then the result is no number. -/
inductive Lands : Binary64 × Int → Binary64 → Prop
  | inside {y : Binary64} {k : Int} : y.isFinite = true → y.isZero = false →
      -step ≤ k → k ≤ step → wrap32 k = k → y.mulPow2 k ≠ .nan → Lands (y, k) (y.mulPow2 k)
  | overflow (k : Int) : Lands (.infinite false, k)
      (if wrap32 k < -maxPower then .nan else .infinite false)
  | underflow (k : Int) : Lands (.zero, k)
      (if maxPower < wrap32 k then .nan else .zero)

theorem wrap32_of_small (hlow : -step ≤ k) (hhigh : k ≤ step) : wrap32 k = k := by
  have hstep : step = 1000 := rfl
  exact wrap32_of_range (by omega) (by omega)

theorem mulPow2_ne_nan_of_small (hy : y.AtLeast a) (hlow : -step ≤ k) (hhigh : k ≤ step) :
    y.mulPow2 k ≠ .nan := by
  have hstep : step = 1000 := rfl
  have hpower : maxPower = 1023 := rfl
  exact hy.mulPow2_ne_nan (by omega) (by omega)

theorem Leaves.lands {left : Binary64 × Int} (h : Leaves shift left) :
    Lands left (left.1.mulPow2 (wrap32 left.2)) := by
  cases h with
  | small hy hlow hhigh =>
    have hwrap := wrap32_of_small hlow hhigh
    rw [hwrap]
    exact .inside hy.isFinite hy.isZero hlow hhigh hwrap (mulPow2_ne_nan_of_small hy hlow hhigh)
  | overflow => exact .overflow _
  | underflow =>
    rw [mulPow2_zero]
    exact .underflow _

/-- **When a positive mantissa is moved to no number**: what is left of the shift does not fit into
32 bits and comes out with the other sign. -/
def Astray (shift : Int) : Prop :=
  step < shift ∧ wrap32 (shift - step) < -maxPower ∨
    shift < -step ∧ maxPower < wrap32 (shift + 2 * step)

theorem not_astray (hlow : -2 ^ 31 ≤ shift) (hhigh : shift < 2 ^ 31) : ¬ Astray shift := by
  have hstep : step = 1000 := rfl
  have hpower : maxPower = 1023 := rfl
  rintro (⟨h, hwrap⟩ | ⟨h, hwrap⟩) <;> rw [wrap32_of_range (by omega) (by omega)] at hwrap <;> omega

theorem astray_iff_of_lt (h : step < shift) : Astray shift ↔ wrap32 (shift - step) < -maxPower := by
  have hstep : step = 1000 := rfl
  have hdown : ¬ shift < -step := by omega
  simp only [Astray, h, hdown, true_and, false_and, or_false]

theorem astray_iff_of_gt (h : shift < -step) :
    Astray shift ↔ maxPower < wrap32 (shift + 2 * step) := by
  have hstep : step = 1000 := rfl
  have hup : ¬ step < shift := by omega
  simp only [Astray, h, hup, true_and, false_and, false_or]

theorem scaleBy_eq_nan_iff (hx : x.AtLeast 0) (hx' : x.AtMost 120)
    (hlong : 2 ^ 31 ≤ shift → x.AtLeast 116) : scaleBy x shift = .nan ↔ Astray shift := by
  have hstep : step = 1000 := rfl
  have hpower : maxPower = 1023 := rfl
  have hleaves := residual_leaves hx hx' shift
  rw [scaleBy_eq]
  generalize hleft : residual x shift = left at hleaves
  cases hleaves with
  | small hy hlow hhigh hfar hnear =>
    rw [wrap32_of_small hlow hhigh]
    exact iff_of_false (mulPow2_ne_nan_of_small hy hlow hhigh) (not_astray (by omega) (by omega))
  | @overflow k hk hpos =>
    rw [mulPow2_infinite]
    rcases lt_or_ge shift (2 ^ 31) with hfits | hbeyond
    · rw [wrap32_of_range (by omega) (by omega), if_neg (by omega)]
      exact iff_of_false (by simp) (not_astray (by omega) hfits)
    · -- a shift beyond 32 bits has dropped digits, so that one step was enough
      have hone := residual_of_long (hlong hbeyond) (by omega : step < shift)
      obtain rfl : k = shift - step := congrArg Prod.snd (hleft.symm.trans hone)
      rw [astray_iff_of_lt (by omega)]
      simp
  | underflow hfar =>
    rw [mulPow2_zero, astray_iff_of_gt (by omega)]
    simp [Binary64.zero]

/-! ## Numerals -/

theorem scaleBy_zero (shift : Int) :
    scaleBy .zero shift = if maxPower < wrap32 shift then .nan else .zero := by
  have hup : scaleUp .zero shift = (.zero, shift) := by
    rw [scaleUp, if_neg fun hgo => Bool.false_ne_true hgo.2.2]
  rw [scaleBy_eq, residual, hup, scaleDown_zero, mulPow2_zero]

theorem atMost_total (h : collect? int frac = some m) : (ofNat m.total).AtMost 120 :=
  Binary64.atMost_ofNat (d := 120) (kept_of_collect? h).total_lt.le (by decide)

theorem atLeast_total (h : collect? int frac = some m) (hle : 2 ^ d ≤ m.total) :
    (ofNat m.total).AtLeast d := by
  obtain ⟨n, e, heq, -⟩ := atMost_total h
  exact Binary64.atLeast_ofNat hle (by rw [heq]; rfl)

/-- Only a numeral with more digits than are kept is shifted up by more than its exponent. -/
theorem long_of_scale_pos (h : collect? int frac = some m) (hscale : 0 < m.scale) :
    (ofNat m.total).AtLeast 116 :=
  atLeast_total (d := 116) h
    (((kept_of_collect? h).full (.inr hscale)).trans m.bits_le_total)

theorem Written.exponent_lt (h : Written cs int frac exponent) : exponent < 2 ^ 31 := by
  obtain ⟨mantissa, tail, -, -, ⟨-, rfl⟩ | ⟨mark, digits, -, -, -, -, hlt⟩⟩ := h.parts
  · decide
  · exact hlt

/-- **What a hexadecimal numeral is read as.**  Digits that are all zero give zero, unless the shift
in 32 bits is above 1023.  Other digits are moved as `Lands` says: as long as there is a positive
number to move, the last multiplication is by `2 ^ 1000` at most, up or down.  The result is no
number exactly if the shift goes `Astray`, which no shift of 32 bits does. -/
theorem scaled_numeral (h : read? cs = some x) :
    ∃ int frac exponent m, Written cs int frac exponent ∧ collect? int frac = some m ∧
      ((∀ c ∈ int ++ frac, c = '0') →
        x = if Binary64.maxPower < wrap32 (exponent - 4 * frac.length) then .nan else .zero) ∧
      ((∃ c ∈ int ++ frac, c ≠ '0') →
        Lands (residual (.ofNat m.total) (exponent + m.scale)) x ∧
        (x = .nan ↔ Astray (exponent + m.scale)) ∧
        (-2 ^ 31 ≤ exponent + m.scale → exponent + m.scale < 2 ^ 31 → x ≠ .nan)) := by
  obtain ⟨int, frac, exponent, m, hwritten, hm, rfl⟩ := read?_eq_some_iff.mp h
  refine ⟨int, frac, exponent, m, hwritten, hm, fun hzero => ?_, fun ⟨c, hc, hne⟩ => ?_⟩
  · have htotal := (collect?_total_eq_zero_iff hm).mpr hzero
    rw [htotal, collect?_scale_of_total_eq_zero hm htotal, ← sub_eq_add_neg]
    exact scaleBy_zero _
  · have hpos : 2 ^ 0 ≤ m.total := Nat.one_le_iff_ne_zero.mpr fun htotal =>
      hne ((collect?_total_eq_zero_iff hm).mp htotal c hc)
    have hleast := atLeast_total hm hpos
    have hlt := hwritten.exponent_lt
    have hnan : scaleBy (.ofNat m.total) (exponent + m.scale) = .nan ↔
        Astray (exponent + m.scale) :=
      scaleBy_eq_nan_iff hleast (atMost_total hm) fun hbig => long_of_scale_pos hm (by omega)
    refine ⟨?_, hnan, fun hlow hhigh => hnan.not.mpr (not_astray hlow hhigh)⟩
    rw [scaleBy_eq]
    exact (residual_leaves hleast (atMost_total hm) _).lands

theorem scaled_numeral_three :
    read? "1.8p1".toList = some (.finite false (3 * 2 ^ 51) (-51)) ∧
    ∃ int frac exponent m, Written "1.8p1".toList int frac exponent ∧
      collect? int frac = some m ∧
      ((∀ c ∈ int ++ frac, c = '0') →
        Binary64.finite false (3 * 2 ^ 51) (-51) =
          if Binary64.maxPower < wrap32 (exponent - 4 * frac.length) then .nan else .zero) ∧
      ((∃ c ∈ int ++ frac, c ≠ '0') →
        Lands (residual (.ofNat m.total) (exponent + m.scale)) (.finite false (3 * 2 ^ 51) (-51)) ∧
        (Binary64.finite false (3 * 2 ^ 51) (-51) = .nan ↔ Astray (exponent + m.scale)) ∧
        (-2 ^ 31 ≤ exponent + m.scale → exponent + m.scale < 2 ^ 31 →
          Binary64.finite false (3 * 2 ^ 51) (-51) ≠ .nan)) := by
  have hread : read? "1.8p1".toList = some (.finite false (3 * 2 ^ 51) (-51)) := by decide +kernel
  exact ⟨hread, scaled_numeral hread⟩

/-- **Zero is read as no number** when its exponent is large: what is left of the shift is 2000, and
the last power of two is infinite. -/
theorem zero_read_as_no_number :
    Written "0p2000".toList ['0'] [] 2000 ∧ residual .zero 2000 = (.zero, 2000) ∧
      read? "0p2000".toList = some .nan := by
  have hexponent : Integer.readSigned32 "2000".toList = .ok 2000 := by decide +kernel
  have hdigits : ∀ c ∈ ['0'] ++ [], (digit? c).isSome := by
    intro c hc
    obtain rfl := List.mem_singleton.mp hc
    rfl
  refine ⟨⟨⟨['0'], "p2000".toList, rfl, .inl ⟨rfl, rfl⟩, .inr ⟨'p', "2000".toList, rfl, .inl rfl,
    readSigned32_eq_ok_iff.mp hexponent⟩⟩, hdigits, .inl (by simp)⟩, ?_, ?_⟩
  · rw [residual, scaleUp, if_neg (by decide), scaleDown_zero]
  · decide +kernel

end Judge.HexFloat
