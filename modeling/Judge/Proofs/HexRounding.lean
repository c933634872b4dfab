import Judge.Proofs.HexScaling
import Judge.Proofs.TwoRoundings

/-!
# Proofs/HexRounding — how a hexadecimal numeral is rounded

`numeralValue` is the number that a numeral writes.  On the way to a double it is touched three
times.

**The digits are dropped** from the 31st on, and an odd bit is left in their place.  The mantissa
holds all that later roundings need (`Holds.exact_iff`, `Holds.shortens`).  **The mantissa is
rounded** to 53 digits.  **The result is moved** to its place by one multiplication or two, of which
only the last one rounds (`rounds_scaleBy`).

So a numeral is rounded twice, and `rounded_numeral` says when that shows: not where doubles have 53
digits, and near zero only if the first rounding misleads the second one.
-/

namespace Judge.HexFloat

open List
open Judge.Binary64

variable {cs int frac : List Char} {exponent e k shift : Int} {d n places dropped rest mantissa : Nat}
  {fractional : Bool} {m m' : Mantissa} {x : Binary64} {q u w : ℚ}

/-! ## The number that a numeral writes -/

/-- The number that digits write, after the number `n`. -/
def digitsFrom (n : Nat) (cs : List Char) : Nat :=
  cs.foldl (fun n c => 16 * n + (digit? c).getD 0) n

/-- **The number that a numeral writes**: its digits, moved by the point and by the exponent. -/
def numeralValue (int frac : List Char) (exponent : Int) : ℚ :=
  digitsFrom 0 (int ++ frac) * 2 ^ (exponent - 4 * frac.length)

/-! ## What the mantissa holds -/

/-- **What a mantissa holds** of the digits that write `n`, `places` of them after the point: the
last `dropped` digits are missing from its bits, and they write `rest`. -/
structure Mantissa.Holds (m : Mantissa) (n places dropped rest : Nat) : Prop where
  digits : n = m.bits * 16 ^ dropped + rest
  rest_lt : rest < 16 ^ dropped
  scale : m.scale = 4 * dropped - 4 * places
  sticky : m.sticky = true ↔ rest ≠ 0
  full : dropped ≠ 0 → 2 ^ 116 ≤ m.bits

namespace Mantissa.Holds

section

variable (h : m.Holds n places dropped rest)

include h

/-- One digit is kept, or it is dropped and counted. -/
theorem push (fractional : Bool) (hd : d < 16) :
    ∃ dropped' rest', (m.push fractional d).Holds (16 * n + d)
      (if fractional then places + 1 else places) dropped' rest' := by
  have hscale := h.scale
  unfold Mantissa.push
  split
  · rename_i hfree
    obtain rfl : dropped = 0 := by
      by_contra hne
      have := h.full hne
      omega
    obtain rfl : rest = 0 := by simpa using h.rest_lt
    refine ⟨0, 0, ?_, by norm_num, ?_, h.sticky, by simp⟩
    · have := h.digits
      simp only [pow_zero] at this ⊢
      omega
    · split <;> push_cast <;> omega
  · rename_i hfull
    refine ⟨dropped + 1, 16 * rest + d, ?_, ?_, ?_, ?_, fun _ => by dsimp only; omega⟩
    · rw [h.digits, pow_succ]
      ring
    · have := h.rest_lt
      rw [pow_succ]
      omega
    · split <;> push_cast <;> omega
    · simp only [Bool.or_eq_true, h.sticky, bne_iff_ne]
      omega

theorem pushAll (hall : m.pushAll fractional cs = some m') :
    ∃ dropped' rest', m'.Holds (digitsFrom n cs)
      (if fractional then places + cs.length else places) dropped' rest' := by
  induction cs generalizing m n places dropped rest with
  | nil =>
    obtain rfl := Option.some.inj hall
    exact ⟨dropped, rest, by simpa [digitsFrom] using h⟩
  | cons c cs ih =>
    obtain ⟨d, hd, hrest⟩ := pushAll_cons_eq_some_iff.mp hall
    obtain ⟨dropped', rest', hpush⟩ := h.push fractional (digit?_lt hd)
    obtain ⟨dropped'', rest'', hall'⟩ := ih hpush hrest
    refine ⟨dropped'', rest'', ?_⟩
    have hplaces : (if fractional then (if fractional then places + 1 else places) + cs.length
        else (if fractional then places + 1 else places)) =
        if fractional then places + (c :: cs).length else places := by
      cases fractional
      · rfl
      · simp only [if_true, length_cons]
        omega
    rw [hplaces] at hall'
    simpa [digitsFrom, hd] using hall'

/-- The bits and the dropped digits are the number. -/
theorem value (exponent : Int) :
    (n : ℚ) * 2 ^ (exponent - 4 * places) =
      (m.bits + rest / 16 ^ dropped) * 2 ^ (exponent + m.scale) := by
  have hpow : (2 : ℚ) ^ (4 * (dropped : Int)) = 16 ^ dropped := by
    rw [zpow_mul, zpow_natCast]
    norm_num
  have hexponent : exponent + m.scale = exponent - 4 * places + 4 * dropped := by
    rw [h.scale]
    ring
  have hpos : (0 : ℚ) < 16 ^ dropped := by positivity
  rw [hexponent, zpow_add₀ two_ne_zero, hpow, h.digits, add_mul, div_mul_eq_mul_div]
  push_cast
  rw [mul_div_assoc, mul_div_cancel_right₀ _ hpos.ne']
  ring

/-- Digits that were dropped write less than one. -/
theorem fraction (hrest : rest ≠ 0) :
    (0 : ℚ) < rest / 16 ^ dropped ∧ (rest : ℚ) / 16 ^ dropped < 1 := by
  have hpos : (0 : ℚ) < 16 ^ dropped := by positivity
  refine ⟨by positivity, ?_⟩
  rw [div_lt_one hpos]
  exact_mod_cast h.rest_lt

/-- The mantissa with its odd bit is on the same side of every even number as the digits are. -/
theorem sides (hrest : rest ≠ 0) {i : Nat} (hi : Even i) :
    ((m.total : ℚ) < i ↔ (m.bits + rest / 16 ^ dropped : ℚ) < i) ∧
      ((i : ℚ) < m.total ↔ (i : ℚ) < m.bits + rest / 16 ^ dropped) := by
  have hodd : m.total % 2 = 1 ∧ m.bits ≤ m.total ∧ m.total ≤ m.bits + 1 := by
    unfold Mantissa.total
    rw [h.sticky.mpr hrest, Bool.true_and]
    split
    · rename_i heven
      have := beq_iff_eq.mp heven
      omega
    · rename_i hodd
      have := mt beq_iff_eq.mpr hodd
      omega
  obtain ⟨hlow, hhigh⟩ := h.fraction hrest
  have hparity := Nat.even_iff.mp hi
  have hless : (m.bits + rest / 16 ^ dropped : ℚ) < i ↔ m.bits + 1 ≤ i := by
    constructor
    · intro hlt
      have : (m.bits : ℚ) < i := by linarith
      exact_mod_cast this
    · intro hle
      have : (m.bits : ℚ) + 1 ≤ i := by exact_mod_cast hle
      linarith
  have hmore : (i : ℚ) < m.bits + rest / 16 ^ dropped ↔ i ≤ m.bits := by
    constructor
    · intro hlt
      have : (i : ℚ) < m.bits + 1 := by linarith
      exact Nat.lt_succ_iff.mp (by exact_mod_cast this)
    · intro hle
      have : (i : ℚ) ≤ m.bits := by exact_mod_cast hle
      linarith
  rw [hless, hmore, Nat.cast_lt, Nat.cast_lt]
  omega

/-- The mantissa is the number that is written if and only if no digit but zeros was dropped. -/
theorem exact_iff : (m.total : ℚ) * 2 ^ m.scale = n * 2 ^ (0 - 4 * places : Int) ↔ rest = 0 := by
  rw [h.value 0, zero_add, mul_left_inj' (two_zpow_pos _).ne']
  constructor
  · intro heq
    by_contra hrest
    obtain ⟨hlow, hhigh⟩ := h.fraction hrest
    have hmore : (m.bits : ℚ) < m.total := by linarith
    have hless : (m.total : ℚ) < (m.bits + 1 : Nat) := by push_cast; linarith
    norm_cast at hmore hless
    omega
  · rintro rfl
    have hsticky : m.sticky = false := Bool.eq_false_iff.mpr fun hs => h.sticky.mp hs rfl
    simp [Mantissa.total, hsticky]

/-- **The dropped digits make no difference** to a rounding to 53 digits. -/
theorem shortens (hshort : Shortens m.total w) : Shortens (m.bits + rest / 16 ^ dropped) w := by
  by_cases hrest : rest = 0
  · have hsticky : m.sticky = false := Bool.eq_false_iff.mpr fun hs => h.sticky.mp hs hrest
    rw [Mantissa.total, hsticky] at hshort
    simpa [hrest] using hshort
  · have hdropped : dropped ≠ 0 := by
      rintro rfl
      exact hrest (by simpa using h.rest_lt)
    have hlarge : (2 : ℚ) ^ 54 ≤ m.total := by
      have := h.full hdropped
      have := m.bits_le_total
      exact_mod_cast (by omega : 2 ^ 54 ≤ m.total)
    exact hshort.congr hlarge (by positivity) fun i hi => h.sides hrest hi

end

end Mantissa.Holds

theorem holds_of_collect? (h : collect? int frac = some m) :
    ∃ dropped rest, m.Holds (digitsFrom 0 (int ++ frac)) frac.length dropped rest := by
  obtain ⟨-, whole, hwhole, hfrac⟩ := collect?_eq_some_iff.mp h
  have hstart : Mantissa.Holds {} 0 0 0 0 := ⟨rfl, by norm_num, rfl, by simp, by simp⟩
  obtain ⟨dropped, rest, hint⟩ := hstart.pushAll hwhole
  obtain ⟨dropped', rest', hall⟩ := hint.pushAll hfrac
  refine ⟨dropped', rest', ?_⟩
  simpa [digitsFrom, foldl_append] using hall

/-! ## Moving a rounded mantissa -/

theorem atLeast_of_full (hfull : 2 ^ 52 ≤ mantissa) (hlow : -52 ≤ e) :
    (Binary64.finite false mantissa e).AtLeast 0 := by
  refine ⟨mantissa, e, rfl, ?_⟩
  calc (2 : ℚ) ^ (0 : Int) ≤ 2 ^ (e + 52) := two_zpow_le_iff.mpr (by omega)
    _ ≤ mantissa * 2 ^ e := two_zpow_le_mul hfull e

/-- A step that stays where doubles have 53 digits rounds nothing. -/
theorem mulPow2_eq (hm : Canonical mantissa e) (hfull : 2 ^ 52 ≤ mantissa) (hk : -maxPower ≤ k)
    (hk' : k ≤ maxPower) (hlow : minExponent ≤ e + k) (hhigh : e + k ≤ maxExponent) :
    (Binary64.finite false mantissa e).mulPow2 k = .finite false mantissa (e + k) := by
  refine (rounds_mulPow2 hk hk' false mantissa e).eq_of_canonical
    ⟨hm.fits, hlow, hhigh, .inr hfull⟩ ?_
  rw [mul_assoc, ← zpow_add₀ two_ne_zero]

/-- The last multiplication rounds once. -/
theorem rounds_residual (h : residual x shift = (.finite false mantissa e, k)) (hlow : -step ≤ k)
    (hhigh : k ≤ step) : Rounds false (mantissa * 2 ^ e * 2 ^ k) (scaleBy x shift) := by
  have hstep : step = 1000 := rfl
  have hpower : maxPower = 1023 := rfl
  rw [scaleBy_eq, h, wrap32_of_small hlow hhigh]
  exact rounds_mulPow2 (by omega) (by omega) false mantissa e

/-- What is moved down by two steps is zero, unless the shift goes astray. -/
theorem rounds_scaleBy_far (hx : (Binary64.finite false mantissa e).AtLeast 0)
    (hx' : (Binary64.finite false mantissa e).AtMost 120) (hfar : shift < -(2 * step))
    (hastray : ¬ Astray shift) :
    Rounds false (mantissa * 2 ^ e * 2 ^ shift) (scaleBy (.finite false mantissa e) shift) := by
  have hstep : step = 1000 := rfl
  have hmin : minExponent = -1074 := rfl
  have hzero : scaleBy (.finite false mantissa e) shift = .zero := by
    have hleaves := leaves_down hx hx' (by omega : shift < -step)
    rw [scaleBy_eq]
    generalize residual (.finite false mantissa e) shift = left at hleaves
    cases hleaves with
    | small _ _ _ hnear _ | overflow hk hpos => omega
    | underflow _ =>
      rw [mulPow2_zero, if_neg fun h => hastray (.inr ⟨by omega, h⟩)]
  obtain ⟨y, hy⟩ := exists_rounds (q := mantissa * 2 ^ e * 2 ^ shift) false (by positivity)
  have htiny : (mantissa : ℚ) * 2 ^ e * 2 ^ shift < 2 ^ (minExponent - 1) := by
    obtain ⟨m', e', hm', hle⟩ := hx'
    cases hm'
    calc (mantissa : ℚ) * 2 ^ e * 2 ^ shift ≤ 2 ^ (120 : Int) * 2 ^ shift := by gcongr
      _ = 2 ^ (120 + shift) := (zpow_add₀ two_ne_zero _ _).symm
      _ < 2 ^ (minExponent - 1) := two_zpow_lt_iff.mpr (by omega)
  rw [hzero, Binary64.zero, ← hy.of_tiny htiny]
  exact hy

/-- **A mantissa of 53 digits is moved with one rounding**, unless the shift goes astray. -/
theorem rounds_scaleBy (hm : Canonical mantissa e) (hfull : 2 ^ 52 ≤ mantissa) (hlow : -52 ≤ e)
    (hx' : (Binary64.finite false mantissa e).AtMost 120) (hshift : e + shift ≤ maxExponent)
    (hastray : ¬ Astray shift) :
    Rounds false (mantissa * 2 ^ e * 2 ^ shift) (scaleBy (.finite false mantissa e) shift) := by
  have hstep : step = 1000 := rfl
  have hpower : maxPower = 1023 := rfl
  have hmax : maxExponent = 971 := rfl
  have hmin : minExponent = -1074 := rfl
  have hhigh := hm.high
  have hx := atLeast_of_full hfull hlow
  have hmoved : ∀ a b c : Int, a + b = c →
      (mantissa : ℚ) * 2 ^ (e + a) * 2 ^ b = mantissa * 2 ^ e * 2 ^ c := by
    rintro a b _ rfl
    rw [zpow_add₀ two_ne_zero, zpow_add₀ two_ne_zero]
    ring
  rcases lt_or_ge step shift with hup | hnotUp
  · have hfirst := mulPow2_eq hm hfull (k := step) (by omega) (by omega) (by omega) (by omega)
    have hloop : residual (.finite false mantissa e) shift =
        (.finite false mantissa (e + step), shift - step) := by
      refine residual_of_scaleUp ?_ (by omega)
      rw [scaleUp_of_lt hx hup, hfirst, scaleUp_of_le (by omega)]
    rw [← hmoved step (shift - step) shift (by omega)]
    exact rounds_residual hloop (by omega) (by omega)
  rcases lt_or_ge shift (-(2 * step)) with hfar | hnear
  · exact rounds_scaleBy_far hx hx' hfar hastray
  rcases lt_or_ge shift (-step) with hdown | hnotDown
  · have hfirst := mulPow2_eq hm hfull (k := -step) (by omega) (by omega) (by omega) (by omega)
    have hloop : residual (.finite false mantissa e) shift =
        (.finite false mantissa (e + -step), shift + step) := by
      rw [residual, scaleUp_of_le hnotUp, scaleDown_of_lt hx hdown, hfirst,
        scaleDown_of_ge (by omega)]
    rw [← hmoved (-step) (shift + step) shift (by omega)]
    exact rounds_residual hloop (by omega) (by omega)
  · have hloop : residual (.finite false mantissa e) shift = (.finite false mantissa e, shift) :=
      residual_of_scaleUp (scaleUp_of_le hnotUp) hnotDown
    exact rounds_residual hloop hnotDown hnotUp

/-! ## Numerals -/

/-- A mantissa other than zero, rounded: a double with 53 digits that lies between `1` and
`2 ^ 120`. -/
theorem exists_rounded_total (h : collect? int frac = some m) (hpos : m.total ≠ 0) :
    ∃ mantissa e, Binary64.ofNat m.total = .finite false mantissa e ∧ Canonical mantissa e ∧
      2 ^ 52 ≤ mantissa ∧ -52 ≤ e ∧ (Binary64.finite false mantissa e).AtMost 120 ∧
      Shortens m.total (mantissa * 2 ^ e) := by
  have hone : (1 : ℚ) ≤ m.total := by exact_mod_cast Nat.one_le_iff_ne_zero.mpr hpos
  have hlow : (2 : ℚ) ^ normalExponent ≤ m.total :=
    (two_zpow_le_iff.mpr (by decide : normalExponent ≤ 0)).trans (by simpa using hone)
  have hhigh : (m.total : ℚ) < overflowBound := by
    have hlt : (m.total : ℚ) < 2 ^ (120 : Int) := by
      exact_mod_cast (kept_of_collect? h).total_lt
    exact hlt.trans (two_zpow_lt_overflowBound (by decide))
  obtain ⟨mantissa, e, heq, hm, hshort⟩ := (rounds_ofNat m.total).exists_shortens hlow hhigh
  have hmost := atMost_total h
  rw [heq] at hmost
  have hge : (1 : ℚ) ≤ mantissa * 2 ^ e := by
    have hone' : ((1 : Nat) : ℚ) * 2 ^ (0 : Int) = 1 := by norm_num
    have := hshort.ge_of_ge (n := 1) (g := 0) (by norm_num) (hone'.trans_le hone)
    rwa [hone'] at this
  have hlowExponent : -52 ≤ e := by
    have hlt : (2 : ℚ) ^ (0 : Int) < 2 ^ (e + 53) := by
      rw [zpow_zero]
      exact hge.trans_lt hm.grid.above
    have := two_zpow_lt_iff.mp hlt
    omega
  have hfull : 2 ^ 52 ≤ mantissa := hm.full.resolve_left (by
    have hmin : minExponent = -1074 := rfl
    omega)
  exact ⟨mantissa, e, heq, hm, hfull, hlowExponent, hmost, hshort⟩

/-- What is moved to a double is not moved too far up … -/
theorem shift_le (hfull : 2 ^ 52 ≤ mantissa)
    (hlt : (mantissa : ℚ) * 2 ^ e * 2 ^ shift < overflowBound) : e + shift ≤ maxExponent := by
  have hpower : (2 : ℚ) ^ (e + shift + 52) < 2 ^ (1024 : Int) := by
    calc (2 : ℚ) ^ (e + shift + 52) ≤ mantissa * 2 ^ (e + shift) := two_zpow_le_mul hfull _
      _ = mantissa * 2 ^ e * 2 ^ shift := by rw [zpow_add₀ two_ne_zero, mul_assoc]
      _ < 2 ^ (1024 : Int) := hlt.trans overflowBound_lt
  have := two_zpow_lt_iff.mp hpower
  unfold maxExponent
  omega

/-- … and with 53 digits not too far down, so that its shift does not go astray. -/
theorem not_astray_of_normal (hmost : (Binary64.finite false mantissa e).AtMost 120)
    (hnormal : (2 : ℚ) ^ normalExponent ≤ mantissa * 2 ^ e * 2 ^ shift) (hlow : -52 ≤ e)
    (hshift : e + shift ≤ maxExponent) : ¬ Astray shift := by
  obtain ⟨m', e', heq, hle⟩ := hmost
  cases heq
  have hpower : (2 : ℚ) ^ normalExponent ≤ 2 ^ (120 + shift) := by
    calc (2 : ℚ) ^ normalExponent ≤ mantissa * 2 ^ e * 2 ^ shift := hnormal
      _ ≤ 2 ^ (120 : Int) * 2 ^ shift := by gcongr
      _ = 2 ^ (120 + shift) := (zpow_add₀ two_ne_zero _ _).symm
  have := two_zpow_le_iff.mp hpower
  simp only [normalExponent, minExponent, maxExponent] at *
  exact not_astray (by omega) (by omega)

/-- **How a hexadecimal numeral is rounded.**  Below the numbers that are infinite, a numeral with a
digit other than zero is rounded to 53 digits and then to a double, unless its shift goes astray.
The result is the double nearest to what the numeral writes, with the even one on a tie, if and only
if the first rounding does not mislead the second one; and from the least double with 53 digits on
it never does. -/
theorem rounded_numeral (h : Written cs int frac exponent) (hdigit : ∃ c ∈ int ++ frac, c ≠ '0')
    (hbound : numeralValue int frac exponent < overflowBound) :
    ∃ m x, collect? int frac = some m ∧ read? cs = some x ∧
      (Astray (exponent + m.scale) → x = .nan) ∧
      (¬ Astray (exponent + m.scale) →
        ∃ w, Shortens (numeralValue int frac exponent) w ∧ Nearest w x) ∧
      (Nearest (numeralValue int frac exponent) x ↔
        ¬ Astray (exponent + m.scale) ∧ ¬ Misleads (numeralValue int frac exponent)) ∧
      (2 ^ normalExponent ≤ numeralValue int frac exponent →
        Nearest (numeralValue int frac exponent) x) := by
  obtain ⟨m, hm⟩ := exists_collect?_iff.mpr ⟨h.nonempty, h.digits⟩
  obtain ⟨c, hc, hne⟩ := hdigit
  have htotal : m.total ≠ 0 := fun hzero => hne ((collect?_total_eq_zero_iff hm).mp hzero c hc)
  obtain ⟨mantissa, e, heq, hcanonical, hfull, hlow, hmost, hshort⟩ := exists_rounded_total hm htotal
  obtain ⟨dropped, rest, hholds⟩ := holds_of_collect? hm
  have hvalue : numeralValue int frac exponent = _ := hholds.value exponent
  have hread : read? cs = some (scaleBy (.finite false mantissa e) (exponent + m.scale)) :=
    read?_eq_some_iff.mpr ⟨int, frac, exponent, m, h, hm, by rw [heq]⟩
  refine ⟨m, _, hm, hread, ?_⟩
  generalize exponent + m.scale = shift at *
  generalize numeralValue int frac exponent = value at *
  have hshort : Shortens value (mantissa * 2 ^ e * 2 ^ shift) := by
    rw [hvalue]
    exact (hholds.shortens hshort).scale shift
  have hleast := atLeast_of_full hfull hlow
  have hshift : e + shift ≤ maxExponent := shift_le hfull (hshort.lt_overflowBound hbound)
  have hnan : scaleBy (.finite false mantissa e) shift = .nan ↔ Astray shift :=
    scaleBy_eq_nan_iff hleast hmost fun hlarge => by
      simp only [maxExponent] at hshift
      omega
  have hrounds : ¬ Astray shift →
      Rounds false (mantissa * 2 ^ e * 2 ^ shift) (scaleBy (.finite false mantissa e) shift) :=
    rounds_scaleBy hcanonical hfull hlow hmost hshift
  have hiff : Nearest value (scaleBy (.finite false mantissa e) shift) ↔
      ¬ Astray shift ∧ ¬ Misleads value := by
    by_cases hastray : Astray shift
    · rw [hnan.mpr hastray]
      exact iff_of_false (fun hnearest => hnearest.isNumber) fun hgood => hgood.1 hastray
    · rw [hshort.nearest_iff_not_misleads (hrounds hastray) hbound]
      exact (and_iff_right hastray).symm
  refine ⟨hnan.mpr, fun hastray => ?_, hiff, fun hnormal => hiff.mpr ⟨?_, ?_⟩⟩
  · exact ⟨_, hshort, (hrounds hastray).nearest (hshort.lt_overflowBound hbound)⟩
  · exact not_astray_of_normal hmost (hshort.normal_le hnormal) hlow hshift
  · exact hshort.not_misleads hnormal hbound

/-- A numeral with a point and an exponent is written as it looks. -/
theorem written_of_readSigned32 (digits : List Char)
    (hcs : cs = int ++ '.' :: frac ++ 'p' :: digits)
    (hexponent : Integer.readSigned32 digits = .ok exponent)
    (hdigits : (int ++ frac).all (fun c => (digit? c).isSome) = true) (hint : int ≠ []) :
    Written cs int frac exponent :=
  ⟨⟨int ++ '.' :: frac, 'p' :: digits, hcs, .inr rfl, .inr ⟨'p', digits, rfl, .inl rfl,
    readSigned32_eq_ok_iff.mp hexponent⟩⟩, all_eq_true.mp hdigits, .inl hint⟩

/-- A numeral of 61 binary digits, just beyond the middle between two doubles. -/
theorem rounded_numeral_beyond_middle :
    Written "1.000000000000081p0".toList ['1'] "000000000000081".toList 0 ∧
      numeralValue ['1'] "000000000000081".toList 0 < overflowBound ∧
      ∃ x, read? "1.000000000000081p0".toList = some x ∧
        Nearest (numeralValue ['1'] "000000000000081".toList 0) x := by
  have hwritten : Written "1.000000000000081p0".toList ['1'] "000000000000081".toList 0 :=
    written_of_readSigned32 ['0'] (by decide) (by decide +kernel) (by decide) (by simp)
  have hdigits : digitsFrom 0 (['1'] ++ "000000000000081".toList) = 2 ^ 60 + 129 := by decide +kernel
  have hvalue : numeralValue ['1'] "000000000000081".toList 0 = (2 ^ 60 + 129) / 2 ^ 60 := by
    have hpower : (0 : Int) - 4 * (("000000000000081".toList.length : Nat) : Int) = -60 := by decide
    rw [numeralValue, hdigits, hpower]
    norm_num
  have hbound : numeralValue ['1'] "000000000000081".toList 0 < overflowBound := by
    refine lt_trans ?_ (two_zpow_lt_overflowBound (e := 1) (by decide))
    rw [hvalue]
    norm_num
  have hnormal : 2 ^ normalExponent ≤ numeralValue ['1'] "000000000000081".toList 0 := by
    refine (two_zpow_le_iff.mpr (by decide : normalExponent ≤ 0)).trans ?_
    rw [hvalue]
    norm_num
  obtain ⟨m, x, -, hread, -, -, -, hnearest⟩ :=
    rounded_numeral hwritten ⟨'1', List.mem_cons_self, by decide⟩ hbound
  exact ⟨hwritten, hbound, x, hread, hnearest hnormal⟩

/-- **A numeral that is rounded twice**: it writes a little more than `2.5 · 2 ^ -1074`, the first
rounding leads to `2.5 · 2 ^ -1074`, and the second one from there to the even side. -/
theorem numeral_rounded_twice :
    Written "2.8000000000000001p-1074".toList ['2'] "8000000000000001".toList (-1074) ∧
      numeralValue ['2'] "8000000000000001".toList (-1074) < overflowBound ∧
      read? "2.8000000000000001p-1074".toList = some (.finite false 2 (-1074)) ∧
      Nearest (numeralValue ['2'] "8000000000000001".toList (-1074)) (.finite false 3 (-1074)) ∧
      ¬ Nearest (numeralValue ['2'] "8000000000000001".toList (-1074)) (.finite false 2 (-1074)) := by
  have hdigits : digitsFrom 0 (['2'] ++ "8000000000000001".toList) = 5 * 2 ^ 63 + 1 := by
    decide +kernel
  have hvalue : numeralValue ['2'] "8000000000000001".toList (-1074) =
      (5 * 2 ^ 63 + 1) / 2 ^ 64 * 2 ^ minExponent := by
    have hpower : (2 : ℚ) ^ (-1074 - 4 * (("8000000000000001".toList.length : Nat) : Int)) =
        1 / 2 ^ 64 * 2 ^ minExponent := by
      have hsplit : (-1074 - 4 * (("8000000000000001".toList.length : Nat) : Int)) =
          -64 + minExponent := by decide
      rw [hsplit, zpow_add₀ two_ne_zero]
      norm_num
    rw [numeralValue, hdigits, hpower]
    ring
  have hpos := two_zpow_pos minExponent
  have hlt : numeralValue ['2'] "8000000000000001".toList (-1074) < 2 ^ normalExponent := by
    rw [hvalue]
    refine lt_of_lt_of_eq ?_ (two_pow_mul 52 minExponent)
    gcongr
    norm_num
  have hle : 0 ≤ numeralValue ['2'] "8000000000000001".toList (-1074) := by
    rw [hvalue]
    positivity
  refine ⟨written_of_readSigned32 "-1074".toList (by decide) (by decide +kernel) (by decide)
    (by simp), hlt.trans (two_zpow_lt_overflowBound (by decide)), by decide +kernel, ?_, ?_⟩
  · refine (nearest_subnormal_iff hle hlt (by norm_num)).mpr ?_
    rw [hvalue, mul_div_cancel_right₀ _ hpos.ne', nearestStep_iff]
    norm_num
  · change ¬ Nearest _ (.finite false 2 minExponent)
    rw [nearest_subnormal_iff hle hlt (by norm_num), hvalue, mul_div_cancel_right₀ _ hpos.ne',
      nearestStep_iff]
    norm_num

/-! ## The digits that are kept -/

theorem digitsFrom_append (n : Nat) (xs ys : List Char) :
    digitsFrom n (xs ++ ys) = digitsFrom n xs * 16 ^ ys.length + digitsFrom 0 ys := by
  induction ys using reverseRecOn with
  | nil => simp [digitsFrom]
  | append_singleton ys c ih =>
    simp only [digitsFrom, foldl_append, foldl_cons, foldl_nil, length_append,
      length_singleton, pow_succ] at ih ⊢
    rw [ih]
    ring

theorem digitsFrom_lt (cs : List Char) : digitsFrom 0 cs < 16 ^ cs.length := by
  induction cs using reverseRecOn with
  | nil => simp [digitsFrom]
  | append_singleton cs c ih =>
    have hdigit : (digit? c).getD 0 < 16 := by
      cases hd : digit? c with
      | none => simp
      | some d => exact digit?_lt hd
    rw [digitsFrom_append, length_append, length_singleton, pow_add]
    change digitsFrom 0 cs * 16 + (16 * 0 + _) < _
    omega

theorem digitsFrom_eq_zero_iff : digitsFrom n cs = 0 ↔ n = 0 ∧ ∀ c ∈ cs, (digit? c).getD 0 = 0 := by
  induction cs generalizing n with
  | nil => simp [digitsFrom]
  | cons c cs ih =>
    change digitsFrom (16 * n + _) cs = 0 ↔ _
    rw [ih, forall_mem_cons, Nat.add_eq_zero_iff, and_assoc]
    simp

/-- The bits are the number that the first digits write, and the last ones are dropped. -/
theorem Mantissa.Holds.exists_kept (h : m.Holds (digitsFrom 0 cs) places dropped rest) :
    ∃ kept lost, cs = kept ++ lost ∧ lost.length = dropped ∧ m.bits = digitsFrom 0 kept ∧
      rest = digitsFrom 0 lost := by
  have hle : dropped ≤ cs.length := by
    by_cases hdropped : dropped = 0
    · omega
    have hbits : 1 ≤ m.bits := by
      have := h.full hdropped
      omega
    have hlt : 16 ^ dropped < 16 ^ cs.length := by
      calc 16 ^ dropped ≤ m.bits * 16 ^ dropped := Nat.le_mul_of_pos_left _ hbits
        _ ≤ digitsFrom 0 cs := by rw [h.digits]; exact Nat.le_add_right _ _
        _ < 16 ^ cs.length := digitsFrom_lt cs
    exact ((Nat.pow_lt_pow_iff_right (by norm_num)).mp hlt).le
  obtain ⟨kept, lost, hcs, hlost⟩ : ∃ kept lost, cs = kept ++ lost ∧ lost.length = dropped :=
    ⟨_, _, (take_append_drop (cs.length - dropped) cs).symm, by simp; omega⟩
  have hpos : 0 < 16 ^ dropped := by positivity
  have hlt : digitsFrom 0 lost < 16 ^ dropped := hlost ▸ digitsFrom_lt lost
  have hheld : rest + 16 ^ dropped * m.bits = digitsFrom 0 cs := by
    rw [h.digits]
    ring
  have hwritten : digitsFrom 0 lost + 16 ^ dropped * digitsFrom 0 kept = digitsFrom 0 cs := by
    rw [hcs, digitsFrom_append, hlost]
    ring
  obtain ⟨hbits, hrest⟩ := (Nat.div_mod_unique hpos).mpr ⟨hheld, h.rest_lt⟩
  obtain ⟨hkept, hrest'⟩ := (Nat.div_mod_unique hpos).mpr ⟨hwritten, hlt⟩
  exact ⟨kept, lost, hcs, hlost, hbits.symm.trans hkept, hrest.symm.trans hrest'⟩

/-! ## Rounding the mantissa -/

/-- Rounding to 53 binary digits, where zero stays zero. -/
def Shortened (q w : ℚ) : Prop := if q = 0 then w = 0 else Shortens q w

theorem shortened_iff (h : Shortens q w) : Shortened q u ↔ u = w := by
  rw [Shortened, if_neg h.pos.ne']
  exact ⟨fun hu => hu.unique h, fun hu => hu ▸ h⟩

/-- **The mantissa is rounded as the digits are.**  After any number of digits it has at most 120
bits.  It holds the first digits as they are written, and the others are lost only when 117 bits are
in use; it writes the number exactly if and only if they are zeros; and rounding it to 53 digits, as
its double is, gives the same as rounding the number. -/
theorem mantissa_rounds_as_digits (hsome : int ≠ [] ∨ frac ≠ [])
    (hdigits : ∀ c ∈ int ++ frac, (digit? c).isSome) :
    ∃ m kept lost, collect? int frac = some m ∧ int ++ frac = kept ++ lost ∧
      m.bits = digitsFrom 0 kept ∧ (lost ≠ [] → 2 ^ 116 ≤ m.bits) ∧
      (∀ n, 0 < n → ∃ m', collect? (int.take n) (frac.take (n - int.length)) = some m' ∧
        m'.bits < 2 ^ 120) ∧ m.total < 2 ^ 120 ∧
      ((m.total : ℚ) * 2 ^ m.scale = numeralValue int frac 0 ↔ ∀ c ∈ lost, c = '0') ∧
      ∀ w, (Shortened (m.total * 2 ^ m.scale) w ↔ w = (ofNat m.total).toRat * 2 ^ m.scale) ∧
        (Shortened (numeralValue int frac 0) w ↔ w = (ofNat m.total).toRat * 2 ^ m.scale) := by
  obtain ⟨m, hm⟩ := exists_collect?_iff.mpr ⟨hsome, hdigits⟩
  obtain ⟨dropped, rest, h⟩ := holds_of_collect? hm
  obtain ⟨kept, lost, hcs, rfl, hkept, hlost⟩ := h.exists_kept
  have hvalue : numeralValue int frac 0 = _ := h.value 0
  have hexact : (m.total : ℚ) * 2 ^ m.scale = numeralValue int frac 0 ↔ rest = 0 := h.exact_iff
  have hzeros : rest = 0 ↔ ∀ c ∈ lost, c = '0' := by
    rw [hlost, digitsFrom_eq_zero_iff, and_iff_right rfl]
    refine forall₂_congr fun c hc => ?_
    obtain ⟨d, hd⟩ := Option.isSome_iff_exists.mp (hdigits c (hcs ▸ List.mem_append_right _ hc))
    rw [← digit?_eq_some_zero_iff, hd, Option.getD_some, Option.some.injEq]
  refine ⟨m, kept, lost, hm, hcs, hkept, fun hne => h.full (by simpa using hne), fun n hn => ?_,
    (kept_of_collect? hm).total_lt, ?_, fun w => ?_⟩
  · have hsome' : int.take n ≠ [] ∨ frac.take (n - int.length) ≠ [] := by
      cases int with
      | nil => simpa [hn.ne'] using hsome
      | cons c cs => simp [hn.ne']
    obtain ⟨m', hm'⟩ := exists_collect?_iff.mpr ⟨hsome', fun c hc => hdigits c
      (List.mem_append.mpr ((List.mem_append.mp hc).imp List.mem_of_mem_take List.mem_of_mem_take))⟩
    exact ⟨m', hm', (kept_of_collect? hm').fits⟩
  · exact hexact.trans hzeros
  · rw [zero_add] at hvalue
    by_cases htotal : m.total = 0
    · have hrest := hzeros.mpr fun c hc =>
        (collect?_total_eq_zero_iff hm).mp htotal c (hcs ▸ List.mem_append_right _ hc)
      rw [← hexact.mpr hrest, htotal]
      simp [Shortened, ofNat, ofRatio, toRat, signed]
    · obtain ⟨mantissa, e, heq, -, -, -, -, hshort⟩ := exists_rounded_total hm htotal
      rw [heq, toRat_positive, hvalue]
      exact ⟨shortened_iff (hshort.scale _), shortened_iff ((h.shortens hshort).scale _)⟩

/-- A digit other than zero, in the 36th place: it makes the mantissa odd, and is rounded away. -/
theorem lost_digit_rounded_away :
    ∃ frac : List Char, frac = "00000000000000000000000000000000001".toList ∧
      ∃ m, collect? ['1'] frac = some m ∧ m.total = 2 ^ 116 + 1 ∧ m.scale = -116 ∧
        Shortened (numeralValue ['1'] frac 0) 1 := by
  refine ⟨_, rfl, _, (by decide +kernel : _ = some ⟨2 ^ 116, -116, true⟩), rfl, rfl, ?_⟩
  obtain ⟨m, -, -, hm, -, -, -, -, -, -, hrounds⟩ := mantissa_rounds_as_digits
    (.inl (by simp) : ['1'] ≠ [] ∨ "00000000000000000000000000000000001".toList ≠ [])
    (List.all_eq_true.mp (by decide))
  obtain rfl : (⟨2 ^ 116, -116, true⟩ : Mantissa) = m :=
    Option.some.inj ((by decide +kernel : some _ = _).trans hm)
  have hdouble : ofNat (2 ^ 116 + 1) = .finite false (2 ^ 52) 64 := by decide +kernel
  refine (hrounds 1).2.mpr ?_
  change 1 = (ofNat (2 ^ 116 + 1)).toRat * 2 ^ (-116 : Int)
  rw [hdouble, toRat_positive]
  norm_num

end Judge.HexFloat
