import Judge.Number.HexFloat
import Judge.Proofs.Cuts
import Judge.Proofs.Numerals

/-!
# Proofs/HexNumerals — which texts are hexadecimal numerals

`Written cs int frac exponent` says how a numeral is written; a text is read if and only if it is
written so (`read?_eq_some_iff`), and then as the mantissa of its digits moved by its exponent.

The mantissa is collected digit by digit.  What one digit preserves is `Mantissa.Kept.push`: the
bits fit into 120, and a digit is dropped only when at least 117 of them are in use.  It is zero if
and only if all digits are (`collect?_total_eq_zero_iff`).
-/

namespace Judge.HexFloat

open List

variable {c : Char} {cs int frac mantissa : List Char} {exponent : Int} {d : Nat}
  {fractional : Bool} {m m' : Mantissa} {x : Binary64}

/-! ## Digits -/

theorem digit?_eq (c : Char) :
    digit? c =
      if 48 ≤ c.toNat ∧ c.toNat ≤ 57 then some (c.toNat - 48)
      else if 97 ≤ c.toNat ∧ c.toNat ≤ 102 then some (c.toNat - 97 + 10)
      else if 65 ≤ c.toNat ∧ c.toNat ≤ 70 then some (c.toNat - 65 + 10)
      else none := by
  simp only [digit?, Char.le_def, UInt32.le_iff_toNat_le]
  rfl

theorem digit?_lt (h : digit? c = some d) : d < 16 := by
  rw [digit?_eq] at h
  split_ifs at h <;> (obtain rfl := Option.some.inj h; omega)

theorem digit?_eq_some_zero_iff : digit? c = some 0 ↔ c = '0' := by
  constructor
  · intro h
    rw [digit?_eq] at h
    have hzero : c.toNat = '0'.toNat := by
      change c.toNat = 48
      split_ifs at h <;> simp only [Option.some.injEq] at h <;> omega
    exact Char.toNat_inj.mp hzero
  · rintro rfl
    rfl

/-! ## Collecting digits -/

theorem pushAll_cons_eq_some_iff :
    m.pushAll fractional (c :: cs) = some m' ↔
      ∃ d, digit? c = some d ∧ (m.push fractional d).pushAll fractional cs = some m' := by
  rw [Mantissa.pushAll]
  cases digit? c <;> simp

/-- What every digit preserves holds after all of them. -/
theorem pushAll_induction {P : Mantissa → Prop} (h : m.pushAll fractional cs = some m') (hm : P m)
    (hpush : ∀ m d, d < 16 → P m → P (m.push fractional d)) : P m' := by
  induction cs generalizing m with
  | nil =>
    obtain rfl := Option.some.inj h
    exact hm
  | cons c cs ih =>
    obtain ⟨d, hd, hrest⟩ := pushAll_cons_eq_some_iff.mp h
    exact ih hrest (hpush m d (digit?_lt hd) hm)

/-- Digits are collected if and only if they are digits. -/
theorem isSome_pushAll_iff : (m.pushAll fractional cs).isSome ↔ ∀ c ∈ cs, (digit? c).isSome := by
  induction cs generalizing m with
  | nil => simp [Mantissa.pushAll]
  | cons c cs ih =>
    rw [Mantissa.pushAll]
    cases hd : digit? c with
    | none => simp [hd]
    | some d => simp [hd, ih]

/-- **The digits kept so far** fit into 120 bits, and only when more than 116 of them are in use was
a digit dropped. -/
structure Mantissa.Kept (m : Mantissa) : Prop where
  fits : m.bits < 2 ^ 120
  full : m.sticky = true ∨ 0 < m.scale → 2 ^ 116 ≤ m.bits

theorem Mantissa.Kept.push (h : m.Kept) (fractional : Bool) (hd : d < 16) :
    (m.push fractional d).Kept := by
  unfold Mantissa.push
  split
  · rename_i hfree
    have hbits : m.bits < 2 ^ 116 := by omega
    have hnone : ¬ (m.sticky = true ∨ 0 < m.scale) := fun hdropped =>
      absurd (h.full hdropped) (by omega)
    refine ⟨by dsimp only; omega, fun hdropped => absurd ?_ hnone⟩
    refine hdropped.imp id fun hscale => ?_
    dsimp only at hscale
    split at hscale <;> omega
  · rename_i hfull
    exact ⟨h.fits, fun _ => by dsimp only; omega⟩

theorem push_bits_eq_zero_iff : (m.push fractional d).bits = 0 ↔ m.bits = 0 ∧ d = 0 := by
  unfold Mantissa.push
  split <;> (dsimp only; omega)

/-- As long as there is nothing but zeros, every digit is kept. -/
theorem push_scale_of_bits_eq_zero (h : m.bits = 0) :
    (m.push fractional d).scale = if fractional then m.scale - 4 else m.scale := by
  rw [Mantissa.push, if_pos (by rw [h]; rfl)]

theorem pushAll_bits_eq_zero_iff (h : m.pushAll fractional cs = some m') :
    m'.bits = 0 ↔ m.bits = 0 ∧ ∀ c ∈ cs, c = '0' := by
  induction cs generalizing m with
  | nil =>
    obtain rfl := Option.some.inj h
    simp
  | cons c cs ih =>
    obtain ⟨d, hd, hrest⟩ := pushAll_cons_eq_some_iff.mp h
    have hzero : d = 0 ↔ c = '0' := by
      rw [← digit?_eq_some_zero_iff, hd, Option.some.injEq]
    rw [ih hrest, push_bits_eq_zero_iff, hzero, forall_mem_cons, and_assoc]

theorem pushAll_scale_of_bits_eq_zero (h : m.pushAll fractional cs = some m') (hm : m'.bits = 0) :
    m'.scale = if fractional then m.scale - 4 * cs.length else m.scale := by
  induction cs generalizing m with
  | nil =>
    obtain rfl := Option.some.inj h
    simp
  | cons c cs ih =>
    obtain ⟨d, -, hrest⟩ := pushAll_cons_eq_some_iff.mp h
    have hzero := (push_bits_eq_zero_iff.mp ((pushAll_bits_eq_zero_iff hrest).mp hm).1).1
    rw [ih hrest, push_scale_of_bits_eq_zero hzero, length_cons]
    split <;> omega

/-! ## The mantissa of a numeral -/

theorem collect?_eq_some_iff :
    collect? int frac = some m ↔ (int ≠ [] ∨ frac ≠ []) ∧ ∃ whole : Mantissa,
      Mantissa.pushAll false {} int = some whole ∧ whole.pushAll true frac = some m := by
  unfold collect?
  split
  · simp_all
  · rename_i hsome
    rw [Option.bind_eq_some_iff]
    have hside : int ≠ [] ∨ frac ≠ [] := by
      simpa [← not_and_or] using hsome
    simp only [hside, true_and]

/-- There is a mantissa for digits of any kind and number, as long as there is one. -/
theorem exists_collect?_iff :
    (∃ m, collect? int frac = some m) ↔
      (int ≠ [] ∨ frac ≠ []) ∧ ∀ c ∈ int ++ frac, (digit? c).isSome := by
  simp only [collect?_eq_some_iff, forall_mem_append, exists_and_left]
  refine and_congr_right fun _ => ⟨?_, fun ⟨hint, hfrac⟩ => ?_⟩
  · rintro ⟨m, whole, hwhole, hm⟩
    exact ⟨isSome_pushAll_iff.mp (Option.isSome_of_eq_some hwhole),
      isSome_pushAll_iff.mp (Option.isSome_of_eq_some hm)⟩
  · obtain ⟨whole, hwhole⟩ := Option.isSome_iff_exists.mp (isSome_pushAll_iff.mpr hint)
    obtain ⟨m, hm⟩ := Option.isSome_iff_exists.mp (isSome_pushAll_iff.mpr hfrac)
    exact ⟨m, whole, hwhole, hm⟩

theorem kept_of_collect? (h : collect? int frac = some m) : m.Kept := by
  obtain ⟨-, whole, hwhole, hm⟩ := collect?_eq_some_iff.mp h
  have hstart : Mantissa.Kept {} := ⟨by decide, by simp⟩
  have hkept := pushAll_induction hwhole hstart fun m d hd hm => hm.push false hd
  exact pushAll_induction hm hkept fun m d hd hm => hm.push true hd

theorem Mantissa.Kept.total_lt (h : m.Kept) : m.total < 2 ^ 120 := by
  have hfits := h.fits
  unfold Mantissa.total
  split
  · rename_i hsticky
    simp only [Bool.and_eq_true, beq_iff_eq] at hsticky
    omega
  · exact hfits

theorem Mantissa.bits_le_total (m : Mantissa) : m.bits ≤ m.total := by
  unfold Mantissa.total
  split <;> omega

theorem Mantissa.Kept.total_eq_zero_iff (h : m.Kept) : m.total = 0 ↔ m.bits = 0 := by
  have hle := m.bits_le_total
  refine ⟨fun hzero => by omega, fun hzero => ?_⟩
  have hsticky : m.sticky = false := Bool.eq_false_iff.mpr fun hsticky =>
    absurd (h.full (.inl hsticky)) (by omega)
  simp [Mantissa.total, hsticky, hzero]

/-- **The mantissa is zero if and only if all digits are.** -/
theorem collect?_total_eq_zero_iff (h : collect? int frac = some m) :
    m.total = 0 ↔ ∀ c ∈ int ++ frac, c = '0' := by
  obtain ⟨-, whole, hwhole, hm⟩ := collect?_eq_some_iff.mp h
  rw [(kept_of_collect? h).total_eq_zero_iff, pushAll_bits_eq_zero_iff hm,
    pushAll_bits_eq_zero_iff hwhole, forall_mem_append]
  simp only [true_and]

/-- The zeros after the point are counted. -/
theorem collect?_scale_of_total_eq_zero (h : collect? int frac = some m) (hm : m.total = 0) :
    m.scale = -(4 * frac.length) := by
  obtain ⟨-, whole, hwhole, hfrac⟩ := collect?_eq_some_iff.mp h
  have hbits := (kept_of_collect? h).total_eq_zero_iff.mp hm
  have hwholeBits := ((pushAll_bits_eq_zero_iff hfrac).mp hbits).1
  rw [pushAll_scale_of_bits_eq_zero hfrac hbits, if_pos rfl,
    pushAll_scale_of_bits_eq_zero hwhole hwholeBits, if_neg Bool.false_ne_true]
  simp

/-! ## How numerals are written -/

/-- A character that announces an exponent. -/
def IsMark (c : Char) : Prop := c = 'p' ∨ c = 'P'

/-- **What may follow the digits**: nothing, or a mark and a signed number of 32 bits. -/
def ExponentPart (tail : List Char) (exponent : Int) : Prop :=
  tail = [] ∧ exponent = 0 ∨ ∃ mark digits, tail = mark :: digits ∧ IsMark mark ∧
    Integer.Signed digits exponent ∧ -2 ^ 31 ≤ exponent ∧ exponent < 2 ^ 31

/-- **How a numeral is written**: hexadecimal digits, at least one, perhaps with a point among them,
and what may follow. -/
structure Written (cs int frac : List Char) (exponent : Int) : Prop where
  parts : ∃ mantissa tail, cs = mantissa ++ tail ∧
    (mantissa = int ∧ frac = [] ∨ mantissa = int ++ '.' :: frac) ∧ ExponentPart tail exponent
  digits : ∀ c ∈ int ++ frac, (digit? c).isSome
  nonempty : int ≠ [] ∨ frac ≠ []

theorem readSigned32_eq_ok_iff :
    Integer.readSigned32 cs = .ok exponent ↔
      Integer.Signed cs exponent ∧ -2 ^ 31 ≤ exponent ∧ exponent < 2 ^ 31 := by
  rw [Integer.readSigned32, Integer.readInt_eq_ok_iff]
  refine and_congr_right fun _ => ?_
  omega

theorem isMark_iff : (c != 'p' && c != 'P') = false ↔ IsMark c := by
  rw [Bool.and_eq_false_iff, bne_eq_false_iff_eq, bne_eq_false_iff_eq, IsMark]

theorem cutExponent?_eq_some_iff :
    cutExponent? cs = some (mantissa, exponent) ↔
      ∃ tail, cs = mantissa ++ tail ∧ (∀ c ∈ mantissa, ¬ IsMark c) ∧
        ExponentPart tail exponent := by
  unfold cutExponent?
  constructor
  · intro h
    have hsplit : cs = cs.takeWhile (fun c => c != 'p' && c != 'P') ++
        cs.dropWhile (fun c => c != 'p' && c != 'P') := takeWhile_append_dropWhile.symm
    have hfree : ∀ c ∈ cs.takeWhile (fun c => c != 'p' && c != 'P'), ¬ IsMark c := fun c hc => by
      rw [← isMark_iff, Bool.not_eq_false]
      exact all_eq_true.mp all_takeWhile c hc
    cases hdrop : cs.dropWhile fun c => c != 'p' && c != 'P' with
    | nil =>
      simp only [hdrop] at h
      obtain ⟨rfl, rfl⟩ := Prod.mk.inj (Option.some.inj h)
      exact ⟨[], by rwa [hdrop] at hsplit, hfree, .inl ⟨rfl, rfl⟩⟩
    | cons mark digits =>
      simp only [hdrop] at h
      split at h
      · rename_i e he
        obtain ⟨rfl, rfl⟩ := Prod.mk.inj (Option.some.inj h)
        have hmark : IsMark mark :=
          isMark_iff.mp (head_dropWhile _ cs mark (by rw [hdrop, head?_cons]))
        exact ⟨mark :: digits, by rwa [hdrop] at hsplit, hfree, .inr ⟨mark, digits, rfl, hmark,
          readSigned32_eq_ok_iff.mp he⟩⟩
      · cases h
  · rintro ⟨tail, rfl, hfree, htail⟩
    have hfree : ∀ c ∈ mantissa, (c != 'p' && c != 'P') = true := fun c hc =>
      Bool.eq_true_of_not_eq_false fun h => hfree c hc (isMark_iff.mp h)
    simp only [takeWhile_append_of_pos hfree, dropWhile_append_of_pos hfree]
    rcases htail with ⟨rfl, rfl⟩ | ⟨mark, digits, rfl, hmark, hexponent⟩
    · simp
    · rw [← isMark_iff] at hmark
      simp [hmark, readSigned32_eq_ok_iff.mpr hexponent]

/-- The digits are cut at the first point, if there is one. -/
theorem cutPoint_eq_iff :
    (cutAt ['.'] mantissa).getD (mantissa, []) = (int, frac) ↔
      '.' ∉ int ∧ (mantissa = int ∧ frac = [] ∨ mantissa = int ++ '.' :: frac) := by
  cases hcut : cutAt ['.'] mantissa with
  | none =>
    have hnone : '.' ∉ mantissa := fun hmem => by
      obtain ⟨front, back, rfl⟩ := append_of_mem hmem
      exact (cutAt_eq_none_iff (cons_ne_nil _ _)).mp hcut ⟨front, back, by simp⟩
    rw [Option.getD_none, Prod.mk.injEq]
    constructor
    · rintro ⟨rfl, rfl⟩
      exact ⟨hnone, .inl ⟨rfl, rfl⟩⟩
    · rintro ⟨-, ⟨rfl, rfl⟩ | rfl⟩
      · exact ⟨rfl, rfl⟩
      · exact absurd (mem_append_right int mem_cons_self) hnone
  | some cut =>
    obtain ⟨lead, rest⟩ := cut
    obtain ⟨rfl, hlead⟩ := cutAt_singleton_eq_some_iff.mp hcut
    rw [Option.getD_some]
    constructor
    · intro h
      obtain ⟨rfl, rfl⟩ := Prod.mk.inj h
      exact ⟨hlead, .inr rfl⟩
    · rintro ⟨hint, ⟨rfl, rfl⟩ | heq⟩
      · exact absurd (mem_append_right lead mem_cons_self) hint
      · rw [heq, cutAt_singleton_eq_some_iff.mpr ⟨rfl, hint⟩] at hcut
        exact (Option.some.inj hcut).symm

theorem read?_eq_some_iff_cut :
    read? cs = some x ↔ ∃ mantissa exponent int frac m,
      cutExponent? cs = some (mantissa, exponent) ∧
      (cutAt ['.'] mantissa).getD (mantissa, []) = (int, frac) ∧ collect? int frac = some m ∧
      x = scaleBy (.ofNat m.total) (exponent + m.scale) := by
  unfold read?
  constructor
  · intro h
    obtain ⟨⟨mantissa, exponent⟩, hcut, h⟩ := Option.bind_eq_some_iff.mp h
    dsimp only at h
    generalize hpoint : (cutAt ['.'] mantissa).getD (mantissa, []) = sides at h
    obtain ⟨int, frac⟩ := sides
    obtain ⟨m, hm, h⟩ := Option.bind_eq_some_iff.mp h
    exact ⟨mantissa, exponent, int, frac, m, hcut, hpoint, hm, (Option.some.inj h).symm⟩
  · rintro ⟨mantissa, exponent, int, frac, m, hcut, hpoint, hm, rfl⟩
    simp [hcut, hpoint, hm]

/-- **A text is read if and only if it is written as a numeral.** -/
theorem read?_eq_some_iff :
    read? cs = some x ↔ ∃ int frac exponent m, Written cs int frac exponent ∧
      collect? int frac = some m ∧ x = scaleBy (.ofNat m.total) (exponent + m.scale) := by
  rw [read?_eq_some_iff_cut]
  constructor
  · rintro ⟨mantissa, exponent, int, frac, m, hcut, hpoint, hm, rfl⟩
    obtain ⟨tail, rfl, -, htail⟩ := cutExponent?_eq_some_iff.mp hcut
    obtain ⟨hne, hdigits⟩ := exists_collect?_iff.mp ⟨m, hm⟩
    have hparts := (cutPoint_eq_iff.mp hpoint).2
    exact ⟨int, frac, exponent, m, ⟨⟨mantissa, tail, rfl, hparts, htail⟩, hdigits, hne⟩, hm, rfl⟩
  · rintro ⟨int, frac, exponent, m, ⟨⟨mantissa, tail, rfl, hparts, htail⟩, hdigits, -⟩, hm, rfl⟩
    -- neither a point nor a mark is a digit
    have hpoint : '.' ∉ int := fun hmem =>
      absurd (hdigits '.' (mem_append_left frac hmem)) (by decide)
    have hmark : ∀ c ∈ mantissa, ¬ IsMark c := by
      intro c hc hmark
      have hnone : ¬ (digit? c).isSome ∧ c ≠ '.' := by
        rcases hmark with rfl | rfl <;> decide
      rcases hparts with ⟨rfl, rfl⟩ | rfl
      · exact hnone.1 (hdigits c (mem_append_left [] hc))
      · refine hnone.1 (hdigits c ?_)
        simpa [hnone.2] using hc
    exact ⟨mantissa, exponent, int, frac, m,
      cutExponent?_eq_some_iff.mpr ⟨tail, rfl, hmark, htail⟩,
      cutPoint_eq_iff.mpr ⟨hpoint, hparts⟩, hm, rfl⟩

end Judge.HexFloat
