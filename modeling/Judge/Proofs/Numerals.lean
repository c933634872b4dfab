import Judge.Number.Integer
import Judge.Proofs.Basic

/-!
# Proofs/Numerals — which texts are integers

The readers check the bound after every digit.  Since further digits never make a number smaller,
that is the same as checking it once at the end (`readDigits_eq_ok_iff`): a text is read if and only
if it is written as a number and the number fits (`readNat_eq_ok_iff`, `readInt_eq_ok_iff`).
-/

namespace Judge.Integer

variable {limit low high acc n : Nat} {i : Int} {overflow : IntegerError} {cs : List Char}

/-! ## How numbers are written -/

/-- Decimal digits, at least one, for the number `n`. -/
def Numeral (cs : List Char) (n : Nat) : Prop :=
  cs ≠ [] ∧ (∀ c ∈ cs, c.isDigit = true) ∧ Nat.ofDigitChars 10 cs 0 = n

/-- A numeral, with a plus sign in front or without. -/
def Natural (cs : List Char) (n : Nat) : Prop :=
  Numeral cs n ∨ ∃ digits, cs = '+' :: digits ∧ Numeral digits n

/-- A numeral with a sign in front or without. -/
def Signed (cs : List Char) (i : Int) : Prop :=
  (∃ n : Nat, Natural cs n ∧ i = n) ∨
    ∃ digits, ∃ n : Nat, cs = '-' :: digits ∧ Numeral digits n ∧ i = -n

theorem not_numeral_cons {c : Char} (hc : c.isDigit = false) : ¬ Numeral (c :: cs) n := by
  rintro ⟨-, hdigits, -⟩
  rw [hdigits c List.mem_cons_self] at hc
  contradiction

theorem natural_plus_iff : Natural ('+' :: cs) n ↔ Numeral cs n := by
  constructor
  · rintro (h | ⟨digits, heq, h⟩)
    · exact absurd h (not_numeral_cons rfl)
    · rwa [(List.cons.inj heq).2]
  · exact fun h => .inr ⟨cs, rfl, h⟩

theorem natural_iff_numeral (hplus : cs.head? ≠ some '+') : Natural cs n ↔ Numeral cs n := by
  refine ⟨?_, .inl⟩
  rintro (h | ⟨digits, rfl, -⟩)
  · exact h
  · exact absurd rfl hplus

theorem signed_iff_natural (hminus : cs.head? ≠ some '-') :
    Signed cs i ↔ ∃ n : Nat, Natural cs n ∧ i = n := by
  refine ⟨?_, .inl⟩
  rintro (h | ⟨digits, n, rfl, -⟩)
  · exact h
  · exact absurd rfl hminus

theorem signed_minus_iff : Signed ('-' :: cs) i ↔ ∃ n : Nat, Numeral cs n ∧ i = -n := by
  constructor
  · rintro (⟨n, h, -⟩ | ⟨digits, n, heq, h, rfl⟩)
    · rw [natural_iff_numeral (by simp)] at h
      exact absurd h (not_numeral_cons rfl)
    · exact ⟨n, by rwa [(List.cons.inj heq).2], rfl⟩
  · rintro ⟨n, h, rfl⟩
    exact .inr ⟨cs, n, rfl, h, rfl⟩

/-! ## Reading them -/

theorem digit?_eq (c : Char) :
    digit? c = if c.isDigit then some (c.toNat - '0'.toNat) else none := by
  have hdigit : ('0' ≤ c ∧ c ≤ '9') ↔ c.isDigit = true := by
    simp only [Char.isDigit, Bool.and_eq_true, decide_eq_true_eq, Char.le_def]
  simp only [digit?, hdigit]

/-- Further digits never make a number smaller. -/
theorem le_ofDigitChars (cs : List Char) (acc : Nat) : acc ≤ Nat.ofDigitChars 10 cs acc := by
  induction cs generalizing acc with
  | nil => exact Nat.le_refl acc
  | cons c cs ih =>
    rw [Nat.ofDigitChars_cons]
    exact Nat.le_trans (by omega) (ih _)

/-- **One check at the end is enough.** -/
theorem readDigits_eq_ok_iff (hacc : acc ≤ limit) :
    readDigits limit overflow acc cs = .ok n ↔
      (∀ c ∈ cs, c.isDigit = true) ∧ Nat.ofDigitChars 10 cs acc = n ∧ n ≤ limit := by
  induction cs generalizing acc with
  | nil =>
    simp only [readDigits, Except.ok.injEq, List.not_mem_nil, false_implies, implies_true, true_and]
    exact ⟨fun h => ⟨h, h ▸ hacc⟩, And.left⟩
  | cons c cs ih =>
    rw [readDigits, digit?_eq, List.forall_mem_cons, Nat.ofDigitChars_cons, Nat.mul_comm 10 acc]
    cases hc : c.isDigit with
    | false => simp
    | true =>
      simp only [if_true, true_and]
      split
      next hover =>
        refine iff_of_false nofun ?_
        rintro ⟨-, rfl, hle⟩
        have hgrow := le_ofDigitChars cs (acc * 10 + (c.toNat - '0'.toNat))
        omega
      next hfits => exact ih (Nat.le_of_not_lt hfits)

theorem readMagnitude_eq_ok_iff :
    readMagnitude limit overflow cs = .ok n ↔ Numeral cs n ∧ n ≤ limit := by
  rw [readMagnitude, Numeral, and_assoc, and_assoc]
  split
  next hnil => exact iff_of_false nofun fun h => h.1 (List.isEmpty_iff.1 hnil)
  next hne =>
    rw [readDigits_eq_ok_iff (Nat.zero_le limit)]
    exact ⟨fun h => ⟨fun hnil => hne (List.isEmpty_iff.2 hnil), h⟩, And.right⟩

theorem head?_ne_of_not_cons {c : Char} (h : ∀ digits, cs = c :: digits → False) :
    cs.head? ≠ some c := by
  intro hhead
  obtain ⟨digits, hcons⟩ := List.head?_eq_some_iff.1 hhead
  exact h digits hcons

theorem readNat_eq_ok_iff : readNat limit cs = .ok n ↔ Natural cs n ∧ n ≤ limit := by
  unfold readNat
  split
  next => simp [Natural, Numeral]
  next digits => rw [natural_plus_iff, readMagnitude_eq_ok_iff]
  next _ hplus =>
    rw [readMagnitude_eq_ok_iff, natural_iff_numeral (head?_ne_of_not_cons hplus)]

/-- The number that follows a sign or no sign. -/
theorem map_readMagnitude_eq_ok_iff (low : Nat) :
    (readMagnitude high overflow cs).map Int.ofNat = .ok i ↔
      (∃ n : Nat, Numeral cs n ∧ i = n) ∧ -(low : Int) ≤ i ∧ i ≤ high := by
  simp only [map_eq_ok_iff, readMagnitude_eq_ok_iff]
  constructor
  · rintro ⟨n, ⟨hnumeral, hle⟩, rfl⟩
    rw [Int.ofNat_eq_natCast]
    exact ⟨⟨n, hnumeral, rfl⟩, by omega, by omega⟩
  · rintro ⟨⟨n, hnumeral, rfl⟩, -, hle⟩
    exact ⟨n, ⟨hnumeral, by omega⟩, rfl⟩

theorem readInt_eq_ok_iff :
    readInt low high cs = .ok i ↔ Signed cs i ∧ -(low : Int) ≤ i ∧ i ≤ high := by
  unfold readInt
  split
  next => simp [Signed, Natural, Numeral]
  next digits =>
    rw [map_readMagnitude_eq_ok_iff low, signed_iff_natural (by simp)]
    simp only [natural_plus_iff]
  next digits =>
    simp only [map_eq_ok_iff, readMagnitude_eq_ok_iff, signed_minus_iff]
    constructor
    · rintro ⟨n, ⟨hnumeral, hle⟩, rfl⟩
      rw [Int.ofNat_eq_natCast]
      exact ⟨⟨n, hnumeral, rfl⟩, by omega, by omega⟩
    · rintro ⟨⟨n, hnumeral, rfl⟩, hle, -⟩
      exact ⟨n, ⟨hnumeral, by omega⟩, rfl⟩
  next _ hplus hminus =>
    rw [map_readMagnitude_eq_ok_iff low, signed_iff_natural (head?_ne_of_not_cons hminus)]
    simp only [natural_iff_numeral (head?_ne_of_not_cons hplus)]

end Judge.Integer
