import Judge.Proofs.Cuts

/-!
# Proofs/Replacing — a word replaced by another

`replaceAll` goes through a list from the left and replaces a word wherever it stands.  What does
not hold the word stays as it is, and nothing is lost but the word.

A list with gaps (`Template`) tells where the word was: with the word in its gaps it is the list
before, and with the value in them the list after (`exists_template`).  The other way round, a list
that was filled with the word is replaced gap by gap if it holds the word nowhere else
(`replaceFrom_fill`).
-/

namespace Judge

open List

variable {α : Type} [BEq α] [LawfulBEq α] {needle value xs : List α} {a : α}

/-! ## What is lost and what is added -/

theorem replaceFrom_eq_self {xs : List α} (h : ¬ needle <:+: xs) :
    replaceFrom needle value 0 xs = xs := by
  induction xs with
  | nil => rfl
  | cons x xs ih =>
    rw [infix_cons_iff, not_or] at h
    have hhere : needle.isPrefixOf (x :: xs) = false :=
      Bool.eq_false_iff.mpr fun hprefix => h.1 (List.isPrefixOf_iff_prefix.mp hprefix)
    rw [replaceFrom, hhere, if_neg Bool.false_ne_true, ih h.2]

variable {x : α} {rest : List α}

/-- Where `needle` begins, it is followed by what is left after skipping it. -/
theorem eq_append_drop_of_isPrefixOf {xs : List α} (hne : needle ≠ [])
    (h : needle.isPrefixOf (x :: xs) = true) : x :: xs = needle ++ xs.drop (needle.length - 1) := by
  obtain ⟨rest, hrest⟩ := isPrefixOf_iff_prefix.mp h
  cases needle with
  | nil => exact absurd rfl hne
  | cons y needle =>
    obtain ⟨rfl, rfl⟩ := cons.inj hrest
    simp

/-- **No replacement loses an element that the needle does not have.** -/
theorem count_le_replaceFrom (hne : needle ≠ []) (ha : a ∉ needle) (skip : Nat) (xs : List α) :
    (xs.drop skip).count a ≤ (replaceFrom needle value skip xs).count a := by
  induction xs generalizing skip with
  | nil => simp [replaceFrom]
  | cons x xs ih =>
    cases skip with
    | succ skip => exact ih skip
    | zero =>
      rw [replaceFrom, drop_zero]
      split
      · rename_i hhere
        have hrest := ih (needle.length - 1)
        rw [eq_append_drop_of_isPrefixOf hne hhere, count_append, count_append,
          count_eq_zero.mpr ha]
        omega
      · have hrest := ih 0
        rw [drop_zero] at hrest
        rw [count_cons, count_cons]
        omega

/-- **A replacement adds the elements of the value.** -/
theorem count_lt_replaceFrom (hne : needle ≠ []) (ha : a ∉ needle) (hvalue : a ∈ value)
    {xs : List α} (h : needle <:+: xs) : xs.count a < (replaceFrom needle value 0 xs).count a := by
  induction xs with
  | nil => exact absurd (infix_nil.mp h) hne
  | cons x xs ih =>
    rw [replaceFrom]
    split
    · rename_i hhere
      have hrest : (xs.drop (needle.length - 1)).count a ≤
          (replaceFrom needle value (needle.length - 1) xs).count a :=
        count_le_replaceFrom hne ha _ xs
      have hpos := count_pos_iff.mpr hvalue
      rw [eq_append_drop_of_isPrefixOf hne hhere, count_append, count_append,
        count_eq_zero.mpr ha]
      omega
    · rename_i hhere
      have hlater : needle <:+: xs :=
        (infix_cons_iff.mp h).resolve_left fun hprefix =>
          hhere (List.isPrefixOf_iff_prefix.mpr hprefix)
      have hrest := ih hlater
      rw [count_cons, count_cons]
      omega

/-! ## Where the word stands -/

omit [LawfulBEq α] in
theorem replaceFrom_length_append (xs ys : List α) :
    replaceFrom needle value xs.length (xs ++ ys) = replaceFrom needle value 0 ys := by
  induction xs with
  | nil => rfl
  | cons x xs ih => exact ih

/-- The word itself is replaced where it stands first. -/
theorem replaceFrom_append_self (hne : needle ≠ []) (ys : List α) :
    replaceFrom needle value 0 (needle ++ ys) = value ++ replaceFrom needle value 0 ys := by
  obtain ⟨x, rest, rfl⟩ := exists_cons_of_ne_nil hne
  have hhere : (x :: rest).isPrefixOf (x :: (rest ++ ys)) = true :=
    isPrefixOf_iff_prefix.mpr (prefix_append (x :: rest) ys)
  rw [cons_append, replaceFrom, if_pos hhere, length_cons, Nat.add_sub_cancel,
    replaceFrom_length_append]

/-- **How often a word occurs** in a list. -/
def occurrences (needle : List α) : List α → Nat
  | [] => 0
  | x :: xs => occurrences needle xs + if needle.isPrefixOf (x :: xs) then 1 else 0

/-- A word does not begin where its first element is missing. -/
theorem occurrences_append_of_notMem (hx : x ∉ xs) (ys : List α) :
    occurrences (x :: rest) (xs ++ ys) = occurrences (x :: rest) ys := by
  induction xs with
  | nil => rfl
  | cons y xs ih =>
    obtain ⟨hy, hxs⟩ := ne_and_not_mem_of_not_mem_cons hx
    have hhere : (x :: rest).isPrefixOf (y :: (xs ++ ys)) = false := by
      simp [isPrefixOf, hy]
    rw [cons_append, occurrences, hhere, if_neg Bool.false_ne_true, Nat.add_zero, ih hxs]

/-- A word that does not begin inside of itself occurs once more in front. -/
theorem occurrences_append_self (hx : x ∉ rest) (ys : List α) :
    occurrences (x :: rest) (x :: rest ++ ys) = occurrences (x :: rest) ys + 1 := by
  have hhere : (x :: rest).isPrefixOf (x :: (rest ++ ys)) = true :=
    isPrefixOf_iff_prefix.mpr (prefix_append (x :: rest) ys)
  rw [cons_append, occurrences, hhere, if_pos rfl, occurrences_append_of_notMem hx]

/-! ## Lists with gaps -/

/-- **A list with gaps.** -/
abbrev Template (α : Type) := List (Option α)

namespace Template

omit [BEq α] [LawfulBEq α]

/-- The list with `x` in every gap. -/
def fill (x : List α) (t : Template α) : List α := t.flatMap fun e => e.elim x ([·])

def gaps (t : Template α) : Nat := t.countP Option.isNone

@[simp] theorem fill_nil (x : List α) : fill x [] = [] := rfl

@[simp] theorem fill_some (x : List α) (c : α) (t : Template α) :
    fill x (some c :: t) = c :: fill x t := rfl

@[simp] theorem fill_none (x : List α) (t : Template α) : fill x (none :: t) = x ++ fill x t := rfl

@[simp] theorem fill_append (x : List α) (t u : Template α) :
    fill x (t ++ u) = fill x t ++ fill x u := flatMap_append

@[simp] theorem fill_map_some (x cs : List α) : fill x (cs.map some) = cs := by
  induction cs with
  | nil => rfl
  | cons c cs ih => rw [map_cons, fill_some, ih]

@[simp] theorem gaps_nil : gaps ([] : Template α) = 0 := rfl

@[simp] theorem gaps_some (c : α) (t : Template α) : gaps (some c :: t) = gaps t := by
  simp [gaps]

@[simp] theorem gaps_none (t : Template α) : gaps (none :: t) = gaps t + 1 := by
  simp [gaps]

@[simp] theorem gaps_append (t u : Template α) : gaps (t ++ u) = gaps t + gaps u :=
  countP_append

@[simp] theorem gaps_map_some (cs : List α) : gaps (cs.map some) = 0 := by
  induction cs with
  | nil => rfl
  | cons c cs ih => rw [map_cons, gaps_some, ih]

end Template

open Template

/-- **A list is a template filled with the word**, and replacing the word fills it with the
value. -/
theorem exists_template (hx : x ∉ rest) (xs : List α) :
    ∃ t : Template α, fill (x :: rest) t = xs ∧ gaps t = occurrences (x :: rest) xs ∧
      ∀ value, fill value t = replaceFrom (x :: rest) value 0 xs := by
  -- the list is gone through as by the replacement, which skips the rest of a word it has met
  suffices hskip : ∀ skip, ∃ t : Template α, fill (x :: rest) t = xs.drop skip ∧
      gaps t = occurrences (x :: rest) (xs.drop skip) ∧
      ∀ value, fill value t = replaceFrom (x :: rest) value skip xs from hskip 0
  induction xs with
  | nil =>
    intro skip
    exact ⟨[], by simp, by simp [occurrences], fun value => by simp [replaceFrom]⟩
  | cons y xs ih =>
    intro skip
    cases skip with
    | succ skip => exact ih skip
    | zero =>
      by_cases hhere : (x :: rest).isPrefixOf (y :: xs) = true
      · obtain ⟨t, hfill, hgaps, hvalue⟩ := ih rest.length
        have hcut : y :: xs = x :: rest ++ xs.drop rest.length :=
          eq_append_drop_of_isPrefixOf (cons_ne_nil x rest) hhere
        refine ⟨none :: t, ?_, ?_, fun value => ?_⟩
        · rw [fill_none, hfill, drop_zero, hcut]
        · rw [gaps_none, hgaps, drop_zero, hcut, occurrences_append_self hx]
        · rw [fill_none, hvalue, replaceFrom, if_pos hhere]
          rfl
      · obtain ⟨t, hfill, hgaps, hvalue⟩ := ih 0
        refine ⟨some y :: t, ?_, ?_, fun value => ?_⟩
        · rw [fill_some, hfill, drop_zero, drop_zero]
        · rw [gaps_some, hgaps, drop_zero, drop_zero, occurrences, if_neg hhere,
            Nat.add_zero]
        · rw [fill_some, hvalue, replaceFrom, if_neg hhere]

/-- Every gap holds the word once it is filled with it. -/
theorem gaps_le_occurrences (hx : x ∉ rest) (t : Template α) :
    gaps t ≤ occurrences (x :: rest) (fill (x :: rest) t) := by
  induction t with
  | nil => exact Nat.zero_le _
  | cons e t ih =>
    cases e with
    | some c =>
      rw [gaps_some, fill_some, occurrences]
      omega
    | none =>
      rw [gaps_none, fill_none, occurrences_append_self hx]
      omega

/-- **A list filled with the word is replaced gap by gap**, if the word occurs only in the gaps. -/
theorem replaceFrom_fill (hx : x ∉ rest) {t : Template α}
    (hgaps : occurrences (x :: rest) (fill (x :: rest) t) ≤ gaps t) :
    replaceFrom (x :: rest) value 0 (fill (x :: rest) t) = fill value t := by
  induction t with
  | nil => rfl
  | cons e t ih =>
    cases e with
    | some c =>
      have hleast := gaps_le_occurrences hx t
      rw [gaps_some, fill_some, occurrences] at hgaps
      have hhere : ¬ (x :: rest).isPrefixOf (c :: fill (x :: rest) t) = true := by
        intro hprefix
        rw [if_pos hprefix] at hgaps
        omega
      rw [if_neg hhere] at hgaps
      rw [fill_some, replaceFrom, if_neg hhere, ih hgaps, fill_some]
    | none =>
      rw [gaps_none, fill_none, occurrences_append_self hx] at hgaps
      rw [fill_none, replaceFrom_append_self (cons_ne_nil x rest),
        ih (Nat.le_of_succ_le_succ hgaps), fill_none]

end Judge
