import Judge.Proofs.Utf8

/-!
# Proofs/Cuts — where a text is cut

`cutAt` cuts at the first occurrence of a word and fails exactly when there is none; `trim` leaves a
text with no blank at its ends and does not change such a text.  `splitWhere` takes the two sides of
an element of its class apart.
-/

namespace Judge

open List

variable {α : Type}

/-! ## At a word -/

section CutAt

variable [BEq α] [LawfulBEq α] {needle xs lead rest : List α}

theorem cutAt_append (hne : needle ≠ []) (rest : List α) :
    cutAt needle (needle ++ rest) = some ([], rest) := by
  obtain ⟨x, more, rfl⟩ := exists_cons_of_ne_nil hne
  have hlead : (x :: more).isPrefixOf (x :: (more ++ rest)) = true :=
    isPrefixOf_iff_prefix.2 (prefix_append (x :: more) rest)
  simp [cutAt, hlead]

theorem cutAt_cons_of_not_isPrefix {x : α} (hlead : ¬ needle <+: x :: xs) :
    cutAt needle (x :: xs) = (cutAt needle xs).map fun cut => (x :: cut.1, cut.2) := by
  rw [cutAt, if_neg (fun h => hlead (List.isPrefixOf_iff_prefix.1 h))]

omit [BEq α] [LawfulBEq α] in
/-- What comes before the end of an occurrence is an initial part of the text. -/
theorem append_dropLast_isPrefix (lead needle rest : List α) :
    lead ++ needle.dropLast <+: lead ++ needle ++ rest := by
  rw [append_assoc, prefix_append_right_inj]
  exact (List.dropLast_prefix needle).trans (prefix_append needle rest)

/-! Where the word first occurs: at the start, if it stands there, and otherwise where it first
occurs in the rest. -/

omit [BEq α] [LawfulBEq α] in
theorem first_at_start_iff (hne : needle ≠ []) {tail : List α} :
    (needle ++ tail = lead ++ needle ++ rest ∧ ¬ needle <:+: lead ++ needle.dropLast) ↔
      lead = [] ∧ tail = rest := by
  have hpos := length_pos_iff.2 hne
  constructor
  · rintro ⟨hcut, hfirst⟩
    cases lead with
    | nil => exact ⟨rfl, append_cancel_left hcut⟩
    | cons y lead =>
      -- the word stands at the start, so before the end of any later occurrence
      have hother := append_dropLast_isPrefix (y :: lead) needle rest
      refine absurd (prefix_of_prefix_length_le ⟨tail, hcut⟩ hother ?_).isInfix hfirst
      simp only [length_cons, length_append, length_dropLast]
      omega
  · rintro ⟨rfl, rfl⟩
    refine ⟨rfl, fun hoccurs => ?_⟩
    have hlength := hoccurs.length_le
    rw [nil_append, length_dropLast] at hlength
    omega

omit [BEq α] [LawfulBEq α] in
theorem first_after_iff {x : α} (hlead : ¬ needle <+: x :: xs) :
    (x :: xs = lead ++ needle ++ rest ∧ ¬ needle <:+: lead ++ needle.dropLast) ↔
      ∃ front, lead = x :: front ∧
        xs = front ++ needle ++ rest ∧ ¬ needle <:+: front ++ needle.dropLast := by
  constructor
  · rintro ⟨hcut, hfirst⟩
    cases lead with
    | nil => exact absurd ⟨rest, hcut.symm⟩ hlead
    | cons y front =>
      obtain ⟨rfl, htail⟩ := cons.inj hcut
      exact ⟨front, rfl, htail, fun hoccurs => hfirst (infix_cons_iff.2 (.inr hoccurs))⟩
  · rintro ⟨front, rfl, rfl, hfirst⟩
    refine ⟨rfl, fun hoccurs => ?_⟩
    rcases infix_cons_iff.1 hoccurs with hstart | hlater
    · exact hlead (hstart.trans (append_dropLast_isPrefix (x :: front) needle rest))
    · exact hfirst hlater

/-- **The first occurrence**: a cut has the word between its two sides, and the word does not occur
earlier. -/
theorem cutAt_eq_some_iff (hne : needle ≠ []) :
    cutAt needle xs = some (lead, rest) ↔
      xs = lead ++ needle ++ rest ∧ ¬ needle <:+: lead ++ needle.dropLast := by
  induction xs generalizing lead with
  | nil => simp [cutAt, hne]
  | cons x xs ih =>
    by_cases hlead : needle <+: x :: xs
    · obtain ⟨tail, htail⟩ := hlead
      rw [← htail, cutAt_append hne, first_at_start_iff hne, Option.some.injEq, Prod.mk.injEq,
        eq_comm (a := [])]
    · rw [cutAt_cons_of_not_isPrefix hlead, Option.map_eq_some_iff, first_after_iff hlead]
      constructor
      · rintro ⟨⟨front, back⟩, hcut, heq⟩
        obtain ⟨rfl, rfl⟩ := Prod.mk.inj heq
        exact ⟨front, rfl, ih.1 hcut⟩
      · rintro ⟨front, rfl, hfirst⟩
        exact ⟨(front, rest), ih.2 hfirst, rfl⟩

/-- A cut fails if and only if the word does not occur. -/
theorem cutAt_eq_none_iff (hne : needle ≠ []) : cutAt needle xs = none ↔ ¬ needle <:+: xs := by
  induction xs with
  | nil => simp [cutAt, hne]
  | cons x xs ih =>
    by_cases hlead : needle <+: x :: xs
    · obtain ⟨tail, htail⟩ := hlead
      rw [← htail, cutAt_append hne]
      exact iff_of_false nofun (not_not_intro (prefix_append needle tail).isInfix)
    · rw [cutAt_cons_of_not_isPrefix hlead, Option.map_eq_none_iff, ih, infix_cons_iff]
      simp only [hlead, false_or]

/-- A cut at one element: the element is not on the left. -/
theorem cutAt_singleton_eq_some_iff {a : α} :
    cutAt [a] xs = some (lead, rest) ↔ xs = lead ++ a :: rest ∧ a ∉ lead := by
  have hoccurs : [a] <:+: lead ++ [a].dropLast ↔ a ∈ lead := by
    rw [dropLast_singleton, append_nil]
    constructor
    · exact fun h => h.subset (mem_singleton_self a)
    · intro h
      obtain ⟨front, back, rfl⟩ := append_of_mem h
      exact ⟨front, back, by simp⟩
  rw [cutAt_eq_some_iff (cons_ne_nil a []), hoccurs, append_assoc, singleton_append]

/-- A list is cut at a separator in one way, if it is the first one. -/
theorem cut_unique {a : α} {left left' right right' : List α} (hleft : a ∉ left)
    (hleft' : a ∉ left') (h : left ++ a :: right = left' ++ a :: right') :
    left = left' ∧ right = right' := by
  have hcut := cutAt_singleton_eq_some_iff.mpr ⟨h, hleft'⟩
  rw [cutAt_singleton_eq_some_iff.mpr ⟨rfl, hleft⟩] at hcut
  exact Prod.mk.inj (Option.some.inj hcut)

end CutAt

/-! ## At the ends -/

section Trim

variable {p : α → Bool} {xs : List α} {x : α}

/-- No element of the class `p` at either end. -/
structure Trimmed (p : α → Bool) (xs : List α) : Prop where
  head : ∀ x, xs.head? = some x → p x = false
  last : ∀ x, xs.getLast? = some x → p x = false

theorem dropWhile_of_head (h : ∀ x, xs.head? = some x → p x = false) : xs.dropWhile p = xs := by
  cases xs with
  | nil => rfl
  | cons x xs => exact dropWhile_cons_of_neg (by simp [h x rfl])

theorem trimWhere_of_trimmed (h : Trimmed p xs) : trimWhere p xs = xs := by
  have hlast : xs.reverse.dropWhile p = xs.reverse :=
    dropWhile_of_head fun x hx => h.last x (by rwa [head?_reverse] at hx)
  rw [trimWhere, dropWhile_of_head h.head, trimRightWhere, hlast, reverse_reverse]

theorem head_dropWhile (p : α → Bool) (xs : List α) (x : α)
    (h : (xs.dropWhile p).head? = some x) : p x = false := by
  have hnot := head?_dropWhile_not p xs
  rwa [h] at hnot

theorem trimmed_trimWhere (p : α → Bool) (xs : List α) : Trimmed p (trimWhere p xs) where
  head x hx := by
    -- the right end is cut off a text whose first element stays unless nothing does
    have hlead : trimWhere p xs <+: xs.dropWhile p := by
      have h := reverse_prefix.2 (dropWhile_suffix (l := (xs.dropWhile p).reverse) p)
      rwa [reverse_reverse] at h
    obtain ⟨cutOff, hcut⟩ := hlead
    refine head_dropWhile p xs x ?_
    rw [← hcut, head?_append, hx, Option.some_or]
  last x hx := by
    rw [trimWhere, trimRightWhere, getLast?_reverse] at hx
    exact head_dropWhile p _ x hx

/-- **`ys` is `xs` without the class `p` at its two ends.** -/
structure TrimsTo (p : α → Bool) (xs ys : List α) : Prop where
  trimmed : Trimmed p ys
  around : ∃ front back, xs = front ++ ys ++ back ∧ (∀ x ∈ front, p x = true) ∧
    ∀ x ∈ back, p x = true

theorem exists_dropWhile (p : α → Bool) (xs : List α) :
    ∃ front, xs = front ++ xs.dropWhile p ∧ ∀ x ∈ front, p x = true :=
  ⟨xs.takeWhile p, takeWhile_append_dropWhile.symm, all_eq_true.mp all_takeWhile⟩

theorem trimsTo_trimWhere (p : α → Bool) (xs : List α) : TrimsTo p xs (trimWhere p xs) where
  trimmed := trimmed_trimWhere p xs
  around := by
    obtain ⟨front, hfront, hfrontClass⟩ := exists_dropWhile p xs
    obtain ⟨back, hback, hbackClass⟩ := exists_dropWhile p (xs.dropWhile p).reverse
    refine ⟨front, back.reverse, ?_, hfrontClass, fun x hx =>
      hbackClass x (mem_reverse.mp hx)⟩
    rw [append_assoc, trimWhere, trimRightWhere, ← reverse_append, ← hback,
      reverse_reverse]
    exact hfront

/-- **There is one way to take a class off the two ends.** -/
theorem trimsTo_iff {ys : List α} : TrimsTo p xs ys ↔ ys = trimWhere p xs := by
  constructor
  · rintro ⟨htrimmed, front, back, rfl, hfront, hback⟩
    rw [append_assoc, trimWhere, dropWhile_append_of_pos hfront]
    cases ys with
    | nil =>
      have hnone : (back ++ []).dropWhile p = [] := dropWhile_append_of_pos hback
      rw [append_nil] at hnone
      rw [nil_append, hnone]
      rfl
    | cons y ys =>
      have hlast : (y :: ys).reverse.dropWhile p = (y :: ys).reverse :=
        dropWhile_of_head fun x hx => htrimmed.last x (by rwa [head?_reverse] at hx)
      rw [cons_append, dropWhile_cons_of_neg (by simp [htrimmed.head y rfl]),
        ← cons_append, trimRightWhere, reverse_append,
        dropWhile_append_of_pos fun x hx => hback x (mem_reverse.mp hx), hlast,
        reverse_reverse]
  · rintro rfl
    exact trimsTo_trimWhere p xs

theorem trimWhere_trimWhere (p : α → Bool) (xs : List α) :
    trimWhere p (trimWhere p xs) = trimWhere p xs :=
  trimWhere_of_trimmed (trimmed_trimWhere p xs)

theorem trimWhere_cons_of_pos (hx : p x = true) (xs : List α) :
    trimWhere p (x :: xs) = trimWhere p xs := by
  rw [trimWhere, dropWhile_cons_of_pos hx, trimWhere]

/-- Something is left of a text that ends outside the class. -/
theorem trimWhere_ne_nil (hlast : xs.getLast? = some x) (hx : p x = false) :
    trimWhere p xs ≠ [] := by
  obtain ⟨front, rfl⟩ := getLast?_eq_some_iff.1 hlast
  rw [trimWhere, dropWhile_append]
  split <;> simp [trimRightWhere, hx]

theorem mem_dropWhile_of_neg (h : x ∈ xs) (hx : p x = false) : x ∈ xs.dropWhile p := by
  rw [← takeWhile_append_dropWhile (p := p) (l := xs)] at h
  rcases mem_append.1 h with htaken | hkept
  · have hclass := all_eq_true.1 (all_takeWhile (p := p) (l := xs)) x htaken
    rw [hx] at hclass
    contradiction
  · exact hkept

theorem mem_trimWhere_of_neg (h : x ∈ xs) (hx : p x = false) : x ∈ trimWhere p xs :=
  mem_reverse.2
    (mem_dropWhile_of_neg (mem_reverse.2 (mem_dropWhile_of_neg h hx)) hx)

end Trim

/-! ## At the elements of a class -/

/-- The pieces of two sides stand side by side. -/
theorem splitWhere_append_cons_of_pos {p : α → Bool} {x : α} (hx : p x = true) (xs ys : List α) :
    splitWhere p (xs ++ x :: ys) = splitWhere p xs ++ splitWhere p ys := by
  induction xs with
  | nil => simp [splitWhere, hx]
  | cons y xs ih =>
    obtain ⟨piece, more, hpieces⟩ := exists_cons_of_ne_nil (splitWhere_ne_nil p xs)
    rw [hpieces, cons_append, splitWhere] at ih
    rw [splitWhere] at hpieces
    simp only [cons_append, splitWhere, foldr_cons, ih, hpieces]
    split <;> rfl

theorem beq_eq_false_of_notMem [BEq α] [LawfulBEq α] {x : α} {xs : List α} (h : x ∉ xs) :
    ∀ y ∈ xs, (y == x) = false := fun _ hy =>
  beq_eq_false_iff_ne.mpr fun heq => h (heq ▸ hy)

/-- **Pieces with separators between them are taken apart again.** -/
theorem splitWhere_intercalate [BEq α] [LawfulBEq α] {sep : α} {pieces : List (List α)}
    (hne : pieces ≠ []) (h : ∀ piece ∈ pieces, sep ∉ piece) :
    splitWhere (· == sep) ([sep].intercalate pieces) = pieces := by
  induction pieces with
  | nil => exact absurd rfl hne
  | cons piece pieces ih =>
    obtain ⟨hpiece, hpieces⟩ := forall_mem_cons.mp h
    have hfree := beq_eq_false_of_notMem hpiece
    cases pieces with
    | nil => rw [intercalate_singleton, splitWhere_eq_singleton hfree]
    | cons next pieces =>
      rw [intercalate_cons_cons, append_assoc, singleton_append,
        splitWhere_append_cons hfree BEq.rfl]
      exact congrArg _ (ih (cons_ne_nil next pieces) hpieces)

/-- Lines that are written one after the other, each with its line feed, are taken apart again. -/
theorem splitWhere_lines [BEq α] [LawfulBEq α] {feed : α} {lines : List (List α)}
    (h : ∀ line ∈ lines, feed ∉ line) :
    splitWhere (· == feed) (lines.flatMap (· ++ [feed])) = lines ++ [[]] := by
  induction lines with
  | nil => rfl
  | cons line lines ih =>
    obtain ⟨hline, hlines⟩ := forall_mem_cons.mp h
    rw [flatMap_cons, append_assoc, singleton_append,
      splitWhere_append_cons (beq_eq_false_of_notMem hline) BEq.rfl, ih hlines]
    rfl

end Judge
