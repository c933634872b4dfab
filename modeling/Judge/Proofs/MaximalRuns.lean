import Judge.Proofs.Cuts

/-!
# Proofs/MaximalRuns — what stands between separators

`MaximalRuns sep xs ws` says that `ws` are the longest stretches of `xs` in which no separator
occurs.  A separator may have several elements, as the bytes of a character do.  Every list has
such stretches (`exists_maximalRuns`), and only one list of them when separators cannot overlap
(`MaximalRuns.unique`).  For separators of one element they are what `runsWhere` computes
(`maximalRuns_oneOf_iff`).
-/

namespace Judge

open List

variable {α : Type} {sep : List α → Prop} {s w xs : List α} {ws vs : List (List α)}

/-- No separator occurs in `xs`. -/
def Free (sep : List α → Prop) (xs : List α) : Prop := ∀ s, sep s → ¬ s <:+: xs

/-- Nothing is left, or a separator comes first. -/
def Halts (sep : List α → Prop) (xs : List α) : Prop := xs = [] ∨ ∃ s, sep s ∧ s <+: xs

/-- **The maximal runs without separators**, in their order. -/
inductive MaximalRuns (sep : List α → Prop) : List α → List (List α) → Prop
  | nil : MaximalRuns sep [] []
  | skip {s xs : List α} {ws : List (List α)} :
      sep s → MaximalRuns sep xs ws → MaximalRuns sep (s ++ xs) ws
  | run {w xs : List α} {ws : List (List α)} :
      w ≠ [] → Free sep w → Halts sep xs → MaximalRuns sep xs ws →
      MaximalRuns sep (w ++ xs) (w :: ws)

theorem Free.within (h : Free sep xs) (hw : w <:+: xs) : Free sep w :=
  fun s hs hoccurs => h s hs (hoccurs.trans hw)

/-! ## Every list has them -/

/-- The first place where a separator stands. -/
theorem exists_halt (sep : List α → Prop) (xs : List α) :
    ∃ w rest, xs = w ++ rest ∧ Halts sep rest ∧
      ∀ front back, w = front ++ back → back ≠ [] → ∀ s, sep s → ¬ s <+: back ++ rest := by
  induction xs with
  | nil =>
    refine ⟨[], [], rfl, .inl rfl, fun front back hw hback => absurd ?_ hback⟩
    exact (append_eq_nil_iff.mp hw.symm).2
  | cons x xs ih =>
    by_cases hhalts : Halts sep (x :: xs)
    · refine ⟨[], x :: xs, rfl, hhalts, fun front back hw hback => absurd ?_ hback⟩
      exact (append_eq_nil_iff.mp hw.symm).2
    · obtain ⟨w, rest, rfl, hrest, hnone⟩ := ih
      refine ⟨x :: w, rest, rfl, hrest, fun front back hw hback s hs hprefix => ?_⟩
      cases front with
      | nil =>
        obtain rfl : x :: w = back := hw
        exact hhalts (.inr ⟨s, hs, hprefix⟩)
      | cons y front => exact hnone front back (cons.inj hw).2 hback s hs hprefix

theorem exists_maximalRuns (hne : ∀ s, sep s → s ≠ []) (xs : List α) :
    ∃ ws, MaximalRuns sep xs ws := by
  induction hlength : xs.length using Nat.strongRecOn generalizing xs with
  | ind n ih =>
    obtain ⟨w, rest, rfl, hrest, hnone⟩ := exists_halt sep xs
    rw [length_append] at hlength
    cases w with
    | nil =>
      rcases hrest with rfl | ⟨s, hs, rest, rfl⟩
      · exact ⟨[], .nil⟩
      · have hpos := length_pos_iff.mpr (hne s hs)
        rw [length_append] at hlength
        obtain ⟨ws, hws⟩ := ih rest.length (by omega) rest rfl
        exact ⟨ws, (MaximalRuns.skip hs hws : MaximalRuns sep (s ++ rest) ws)⟩
    | cons x w =>
      obtain ⟨ws, hws⟩ := ih rest.length (by rw [length_cons] at hlength; omega) rest rfl
      refine ⟨(x :: w) :: ws, .run (cons_ne_nil x w) ?_ hrest hws⟩
      rintro s hs ⟨front, back, hw⟩
      rw [append_assoc] at hw
      have hback : s ++ back ≠ [] := fun h => hne s hs (append_eq_nil_iff.mp h).1
      exact hnone front (s ++ back) hw.symm hback s hs
        ((prefix_append s back).trans (prefix_append _ rest))

/-! ## There is only one list of them -/

/-- **Separators that cannot overlap**: each of them begins with an element that does not occur
later in any of them, and none begins another one. -/
structure Crisp (sep : List α → Prop) : Prop where
  marked : ∃ inner : α → Prop, ∀ s, sep s → ∃ a as, s = a :: as ∧ ¬ inner a ∧ ∀ b ∈ as, inner b
  prefixFree : ∀ s t, sep s → sep t → s <+: t → s = t

namespace Crisp

theorem ne_nil (hc : Crisp sep) (hs : sep s) : s ≠ [] := by
  obtain ⟨inner, hmarked⟩ := hc.marked
  obtain ⟨a, as, rfl, -⟩ := hmarked s hs
  exact cons_ne_nil a as

/-- Where a run begins no separator does, not even one that goes beyond its end. -/
theorem not_isPrefix (hc : Crisp sep) (hne : w ≠ []) (hfree : Free sep w) (hxs : Halts sep xs)
    (hs : sep s) : ¬ s <+: w ++ xs := by
  intro hprefix
  rcases prefix_or_prefix_of_prefix hprefix (prefix_append w xs) with hin | ⟨v, rfl⟩
  · exact hfree s hs hin.isInfix
  rw [prefix_append_right_inj] at hprefix
  cases v with
  | nil =>
    rw [append_nil] at hs
    exact hfree w hs infix_rfl
  | cons b v =>
    obtain ⟨inner, hmarked⟩ := hc.marked
    obtain ⟨x, w, rfl⟩ := exists_cons_of_ne_nil hne
    obtain ⟨_, _, heq, -, hinner⟩ := hmarked _ hs
    obtain ⟨rfl, rfl⟩ := cons.inj heq
    have hb : inner b := hinner b (by simp)
    rcases hxs with rfl | ⟨t, ht, htail⟩
    · exact cons_ne_nil b v (prefix_nil.mp hprefix)
    · obtain ⟨a, as, rfl, ha, -⟩ := hmarked t ht
      obtain ⟨rest, rfl⟩ := hprefix
      obtain rfl : a = b := (cons_prefix_cons.mp htail).1
      exact ha hb

/-- What goes beyond the shorter one of two runs at one place is empty: a separator stands there. -/
theorem eq_nil_of_halts (hc : Crisp sep) (hfree : Free sep w) (hxs : Halts sep xs)
    (hhalts : Halts sep (w ++ xs)) : w = [] := by
  by_contra hne
  rcases hhalts with hnil | ⟨s, hs, hprefix⟩
  · exact hne (append_eq_nil_iff.mp hnil).1
  · exact hc.not_isPrefix hne hfree hxs hs hprefix

end Crisp

namespace MaximalRuns

theorem of_nil (hc : Crisp sep) (h : MaximalRuns sep [] ws) : ws = [] := by
  generalize hnil : ([] : List α) = xs at h
  cases h with
  | nil => rfl
  | skip hs _ => exact absurd (append_eq_nil_iff.mp hnil.symm).1 (hc.ne_nil hs)
  | run hne => exact absurd (append_eq_nil_iff.mp hnil.symm).1 hne

theorem of_skip (hc : Crisp sep) (hs : sep s) (h : MaximalRuns sep (s ++ xs) ws) :
    MaximalRuns sep xs ws := by
  generalize hall : s ++ xs = all at h
  cases h with
  | nil => exact absurd (append_eq_nil_iff.mp hall).1 (hc.ne_nil hs)
  | @skip t _ _ ht hrest =>
    have hboth : s <+: t ∨ t <+: s :=
      prefix_or_prefix_of_prefix (prefix_append s xs) (hall ▸ prefix_append t _)
    obtain rfl : s = t :=
      hboth.elim (hc.prefixFree s t hs ht) fun hts => (hc.prefixFree t s ht hs hts).symm
    rwa [append_cancel_left hall]
  | run hne hfree hhalts =>
    exact absurd (hall ▸ prefix_append s xs) (hc.not_isPrefix hne hfree hhalts hs)

theorem of_run (hc : Crisp sep) (hne : w ≠ []) (hfree : Free sep w) (hxs : Halts sep xs)
    (h : MaximalRuns sep (w ++ xs) ws) : ∃ vs, ws = w :: vs ∧ MaximalRuns sep xs vs := by
  generalize hall : w ++ xs = all at h
  cases h with
  | nil => exact absurd (append_eq_nil_iff.mp hall).1 hne
  | skip hs =>
    exact absurd (hall ▸ prefix_append _ _) (hc.not_isPrefix hne hfree hxs hs)
  | @run v rest vs _ hfree' hrest hvs =>
    rcases append_eq_append_iff.mp hall with ⟨more, rfl, rfl⟩ | ⟨more, rfl, rfl⟩
    · have hmore := hfree'.within (suffix_append w more).isInfix
      obtain rfl := hc.eq_nil_of_halts hmore hrest hxs
      exact ⟨vs, by rw [append_nil], by rwa [nil_append]⟩
    · have hmore := hfree.within (suffix_append v more).isInfix
      obtain rfl := hc.eq_nil_of_halts hmore hxs hrest
      exact ⟨vs, by rw [append_nil], by rwa [nil_append] at hvs⟩

/-- **Maximal runs are determined.** -/
theorem unique (hc : Crisp sep) (h : MaximalRuns sep xs ws) (h' : MaximalRuns sep xs vs) :
    ws = vs := by
  induction h generalizing vs with
  | nil => exact (of_nil hc h').symm
  | skip hs _ ih => exact ih (of_skip hc hs h')
  | run hne hfree hhalts _ ih =>
    obtain ⟨vs, rfl, hvs⟩ := of_run hc hne hfree hhalts h'
    rw [ih hvs]

end MaximalRuns

/-- **A list has one list of maximal runs.** -/
theorem Crisp.exists_maximalRuns_iff (hc : Crisp sep) (xs : List α) :
    ∃ ws, ∀ vs, MaximalRuns sep xs vs ↔ vs = ws := by
  obtain ⟨ws, hws⟩ := exists_maximalRuns (fun s hs => hc.ne_nil hs) xs
  refine ⟨ws, fun vs => ⟨fun hvs => hvs.unique hc hws, ?_⟩⟩
  rintro rfl
  exact hws

/-! ## Separators of one element -/

section OneOf

variable {p : α → Bool} {x : α}

/-- A separator is an element of the class `p`. -/
def OneOf (p : α → Bool) (s : List α) : Prop := ∃ x, p x = true ∧ s = [x]

theorem free_oneOf_iff : Free (OneOf p) xs ↔ ∀ x ∈ xs, p x = false := by
  constructor
  · intro h x hx
    obtain ⟨front, back, rfl⟩ := append_of_mem hx
    exact Bool.eq_false_iff.mpr fun hp => h [x] ⟨x, hp, rfl⟩ ⟨front, back, by simp⟩
  · rintro h s ⟨x, hp, rfl⟩ hoccurs
    rw [h x (hoccurs.subset (mem_singleton_self x))] at hp
    contradiction

theorem runsWhere_cons_of_pos (hx : p x = true) (xs : List α) :
    runsWhere p (x :: xs) = runsWhere p xs := by
  rw [runsWhere, splitWhere_cons hx]
  rfl

theorem runsWhere_append (hne : w ≠ []) (hw : ∀ x ∈ w, p x = false) (hxs : Halts (OneOf p) xs) :
    runsWhere p (w ++ xs) = w :: runsWhere p xs := by
  rcases hxs with rfl | ⟨s, ⟨x, hx, rfl⟩, xs, rfl⟩
  · rw [append_nil, runsWhere, splitWhere_eq_singleton hw]
    simp [runsWhere, splitWhere, hne]
  · rw [singleton_append, runsWhere_cons_of_pos hx, runsWhere, runsWhere,
      splitWhere_append_cons hw hx, filter_cons_of_pos (by simpa using hne)]

/-- **The nonempty pieces between the elements of a class are the maximal runs without them.** -/
theorem maximalRuns_oneOf_iff : MaximalRuns (OneOf p) xs ws ↔ ws = runsWhere p xs := by
  have heq : ∀ {vs}, MaximalRuns (OneOf p) xs vs → vs = runsWhere p xs := by
    intro vs h
    induction h with
    | nil => rfl
    | skip hs _ ih =>
      obtain ⟨x, hx, rfl⟩ := hs
      rw [ih, singleton_append, runsWhere_cons_of_pos hx]
    | run hne hfree hhalts _ ih => rw [ih, runsWhere_append hne (free_oneOf_iff.mp hfree) hhalts]
  refine ⟨heq, ?_⟩
  rintro rfl
  have hne : ∀ s, OneOf p s → s ≠ [] := by
    rintro _ ⟨x, -, rfl⟩
    exact cons_ne_nil x []
  obtain ⟨vs, hvs⟩ := exists_maximalRuns hne xs
  rwa [← heq hvs]

end OneOf

end Judge
