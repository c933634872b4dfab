/-!
# Assoc — finite maps as lists of pairs

A map is a list of keys with their values, in the order in which the keys came.  `Assoc.put` keeps
that order, and `lookup_put` says what is found after it.
-/

namespace Judge.Assoc

variable {α β : Type} [BEq α] (l : List (α × β))

/-- The list with `b` at `a`: in the place of what was there, or at the end. -/
def put (a : α) (b : β) : List (α × β) :=
  if l.any (·.1 == a) then l.map fun e => if e.1 == a then (a, b) else e else l ++ [(a, b)]

variable [LawfulBEq α] [DecidableEq α]

theorem lookup_cons_eq (e : α × β) (l : List (α × β)) (c : α) :
    (e :: l).lookup c = if c = e.1 then some e.2 else l.lookup c := by
  rw [List.lookup_cons]
  by_cases hc : c = e.1
  · rw [if_pos hc, beq_iff_eq.2 hc]
  · rw [if_neg hc, beq_eq_false_iff_ne.2 hc]

theorem lookup_replace_self (a : α) (b : β) (h : l.any (·.1 == a)) :
    (l.map fun e => if e.1 == a then (a, b) else e).lookup a = some b := by
  induction l with
  | nil => simp at h
  | cons e rest ih =>
    rw [List.map_cons, lookup_cons_eq]
    by_cases he : e.1 = a
    · simp [he]
    · have hr : rest.any (·.1 == a) := by simpa [he] using h
      rw [if_neg (mt beq_iff_eq.1 he), if_neg (Ne.symm he), ih hr]

theorem lookup_replace_of_ne {a c : α} (b : β) (h : c ≠ a) :
    (l.map fun e => if e.1 == a then (a, b) else e).lookup c = l.lookup c := by
  induction l with
  | nil => rfl
  | cons e rest ih =>
    rw [List.map_cons, lookup_cons_eq, lookup_cons_eq, ih]
    by_cases he : e.1 = a
    · simp [he, h]
    · rw [if_neg (mt beq_iff_eq.1 he)]

theorem lookup_append_of_absent (a : α) (b : β) (h : ¬ l.any (·.1 == a))
    (c : α) : (l ++ [(a, b)]).lookup c = if c = a then some b else l.lookup c := by
  induction l with
  | nil => exact lookup_cons_eq (a, b) [] c
  | cons e rest ih =>
    obtain ⟨he, hr⟩ : e.1 ≠ a ∧ ¬ rest.any (·.1 == a) := by simpa using h
    rw [List.cons_append, lookup_cons_eq, lookup_cons_eq, ih hr]
    by_cases hc : c = a
    · rw [if_neg (hc ▸ Ne.symm he), if_pos hc, if_pos hc]
    · rw [if_neg hc, if_neg hc]

/-- **Looking up after a change**: the new value at its own key, and what was there elsewhere. -/
theorem lookup_put (a : α) (b : β) (c : α) :
    (put l a b).lookup c = if c = a then some b else l.lookup c := by
  unfold put
  split
  · next h =>
    by_cases hc : c = a
    · rw [hc, lookup_replace_self l a b h, if_pos rfl]
    · rw [lookup_replace_of_ne l b hc, if_neg hc]
  · next h => exact lookup_append_of_absent l a b h c

end Judge.Assoc
