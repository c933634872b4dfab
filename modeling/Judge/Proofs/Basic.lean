/-!
# Proofs/Basic — taking fallible computations apart

A computation that succeeded did so step by step, and one that failed did so at one of its steps:
these are the inversions of `map` and `bind`, in the form in which proofs take them apart.
-/

namespace Judge

variable {ε α β : Type}

/-- Results can be compared, so a run on a given machine can be evaluated. -/
instance decidableEqExcept [DecidableEq ε] [DecidableEq α] : DecidableEq (Except ε α)
  | .ok a, .ok b => decidable_of_iff (a = b) ⟨congrArg _, Except.ok.inj⟩
  | .error e, .error f => decidable_of_iff (e = f) ⟨congrArg _, Except.error.inj⟩
  | .ok _, .error _ => isFalse nofun
  | .error _, .ok _ => isFalse nofun

variable {x : Except ε α} {f : α → Except ε β}

theorem ok_of_map {f : α → β} {b : β} (h : x.map f = .ok b) : ∃ a, x = .ok a ∧ f a = b := by
  cases x with
  | error e => cases h
  | ok a => exact ⟨a, rfl, Except.ok.inj h⟩

theorem map_eq_ok_iff {f : α → β} {b : β} : x.map f = .ok b ↔ ∃ a, x = .ok a ∧ f a = b := by
  refine ⟨ok_of_map, ?_⟩
  rintro ⟨a, rfl, rfl⟩
  rfl

theorem ok_of_bind {b : β} (h : x.bind f = .ok b) : ∃ a, x = .ok a ∧ f a = .ok b := by
  cases x with
  | error e => cases h
  | ok a => exact ⟨a, rfl, h⟩

theorem bind_of_ok {a : α} (h : x = .ok a) : x.bind f = f a := by
  rw [h]
  rfl

theorem error_of_map {f : α → β} {e : ε} (h : x.map f = .error e) : x = .error e := by
  cases x with
  | error e' => exact congrArg _ (Except.error.inj h)
  | ok a => cases h

/-- A computation fails at its first step or after it. -/
theorem error_of_bind {e : ε} (h : x.bind f = .error e) :
    x = .error e ∨ ∃ a, x = .ok a ∧ f a = .error e := by
  cases x with
  | error e' => exact .inl (congrArg _ (Except.error.inj h))
  | ok a => exact .inr ⟨a, rfl, h⟩

theorem error_of_mapM {xs : List α} {e : ε} (h : xs.mapM f = .error e) :
    ∃ x, f x = .error e := by
  induction xs with
  | nil => cases h
  | cons x xs ih =>
    rw [List.mapM_cons] at h
    rcases error_of_bind h with h | ⟨y, -, h⟩
    · exact ⟨x, h⟩
    rcases error_of_bind h with h | ⟨ys, -, h⟩
    · exact ih h
    · cases h

end Judge
