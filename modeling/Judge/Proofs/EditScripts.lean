import Judge.Diff.Unified
import Mathlib.Data.List.Basic
import Mathlib.Data.List.Pairwise

/-!
# Proofs/EditScripts — what an edit script does, and which part of it is shown

`editScript_turns` says that the script between two lists takes its lines from the one and gives
them to the other, whichever way its middle was found.  `hunkRanges_spec` says which steps of a
script its hunks show: those within three steps of a change, in ranges with a gap between them; and
no other ranges do that (`Apart.unique`).
-/

namespace Judge

open List

/-- The same step on the lines that `f` gives. -/
def Edit.map {α β : Type} (f : α → β) : Edit α → Edit β
  | .keep line => .keep (f line)
  | .delete line => .delete (f line)
  | .insert line => .insert (f line)

namespace Diff

variable {α : Type}

/-! ## The two sides of a script -/

theorem oldLines_append (p q : List (Edit α)) : oldLines (p ++ q) = oldLines p ++ oldLines q :=
  filterMap_append

theorem newLines_append (p q : List (Edit α)) : newLines (p ++ q) = newLines p ++ newLines q :=
  filterMap_append

/-- **A script turns one list into another**: its steps take the lines of the first, and give those
of the second. -/
structure Turns (edits : List (Edit α)) (as bs : List α) : Prop where
  old : oldLines edits = as
  new : newLines edits = bs

theorem Turns.append {p q : List (Edit α)} {as bs as' bs' : List α} (h : Turns p as bs)
    (h' : Turns q as' bs') : Turns (p ++ q) (as ++ as') (bs ++ bs') where
  old := by rw [oldLines_append, h.old, h'.old]
  new := by rw [newLines_append, h.new, h'.new]

theorem turns_keeps (as : List α) : Turns (as.map .keep) as as := by
  constructor <;> simp [oldLines, newLines, filterMap_map, Function.comp_def, Edit.old?,
    Edit.new?]

theorem turns_deletes (as : List α) : Turns (as.map .delete) as [] := by
  constructor <;> simp [oldLines, newLines, filterMap_map, Function.comp_def, Edit.old?,
    Edit.new?]

theorem turns_inserts (bs : List α) : Turns (bs.map .insert) [] bs := by
  constructor <;> simp [oldLines, newLines, filterMap_map, Function.comp_def, Edit.old?,
    Edit.new?]

/-- A script without a change keeps every line. -/
theorem eq_keeps_of_no_change {edits : List (Edit α)} (h : ∀ e ∈ edits, e.isChange = false) :
    ∃ as : List α, edits = as.map .keep := by
  induction edits with
  | nil => exact ⟨[], rfl⟩
  | cons e edits ih =>
    obtain ⟨as, rfl⟩ := ih fun e he => h e (mem_cons_of_mem _ he)
    cases e with
    | keep line => exact ⟨line :: as, rfl⟩
    | delete line | insert line => exact absurd (h _ mem_cons_self) (by simp [Edit.isChange])

variable (edits : List (Edit α))

theorem newLines_takeWhile_isDelete : newLines (edits.takeWhile Edit.isDelete) = [] := by
  refine filterMap_eq_nil_iff.mpr fun e he => ?_
  have hdelete := all_eq_true.mp all_takeWhile e he
  cases e with
  | delete line => rfl
  | keep line | insert line => cases hdelete

/-- An insertion gives its line at the same place before and after the deletions behind it. -/
theorem Turns.insertAfterDeletes {edits : List (Edit α)} {as bs : List α} (h : Turns edits as bs)
    (line : α) : Turns (insertAfterDeletes line edits) as (line :: bs) := by
  have hsplit : edits.takeWhile Edit.isDelete ++ edits.dropWhile Edit.isDelete = edits :=
    takeWhile_append_dropWhile
  have hold : oldLines (edits.takeWhile Edit.isDelete) ++ oldLines (edits.dropWhile Edit.isDelete)
      = as := by rw [← oldLines_append, hsplit, h.old]
  have hnew : newLines (edits.dropWhile Edit.isDelete) = bs := by
    rw [← h.new, ← congrArg newLines hsplit, newLines_append, newLines_takeWhile_isDelete,
      nil_append]
  constructor
  · rw [Diff.insertAfterDeletes, oldLines_append]
    exact hold
  · rw [Diff.insertAfterDeletes, newLines_append, newLines_takeWhile_isDelete, nil_append,
      ← hnew]
    rfl

/-- **Putting deletions first changes neither side.** -/
theorem Turns.deletesFirst {edits : List (Edit α)} {as bs : List α} (h : Turns edits as bs) :
    Turns (deletesFirst edits) as bs := by
  obtain ⟨rfl, rfl⟩ := h
  induction edits with
  | nil => exact ⟨rfl, rfl⟩
  | cons e edits ih =>
    cases e with
    | keep line => exact (turns_keeps [line]).append ih
    | delete line => exact (turns_deletes [line]).append ih
    | insert line => exact ih.insertAfterDeletes line

/-! ## The middle of a script -/

section Middle

variable [DecidableEq α]

/-- Whatever the table says, a walk through it turns the one list into the other. -/
theorem walk_turns (as bs : List α) (rows : List (List Nat)) : Turns (walk as bs rows) as bs := by
  fun_induction walk as bs rows with
  | case1 bs rows => exact turns_inserts bs
  | case2 a as rows => exact turns_deletes (a :: as)
  | case3 as b bs rows ih => exact (turns_keeps [b]).append ih
  | case4 a as b bs rows hne hle ih => exact (turns_inserts [b]).append (by simpa using ih)
  | case5 a as b bs rows hne hlt ih => exact (turns_deletes [a]).append ih

theorem middleScript_turns (as bs : List α) : Turns (middleScript as bs) as bs := by
  unfold middleScript
  split
  · have h := (turns_deletes as).append (turns_inserts bs)
    rwa [append_nil, nil_append] at h
  · exact (walk_turns as bs _).deletesFirst

/-! ## Whole scripts -/

theorem take_commonPrefix (as bs : List α) :
    as.take (commonPrefix as bs) = bs.take (commonPrefix as bs) := by
  fun_induction commonPrefix as bs with
  | case1 b as bs ih => rw [take_succ_cons, take_succ_cons, ih]
  | case2 => rfl
  | case3 => simp

theorem drop_commonPrefix_reverse (as bs : List α) :
    as.drop (as.length - commonPrefix as.reverse bs.reverse)
      = bs.drop (bs.length - commonPrefix as.reverse bs.reverse) := by
  have h := take_commonPrefix as.reverse bs.reverse
  rwa [take_reverse, take_reverse, reverse_inj] at h

/-- **The edit script turns the first list into the second.** -/
theorem editScript_turns (as bs : List α) : Turns (editScript as bs) as bs := by
  have hfront := take_commonPrefix as bs
  have hback := drop_commonPrefix_reverse (as.drop (commonPrefix as bs))
    (bs.drop (commonPrefix as bs))
  unfold editScript
  dsimp only
  generalize commonPrefix as bs = front at *
  generalize commonPrefix (as.drop front).reverse (bs.drop front).reverse = back at *
  have h := ((turns_keeps (as.take front)).append (middleScript_turns
    ((as.drop front).take ((as.drop front).length - back))
    ((bs.drop front).take ((bs.drop front).length - back)))).append
    (turns_keeps ((as.drop front).drop ((as.drop front).length - back)))
  refine ⟨h.old.trans ?_, h.new.trans ?_⟩
  · rw [append_assoc, take_append_drop, take_append_drop]
  · rw [hback, hfront, append_assoc, take_append_drop, take_append_drop]

theorem commonPrefix_self (as : List α) : commonPrefix as as = as.length := by
  induction as with
  | nil => rfl
  | cons a as ih => simp [commonPrefix, ih]

/-- **A script has a change if and only if the lists differ.** -/
theorem any_isChange_editScript (as bs : List α) :
    (editScript as bs).any Edit.isChange = true ↔ as ≠ bs := by
  constructor
  · rintro h rfl
    obtain ⟨e, he, hchange⟩ := any_eq_true.mp h
    have hkeeps : editScript as as = as.map .keep := by
      simp [editScript, commonPrefix_self, middleScript, walk, deletesFirst]
    rw [hkeeps] at he
    obtain ⟨line, -, rfl⟩ := mem_map.mp he
    cases hchange
  · intro hne
    by_contra hnone
    obtain ⟨lines, hkeeps⟩ := eq_keeps_of_no_change fun e he => by
      simpa using fun hchange => hnone (any_eq_true.mpr ⟨e, he, hchange⟩)
    have hturns := editScript_turns as bs
    rw [hkeeps] at hturns
    exact hne (hturns.old.symm.trans ((turns_keeps lines).old.trans
      ((turns_keeps lines).new.symm.trans hturns.new)))

end Middle

/-! ## The shown part of a script -/

/-- A step is shown when one of the ranges holds it. -/
def Shown (ranges : List (Nat × Nat)) (i : Nat) : Prop := ∃ r ∈ ranges, r.1 ≤ i ∧ i < r.2

/-- A step is near a change when at most `context` steps lie from the one to the other. -/
def Near (changes : List Nat) (i : Nat) : Prop := ∃ c ∈ changes, c ≤ i + context ∧ i ≤ c + context

variable {r : Nat × Nat} {i : Nat}

theorem shown_cons {ranges : List (Nat × Nat)} :
    Shown (r :: ranges) i ↔ (r.1 ≤ i ∧ i < r.2) ∨ Shown ranges i := by
  simp [Shown]

theorem near_concat {changes : List Nat} {index : Nat} :
    Near (changes ++ [index]) i ↔ Near changes i ∨ (index ≤ i + context ∧ i ≤ index + context) := by
  simp [Near, or_and_right, exists_or]

/-- **The invariant of the search for hunks**: the ranges, last one first, for the changes found so
far in a script of `size` steps. -/
structure Surrounds (size : Nat) (changes : List Nat) (ranges : List (Nat × Nat)) : Prop where
  bounded : ∀ r ∈ ranges, r.1 < r.2 ∧ r.2 ≤ size
  apart : ranges.Pairwise fun r s => s.2 < r.1
  shown : ∀ i < size, Shown ranges i ↔ Near changes i
  begun : ∀ r ∈ ranges, ∃ c ∈ changes, r.1 ≤ c - context

/-- The surroundings of a further change keep the invariant. -/
theorem Surrounds.extend {size index : Nat} {changes : List Nat} {ranges : List (Nat × Nat)}
    (h : Surrounds size changes ranges) (hlast : ∀ c ∈ changes, c < index) (hsize : index < size) :
    Surrounds size (changes ++ [index]) (extendRanges size ranges index) := by
  obtain ⟨hbounded, hapart, hshown, hbegun⟩ := h
  -- No range begins behind the surroundings of the new change.
  have hstart : ∀ r ∈ ranges, r.1 ≤ index - context := fun r hr => by
    obtain ⟨c, hc, hle⟩ := hbegun r hr
    have := hlast c hc
    omega
  have hkeep : ∀ r ∈ ranges, ∃ c ∈ changes ++ [index], r.1 ≤ c - context := fun r hr => by
    obtain ⟨c, hc, hle⟩ := hbegun r hr
    exact ⟨c, mem_append_left _ hc, hle⟩
  have hnew : ∃ c ∈ changes ++ [index], index - context ≤ c - context :=
    ⟨index, by simp, Nat.le_refl _⟩
  unfold extendRanges
  cases ranges with
  | nil =>
    refine ⟨?_, pairwise_singleton _ _, fun i hi => ?_, ?_⟩
    · simp only [mem_singleton, forall_eq]
      omega
    · rw [near_concat, shown_cons, ← hshown i hi, or_comm]
      exact or_congr_right (by omega)
    · exact forall_mem_cons.mpr ⟨hnew, by simp⟩
  | cons last more =>
    obtain ⟨hlow, hhigh⟩ := pairwise_cons.mp hapart
    have hfirst := hstart last mem_cons_self
    have hlastBounded := hbounded last mem_cons_self
    by_cases hmerge : index - context ≤ last.2
    · simp only [if_pos hmerge]
      refine ⟨?_, pairwise_cons.mpr ⟨hlow, hhigh⟩, fun i hi => ?_, ?_⟩
      · refine forall_mem_cons.mpr ⟨by omega, (forall_mem_cons.mp hbounded).2⟩
      · rw [near_concat, ← hshown i hi, shown_cons, shown_cons, or_right_comm]
        exact or_congr_left (by omega)
      · exact forall_mem_cons.mpr (forall_mem_cons.mp hkeep)
    · simp only [if_neg hmerge]
      refine ⟨forall_mem_cons.mpr ⟨by omega, hbounded⟩,
        pairwise_cons.mpr ⟨forall_mem_cons.mpr ⟨by omega, fun r hr => ?_⟩, hapart⟩,
        fun i hi => ?_, forall_mem_cons.mpr ⟨hnew, hkeep⟩⟩
      · have := hlow r hr
        omega
      · rw [near_concat, ← hshown i hi, shown_cons (r := (_, _)), or_comm]
        exact or_congr_right (by omega)

theorem Surrounds.foldl {size : Nat} {rest : List Nat} : ∀ {changes : List Nat}
    {ranges : List (Nat × Nat)}, Surrounds size changes ranges →
    (changes ++ rest).Pairwise (· < ·) → (∀ c ∈ rest, c < size) →
    Surrounds size (changes ++ rest) (rest.foldl (extendRanges size) ranges) := by
  induction rest with
  | nil =>
    intro changes ranges h _ _
    rwa [append_nil]
  | cons index rest ih =>
    intro changes ranges h hsorted hsize
    have hlast : ∀ c ∈ changes, c < index := fun c hc =>
      (pairwise_append.mp hsorted).2.2 c hc index mem_cons_self
    have hstep := h.extend hlast (hsize index mem_cons_self)
    rw [append_cons] at hsorted ⊢
    exact ih hstep hsorted fun c hc => hsize c (mem_cons_of_mem _ hc)

theorem mem_changeIndices {edits : List (Edit α)} :
    i ∈ changeIndices edits ↔ ∃ e, edits[i]? = some e ∧ e.isChange = true := by
  simp only [changeIndices, mem_filterMap, Prod.exists, mem_zipIdx_iff_getElem?,
    Option.ite_none_right_eq_some, Option.some.injEq]
  constructor
  · rintro ⟨e, j, he, hchange, rfl⟩
    exact ⟨e, he, hchange⟩
  · rintro ⟨e, he, hchange⟩
    exact ⟨e, i, he, hchange, rfl⟩

theorem lt_of_mem_changeIndices {edits : List (Edit α)} (h : i ∈ changeIndices edits) :
    i < edits.length := by
  obtain ⟨e, he, -⟩ := mem_changeIndices.mp h
  exact (List.getElem?_eq_some_iff.mp he).1

theorem changeIndices_sorted : (changeIndices edits).Pairwise (· < ·) := by
  have hzip : edits.zipIdx.Pairwise fun x y => x.2 < y.2 := by
    rw [← pairwise_map (f := Prod.snd) (R := (· < ·)), zipIdx_map_snd]
    exact pairwise_lt_range'
  refine List.Pairwise.filterMap _ (fun x y hlt i hi j hj => ?_) hzip
  simp only [Option.ite_none_right_eq_some, Option.some.injEq] at hi hj
  omega

/-- **The hunks of a script** lie within it, with a gap between any two, and show exactly the steps
near a change. -/
theorem hunkRanges_spec :
    (∀ r ∈ hunkRanges edits, r.1 < r.2 ∧ r.2 ≤ edits.length) ∧
      (hunkRanges edits).Pairwise (fun r s => r.2 < s.1) ∧
      ∀ i < edits.length, Shown (hunkRanges edits) i ↔ Near (changeIndices edits) i := by
  have hnone : Surrounds edits.length [] [] :=
    ⟨by simp, List.Pairwise.nil, by simp [Shown, Near], by simp⟩
  have h : Surrounds edits.length (changeIndices edits)
      ((changeIndices edits).foldl (extendRanges edits.length) []) :=
    hnone.foldl (changeIndices_sorted edits) fun c => lt_of_mem_changeIndices
  refine ⟨fun r hr => h.bounded r (mem_reverse.mp hr), pairwise_reverse.mpr h.apart,
    fun i hi => ?_⟩
  rw [← h.shown i hi]
  simp [Shown, hunkRanges]

/-! ## What tells hunks from other ranges -/

/-- **Ranges that are apart**: none is empty, and between any two of them lies a step. -/
structure Apart (ranges : List (Nat × Nat)) : Prop where
  nonempty : ∀ r ∈ ranges, r.1 < r.2
  gaps : ranges.Pairwise fun r s => r.2 < s.1

namespace Apart

variable {ranges ranges' : List (Nat × Nat)}

section

variable (h : Apart (r :: ranges))

include h

theorem tail : Apart ranges :=
  ⟨fun s hs => h.nonempty s (mem_cons_of_mem _ hs), (pairwise_cons.mp h.gaps).2⟩

/-- The other ranges begin behind the step that the first one ends with. -/
theorem behind (hi : Shown ranges i) : r.2 < i := by
  obtain ⟨s, hs, hlow, -⟩ := hi
  exact Nat.lt_of_lt_of_le ((pairwise_cons.mp h.gaps).1 s hs) hlow

theorem not_forall_not_shown : ¬ ∀ i, ¬ Shown (r :: ranges) i := fun hnone =>
  hnone r.1 (shown_cons.mpr (.inl ⟨Nat.le_refl _, h.nonempty r mem_cons_self⟩))

end

/-- **Ranges that are apart are told by the steps that they show.** -/
theorem unique (h : Apart ranges) (h' : Apart ranges')
    (hshown : ∀ i, Shown ranges i ↔ Shown ranges' i) : ranges = ranges' := by
  have hnil : ∀ i, ¬ Shown [] i := by simp [Shown]
  induction ranges generalizing ranges' with
  | nil =>
    cases ranges' with
    | nil => rfl
    | cons s ranges' => exact absurd (fun i => mt (hshown i).mpr (hnil i)) h'.not_forall_not_shown
  | cons r ranges ih =>
    cases ranges' with
    | nil => exact absurd (fun i => mt (hshown i).mp (hnil i)) h.not_forall_not_shown
    | cons s ranges' =>
      have hr := h.nonempty r mem_cons_self
      have hs := h'.nonempty s mem_cons_self
      have hbehind : ∀ i, Shown ranges i → r.2 < i := fun i => h.behind
      have hbehind' : ∀ i, Shown ranges' i → s.2 < i := fun i => h'.behind
      simp only [shown_cons] at hshown
      -- the first range begins with the first step shown and ends with the next that is not
      have hfirst : r.1 = s.1 := by grind [hshown r.1, hshown s.1]
      have hend : r.2 = s.2 := by grind [hshown r.2, hshown s.2]
      obtain rfl : r = s := Prod.ext hfirst hend
      rw [ih h.tail h'.tail fun i => ?_]
      grind [hshown i]

end Apart

/-- **The hunks of a script are the surroundings of its changes**: the only ranges within the
script, with a step between any two of them, that hold exactly the steps with a change at most three
steps away. -/
theorem hunks_surround_changes (edits : List (Edit α)) (ranges : List (Nat × Nat)) :
    ranges = hunkRanges edits ↔
      (∀ r ∈ ranges, r.1 < r.2 ∧ r.2 ≤ edits.length) ∧
        ranges.Pairwise (fun r s => r.2 < s.1) ∧
        ∀ i < edits.length, (∃ r ∈ ranges, r.1 ≤ i ∧ i < r.2) ↔
          ∃ j e, edits[j]? = some e ∧ e.isChange = true ∧ i ≤ j + 3 ∧ j ≤ i + 3 := by
  obtain ⟨hbounds, hgaps, hshown⟩ := hunkRanges_spec edits
  have hnear : ∀ i, Near (changeIndices edits) i ↔
      ∃ j e, edits[j]? = some e ∧ e.isChange = true ∧ i ≤ j + 3 ∧ j ≤ i + 3 := fun i => by
    simp [Near, mem_changeIndices, context, and_comm, and_assoc]
  have hwithin : ∀ ranges : List (Nat × Nat), (∀ r ∈ ranges, r.1 < r.2 ∧ r.2 ≤ edits.length) →
      ∀ i, Shown ranges i → i < edits.length := by
    rintro ranges hbounds i ⟨r, hr, -, hhigh⟩
    exact Nat.lt_of_lt_of_le hhigh (hbounds r hr).2
  constructor
  · rintro rfl
    exact ⟨hbounds, hgaps, fun i hi => (hshown i hi).trans (hnear i)⟩
  · rintro ⟨hbounds', hgaps', hshown'⟩
    have hapart : Apart (hunkRanges edits) := ⟨fun r hr => (hbounds r hr).1, hgaps⟩
    have hapart' : Apart ranges := ⟨fun r hr => (hbounds' r hr).1, hgaps'⟩
    refine hapart'.unique hapart fun i => ?_
    by_cases hi : i < edits.length
    · exact (hshown' i hi).trans ((hshown i hi).trans (hnear i)).symm
    · exact iff_of_false (mt (hwithin ranges hbounds' i) hi) (mt (hwithin _ hbounds i) hi)

/-! ## A hunk within its script -/

/-- The steps of a script in a range. -/
def within (edits : List (Edit α)) (r : Nat × Nat) : List (Edit α) :=
  (edits.drop r.1).take (r.2 - r.1)

theorem getElem?_within {edits : List (Edit α)} (hlow : r.1 ≤ i) (hhigh : i < r.2) :
    (within edits r)[i - r.1]? = edits[i]? := by
  rw [within, getElem?_take_of_lt (by omega), getElem?_drop]
  congr 1
  omega

/-- What stands before a range and in it, and what stands in it and behind it. -/
theorem take_append_within {edits : List (Edit α)} (h : r.1 ≤ r.2) :
    edits.take r.1 ++ within edits r = edits.take r.2 := by
  rw [within, ← take_add]
  congr 1
  omega

theorem within_append_drop {edits : List (Edit α)} (h : r.1 ≤ r.2) :
    within edits r ++ edits.drop r.2 = edits.drop r.1 := by
  have hdrop : edits.drop r.2 = (edits.drop r.1).drop (r.2 - r.1) := by
    rw [drop_drop, Nat.add_sub_cancel' h]
  rw [within, hdrop, take_append_drop]

/-- A part of a script without changes keeps every line. -/
theorem within_eq_keeps {edits : List (Edit α)} (h : ∀ i ∈ changeIndices edits, r.1 ≤ i → r.2 ≤ i) :
    ∃ lines : List α, within edits r = lines.map .keep := by
  refine eq_keeps_of_no_change fun e he => ?_
  obtain ⟨j, hj⟩ := mem_iff_getElem?.mp he
  have hlt : j < r.2 - r.1 := by
    have := (List.getElem?_eq_some_iff.mp hj).1
    rw [within, length_take] at this
    omega
  have hindex : edits[r.1 + j]? = some e := by
    rw [← getElem?_within (Nat.le_add_right _ _) (by omega), Nat.add_sub_cancel_left, hj]
  cases hchange : e.isChange with
  | false => rfl
  | true =>
    have := h _ (mem_changeIndices.mpr ⟨e, hindex, hchange⟩) (Nat.le_add_right _ _)
    omega

theorem hunkRanges_apart {edits : List (Edit α)} {s : Nat × Nat} (hr : r ∈ hunkRanges edits)
    (hs : s ∈ hunkRanges edits) : r = s ∨ r.2 < s.1 ∨ s.2 < r.1 := by
  have hpairs := (hunkRanges_spec edits).2.1
  exact List.Pairwise.forall_of_forall_of_flip (R := fun r s => r = s ∨ r.2 < s.1 ∨ s.2 < r.1)
    (fun r _ => .inl rfl) (hpairs.imp fun h => .inr (.inl h)) (hpairs.imp fun h => .inr (.inr h))
    hr hs

/-- The step in front of a hunk and the one behind it are in no hunk. -/
theorem not_shown_edge {edits : List (Edit α)} (hr : r ∈ hunkRanges edits)
    (hi : i + 1 = r.1 ∨ i = r.2) : ¬ Shown (hunkRanges edits) i := by
  rintro ⟨s, hs, hlow, hhigh⟩
  have hbounds := (hunkRanges_spec edits).1 r hr
  rcases hunkRanges_apart hr hs with rfl | h | h <;> omega

/-- **Next to an end of a hunk that is none of the script, a line is kept.** -/
theorem kept_at_edge {edits : List (Edit α)} (hr : r ∈ hunkRanges edits)
    (hi : (0 < r.1 ∧ i = r.1) ∨ (r.2 < edits.length ∧ i + 1 = r.2)) :
    ∃ line, edits[i]? = some (.keep line) := by
  have hbounds := (hunkRanges_spec edits).1 r hr
  -- A change there would bring the step beyond the edge into a hunk.
  have hnot : i ∉ changeIndices edits := fun hchange => by
    rcases hi with ⟨hpos, rfl⟩ | ⟨hlt, hi⟩
    · exact not_shown_edge hr (i := r.1 - 1) (by omega)
        (((hunkRanges_spec edits).2.2 _ (by omega)).mpr ⟨_, hchange, by unfold context; omega⟩)
    · exact not_shown_edge hr (i := r.2) (by omega)
        (((hunkRanges_spec edits).2.2 _ hlt).mpr ⟨_, hchange, by unfold context; omega⟩)
  have hlt : i < edits.length := by omega
  rw [mem_changeIndices, getElem?_eq_getElem hlt] at hnot
  rw [getElem?_eq_getElem hlt]
  cases he : edits[i] with
  | keep line => exact ⟨line, rfl⟩
  | delete line | insert line => exact absurd ⟨_, rfl, by rw [he]; rfl⟩ hnot

/-- **A hunk that keeps no line is the whole script.** -/
theorem whole_of_no_keep {edits : List (Edit α)} (hr : r ∈ hunkRanges edits)
    (hnone : ∀ line, .keep line ∉ within edits r) : r.1 = 0 ∧ within edits r = edits := by
  have hbounds := (hunkRanges_spec edits).1 r hr
  have hmem : ∀ {i line}, r.1 ≤ i → i < r.2 → edits[i]? ≠ some (.keep line) :=
    fun hlow hhigh hi => hnone _ (mem_of_getElem? ((getElem?_within hlow hhigh).trans hi))
  have hfirst : r.1 = 0 := by
    by_contra hpos
    obtain ⟨line, hline⟩ := kept_at_edge hr (.inl ⟨Nat.pos_of_ne_zero hpos, rfl⟩)
    exact hmem (Nat.le_refl _) hbounds.1 hline
  have hlast : r.2 = edits.length := by
    by_contra hne
    obtain ⟨line, hline⟩ := kept_at_edge hr (i := r.2 - 1) (.inr (by omega))
    exact hmem (by omega) (by omega) hline
  refine ⟨hfirst, ?_⟩
  rw [within, hfirst, hlast]
  exact take_length

/-! ## Scripts on other lines -/

section Map

variable {β : Type} (f : α → β) (edits : List (Edit α))

theorem oldLines_map : oldLines (edits.map (Edit.map f)) = (oldLines edits).map f := by
  rw [oldLines, oldLines, filterMap_map, map_filterMap]
  congr 1
  funext e
  cases e <;> rfl

theorem newLines_map : newLines (edits.map (Edit.map f)) = (newLines edits).map f := by
  rw [newLines, newLines, filterMap_map, map_filterMap]
  congr 1
  funext e
  cases e <;> rfl

theorem Turns.map {as bs : List α} (h : Turns edits as bs) :
    Turns (edits.map (Edit.map f)) (as.map f) (bs.map f) where
  old := by rw [oldLines_map, h.old]
  new := by rw [newLines_map, h.new]

/-- The hunks of a script do not depend on its lines. -/
theorem hunkRanges_map : hunkRanges (edits.map (Edit.map f)) = hunkRanges edits := by
  have hchange : ∀ e : Edit α, (e.map f).isChange = e.isChange := fun e => by cases e <;> rfl
  have hindices : changeIndices (edits.map (Edit.map f)) = changeIndices edits := by
    rw [changeIndices, changeIndices, zipIdx_map, filterMap_map]
    congr 1
    funext e
    simp [hchange]
  rw [hunkRanges, hunkRanges, hindices, length_map]

end Map

end Diff

end Judge
