import Judge.Proofs.EditScripts
import Mathlib.Data.List.Chain
import Mathlib.Order.Bounds.Basic

/-!
# Proofs/ShortestScripts — an edit script keeps as much as it can

`Longest as bs n` says that `n` is the length of a longest common subsequence of two lists.  The
entries of the table are such lengths (`table_tabulates`), and a walk through the table keeps as
many lines as its first entry says (`Tabulates.walk_keeps`).  Taking off a common beginning and a
common end costs nothing (`Longest.surround`), so a whole script keeps a longest common subsequence
of the whole lists, and no script changes less (`changes_le_of_longest`).
-/

namespace Judge.Diff

open List

variable {α : Type}

/-! ## Common subsequences -/

/-- The lengths of the common subsequences of two lists. -/
def commonLengths (as bs : List α) : Set Nat :=
  {n | ∃ common : List α, common.Sublist as ∧ common.Sublist bs ∧ common.length = n}

/-- **The length of a longest common subsequence.** -/
abbrev Longest (as bs : List α) (n : Nat) : Prop := IsGreatest (commonLengths as bs) n

theorem longest_nil_left (bs : List α) : Longest [] bs 0 := by
  refine ⟨⟨[], List.Sublist.refl _, nil_sublist _, rfl⟩, ?_⟩
  rintro n ⟨common, hold, -, rfl⟩
  rw [sublist_nil.mp hold]
  exact Nat.le_refl 0

/-- Common subsequences have no first list and no second one. -/
theorem commonLengths_comm (as bs : List α) : commonLengths as bs = commonLengths bs as := by
  ext n
  constructor
  · rintro ⟨common, hold, hnew, hn⟩
    exact ⟨common, hnew, hold, hn⟩
  · rintro ⟨common, hold, hnew, hn⟩
    exact ⟨common, hnew, hold, hn⟩

theorem longest_nil_right (as : List α) : Longest as [] 0 := by
  rw [Longest, commonLengths_comm]
  exact longest_nil_left as

/-- **A common first line belongs to a longest common subsequence.** -/
theorem Longest.cons {as bs : List α} {n : Nat} (h : Longest as bs n) (a : α) :
    Longest (a :: as) (a :: bs) (n + 1) := by
  obtain ⟨⟨common, hold, hnew, rfl⟩, hmost⟩ := h
  refine ⟨⟨a :: common, hold.cons_cons a, hnew.cons_cons a, rfl⟩, ?_⟩
  rintro m ⟨other, hold', hnew', rfl⟩
  -- without its first line, what is common to the longer lists is common to the shorter ones
  have htail : other.tail.length ≤ common.length :=
    hmost ⟨other.tail, hold'.tail, hnew'.tail, rfl⟩
  rw [length_tail] at htail
  omega

/-- **Of two different first lines, one is in no longest common subsequence.** -/
theorem Longest.cons_ne {a b : α} {as bs : List α} {m n : Nat} (hne : a ≠ b)
    (hold : Longest as (b :: bs) m) (hnew : Longest (a :: as) bs n) :
    Longest (a :: as) (b :: bs) (max m n) := by
  constructor
  · rcases Nat.le_total m n with hle | hle
    · obtain ⟨common, h, h', hlength⟩ := hnew.1
      exact ⟨common, h, h'.cons b, by rw [hlength, Nat.max_eq_right hle]⟩
    · obtain ⟨common, h, h', hlength⟩ := hold.1
      exact ⟨common, h.cons a, h', by rw [hlength, Nat.max_eq_left hle]⟩
  · rintro k ⟨common, h, h', rfl⟩
    rcases sublist_cons_iff.mp h with hskip | ⟨rest, rfl, -⟩
    · exact Nat.le_trans (hold.2 ⟨common, hskip, h', rfl⟩) (Nat.le_max_left m n)
    · rcases cons_sublist_cons'.mp h' with hskip | ⟨heq, -⟩
      · exact Nat.le_trans (hnew.2 ⟨_, h, hskip, rfl⟩) (Nat.le_max_right m n)
      · exact absurd heq hne

theorem Longest.reverse {as bs : List α} {n : Nat} (h : Longest as bs n) :
    Longest as.reverse bs.reverse n := by
  obtain ⟨⟨common, hold, hnew, hlength⟩, hmost⟩ := h
  refine ⟨⟨common.reverse, hold.reverse, hnew.reverse, by rw [length_reverse, hlength]⟩, ?_⟩
  rintro m ⟨other, hold', hnew', rfl⟩
  have hold'' := hold'.reverse
  have hnew'' := hnew'.reverse
  rw [reverse_reverse] at hold'' hnew''
  exact hmost ⟨other.reverse, hold'', hnew'', length_reverse⟩

theorem Longest.append_left {as bs : List α} {n : Nat} (h : Longest as bs n) (front : List α) :
    Longest (front ++ as) (front ++ bs) (front.length + n) := by
  induction front with
  | nil => rwa [length_nil, Nat.zero_add]
  | cons a front ih =>
    rw [length_cons, Nat.add_right_comm]
    exact ih.cons a

/-- **A common beginning and a common end are kept at no cost.** -/
theorem Longest.surround {as bs : List α} {n : Nat} (h : Longest as bs n) (front back : List α) :
    Longest (front ++ as ++ back) (front ++ bs ++ back) (front.length + n + back.length) := by
  have hback := ((h.append_left front).reverse.append_left back.reverse).reverse
  rw [← reverse_append, reverse_reverse, ← reverse_append, reverse_reverse,
    length_reverse] at hback
  rwa [Nat.add_comm (front.length + n)]

/-! ## What scripts keep -/

/-- The number of lines that a script keeps. -/
def keeps (edits : List (Edit α)) : Nat := edits.countP fun e => !e.isChange

/-- The number of lines that a script deletes or inserts. -/
def changes (edits : List (Edit α)) : Nat := edits.countP Edit.isChange

theorem keeps_append (p q : List (Edit α)) : keeps (p ++ q) = keeps p + keeps q :=
  countP_append

@[simp] theorem keeps_cons_keep (line : α) (edits : List (Edit α)) :
    keeps (.keep line :: edits) = keeps edits + 1 := countP_cons_of_pos rfl

@[simp] theorem keeps_cons_delete (line : α) (edits : List (Edit α)) :
    keeps (.delete line :: edits) = keeps edits := countP_cons_of_neg nofun

@[simp] theorem keeps_cons_insert (line : α) (edits : List (Edit α)) :
    keeps (.insert line :: edits) = keeps edits := countP_cons_of_neg nofun

theorem keeps_map_keep (as : List α) : keeps (as.map .keep) = as.length := by
  rw [keeps, countP_map]
  exact countP_eq_length.mpr fun a _ => rfl

variable {edits : List (Edit α)} {rows : List (List Nat)}

theorem keeps_eq_zero (h : ∀ e ∈ edits, e.isChange = true) : keeps edits = 0 := by
  rw [keeps, countP_eq_zero]
  intro e he
  simp [h e he]

/-- **What a script keeps is common to its two sides.** -/
theorem keeps_common (edits : List (Edit α)) :
    keeps edits ∈ commonLengths (oldLines edits) (newLines edits) := by
  induction edits with
  | nil => exact ⟨[], List.Sublist.refl _, List.Sublist.refl _, rfl⟩
  | cons e edits ih =>
    obtain ⟨common, hold, hnew, hlength⟩ := ih
    cases e with
    | keep line =>
      exact ⟨line :: common, hold.cons_cons line, hnew.cons_cons line, by simp [hlength]⟩
    | delete line => exact ⟨common, hold.cons line, hnew, by simp [hlength]⟩
    | insert line => exact ⟨common, hold, hnew.cons line, by simp [hlength]⟩

/-- What a script changes is the rest of its two sides. -/
theorem length_sides (edits : List (Edit α)) :
    (oldLines edits).length + (newLines edits).length = 2 * keeps edits + changes edits := by
  induction edits with
  | nil => rfl
  | cons e edits ih =>
    have hchanges : changes (e :: edits) = changes edits + if e.isChange then 1 else 0 := countP_cons
    simp only [oldLines, newLines, filterMap_cons] at ih ⊢
    cases e <;> simp [hchanges, Edit.old?, Edit.new?, Edit.isChange] <;> omega

/-- **A script that keeps a longest common subsequence changes least.** -/
theorem changes_le_of_longest {as bs : List α} (hturns : Turns edits as bs)
    (hlongest : Longest as bs (keeps edits)) {other : List (Edit α)} (hother : Turns other as bs) :
    changes edits ≤ changes other := by
  have hcount := length_sides edits
  have hcount' := length_sides other
  have hcommon := keeps_common other
  rw [hturns.old, hturns.new] at hcount
  rw [hother.old, hother.new] at hcommon hcount'
  have hmost : keeps other ≤ keeps edits := hlongest.2 hcommon
  omega

/-! ## The table -/

/-- A row of the table: the lengths for one list and all tails of another. -/
inductive Measures (as : List α) : List α → List Nat → Prop
  | nil : Measures as [] [0]
  | cons {b : α} {bs : List α} {n : Nat} {row : List Nat} (hn : Longest as (b :: bs) n)
      (hrow : Measures as bs row) : Measures as (b :: bs) (n :: row)

/-- **The table of two lists**: a row for each tail of the first. -/
inductive Tabulates : List α → List α → List (List Nat) → Prop
  | nil {bs : List α} {row : List Nat} (hrow : Measures [] bs row) : Tabulates [] bs [row]
  | cons {a : α} {as bs : List α} {row : List Nat} {rows : List (List Nat)}
      (hrow : Measures (a :: as) bs row) (hrows : Tabulates as bs rows) :
      Tabulates (a :: as) bs (row :: rows)

theorem Measures.first {as bs : List α} {row : List Nat} (h : Measures as bs row) :
    Longest as bs (row.headD 0) := by
  cases h with
  | nil => exact longest_nil_right as
  | cons hn hrow => exact hn

theorem measures_zeros (bs : List α) : Measures [] bs (replicate (bs.length + 1) 0) := by
  induction bs with
  | nil => exact .nil
  | cons b bs ih => exact .cons (longest_nil_left _) ih

theorem Tabulates.first {as bs : List α} (h : Tabulates as bs rows) :
    Measures as bs (rows.headD []) := by
  cases h with
  | nil hrow | cons hrow hrows => exact hrow

/-- Without its first column a table is that of the shorter list. -/
theorem Tabulates.columns {as bs : List α} {b : α} (h : Tabulates as (b :: bs) rows) :
    Tabulates as bs (rows.map tail) := by
  have hrest : ∀ {as : List α} {row : List Nat}, Measures as (b :: bs) row →
      Measures as bs row.tail := by
    rintro as row (_ | ⟨-, hrow⟩)
    exact hrow
  induction as generalizing rows with
  | nil =>
    cases h with
    | nil hrow => exact .nil (hrest hrow)
  | cons a as ih =>
    cases h with
    | cons hrow hrows => exact .cons (hrest hrow) (ih hrows)

section Table

variable [DecidableEq α]

/-- **The row above a row of the table is one too.** -/
theorem Measures.rowAbove {as bs : List α} {below : List Nat} (h : Measures as bs below) (a : α) :
    Measures (a :: as) bs (rowAbove a bs below) := by
  induction h with
  | nil => exact .nil
  | @cons b bs d below hd hbelow ih =>
    refine .cons ?_ ih
    split
    · rename_i heq
      subst heq
      exact hbelow.first.cons a
    · rename_i hne
      exact hd.cons_ne hne ih.first

/-- **The table holds the lengths of longest common subsequences.** -/
theorem table_tabulates (as bs : List α) : Tabulates as bs (table as bs) := by
  induction as with
  | nil => exact .nil (measures_zeros bs)
  | cons a as ih => exact .cons (ih.first.rowAbove a) ih

/-! ## The walk -/

/-- **A walk through the table keeps a longest common subsequence.** -/
theorem Tabulates.walk_keeps {as bs : List α} (h : Tabulates as bs rows) :
    Longest as bs (keeps (walk as bs rows)) := by
  fun_induction walk as bs rows with
  | case1 bs rows =>
    rw [keeps_eq_zero (by simp [Edit.isChange])]
    exact longest_nil_left bs
  | case2 a as rows =>
    rw [keeps_eq_zero (by simp [Edit.isChange])]
    exact longest_nil_right (a :: as)
  | case3 as b bs rows ih =>
    obtain _ | ⟨-, hrows⟩ := h
    rw [keeps_cons_keep]
    exact (ih hrows.columns).cons b
  | case4 a as b bs rows hne hle ih =>
    -- the entry to the right is the length for the rest of the new list, so nothing is lost there
    have hnew : Longest (a :: as) bs (keeps (walk (a :: as) bs (rows.map tail))) := by
      simpa using ih (by simpa using h.columns)
    obtain _ | @⟨_, _, _, _, below, _ | @⟨_, _, _, right, hn, hright⟩, hrows⟩ := h
    have hmax : max ((below.headD []).headD 0) (right.headD 0) = right.headD 0 :=
      Nat.max_eq_right hle
    rw [keeps_cons_insert, hnew.unique hright.first, ← hmax]
    exact hrows.first.first.cons_ne hne hright.first
  | case5 a as b bs rows hne hlt ih =>
    obtain _ | @⟨_, _, _, _, below, _ | @⟨_, _, _, right, hn, hright⟩, hrows⟩ := h
    have hmax : max ((below.headD []).headD 0) (right.headD 0) = (below.headD []).headD 0 :=
      Nat.max_eq_left (Nat.le_of_not_le hlt)
    have hold : keeps (walk as (b :: bs) below) = (below.headD []).headD 0 :=
      (ih hrows).unique hrows.first.first
    rw [keeps_cons_delete, tail_cons, hold, ← hmax]
    exact hrows.first.first.cons_ne hne hright.first

end Table

/-! ## Deletions before insertions -/

/-- **No deletion comes right after an insertion.** -/
abbrev Tidy (edits : List (Edit α)) : Prop :=
  edits.IsChain fun e f => (∃ line, e = .insert line) → ∀ line, f ≠ .delete line

/-- Steps that insert nothing are in order. -/
theorem tidy_of_no_insert (h : ∀ line, .insert line ∉ edits) : Tidy edits := by
  refine List.Pairwise.isChain (List.Pairwise.imp_of_mem (R := fun _ _ => True) ?_ ?_)
  · rintro e f he - - ⟨line, rfl⟩
    exact absurd he (h line)
  · exact pairwise_of_forall fun _ _ => trivial

theorem insertAfterDeletes_perm (line : α) (edits : List (Edit α)) :
    (insertAfterDeletes line edits).Perm (.insert line :: edits) := by
  have h : (insertAfterDeletes line edits).Perm
      (.insert line :: (edits.takeWhile Edit.isDelete ++ edits.dropWhile Edit.isDelete)) :=
    perm_middle
  rwa [takeWhile_append_dropWhile] at h

/-- Putting deletions first only moves steps. -/
theorem deletesFirst_perm (edits : List (Edit α)) : (deletesFirst edits).Perm edits := by
  induction edits with
  | nil => exact List.Perm.refl _
  | cons e edits ih =>
    cases e with
    | keep line | delete line => exact ih.cons _
    | insert line => exact (insertAfterDeletes_perm line _).trans (ih.cons _)

theorem tidy_insertAfterDeletes (h : Tidy edits) (line : α) :
    Tidy (insertAfterDeletes line edits) := by
  have hdeletes : ∀ e ∈ edits.takeWhile Edit.isDelete, e.isDelete = true :=
    all_eq_true.mp all_takeWhile
  have hnoInsert : ∀ line', Edit.insert line' ∉ edits.takeWhile Edit.isDelete := by
    intro line' hmem
    exact absurd (hdeletes _ hmem) nofun
  refine isChain_append.mpr ⟨tidy_of_no_insert hnoInsert, ?_, ?_⟩
  · refine isChain_cons.mpr ⟨?_, h.suffix (dropWhile_suffix _)⟩
    -- behind the deletions at the head stands no deletion
    rintro f hf - line' rfl
    have hnot := head?_dropWhile_not Edit.isDelete edits
    rw [Option.mem_def.mp hf] at hnot
    exact absurd hnot nofun
  · rintro e he f - ⟨line', rfl⟩
    exact absurd (mem_of_getLast? he) (hnoInsert line')

/-- **With deletions first, none comes right after an insertion.** -/
theorem tidy_deletesFirst (edits : List (Edit α)) : Tidy (deletesFirst edits) := by
  induction edits with
  | nil => exact .nil
  | cons e edits ih =>
    cases e with
    | keep line | delete line => exact isChain_cons.mpr ⟨fun f _ h => absurd h (by simp), ih⟩
    | insert line => exact tidy_insertAfterDeletes ih line

/-! ## Common beginnings and ends -/

/-- **The longest common beginning** of two lists. -/
structure Beginning (as bs front : List α) : Prop where
  old : front <+: as
  new : front <+: bs
  longest : ∀ p, p <+: as → p <+: bs → p <+: front

/-- **The longest common end** of two lists. -/
structure Ending (as bs back : List α) : Prop where
  old : back <:+ as
  new : back <:+ bs
  longest : ∀ s, s <:+ as → s <:+ bs → s <:+ back

theorem Beginning.unique {as bs front front' : List α} (h : Beginning as bs front)
    (h' : Beginning as bs front') : front = front' := by
  have hle := h'.longest front h.old h.new
  have hge := h.longest front' h'.old h'.new
  exact hle.eq_of_length (Nat.le_antisymm hle.length_le hge.length_le)

/-- The end of two lists is where they begin when they are read backwards. -/
theorem ending_iff_reverse {as bs back : List α} :
    Ending as bs back ↔ Beginning as.reverse bs.reverse back.reverse := by
  constructor
  · rintro ⟨hold, hnew, hlongest⟩
    refine ⟨List.reverse_prefix.mpr hold, reverse_prefix.mpr hnew, fun p hp hp' => ?_⟩
    rw [← reverse_reverse p, reverse_prefix] at hp hp' ⊢
    exact hlongest p.reverse hp hp'
  · rintro ⟨hold, hnew, hlongest⟩
    refine ⟨List.reverse_prefix.mp hold, reverse_prefix.mp hnew, fun s hs hs' => ?_⟩
    rw [← reverse_prefix] at hs hs' ⊢
    exact hlongest s.reverse hs hs'

theorem beginning_take [DecidableEq α] (as bs : List α) :
    Beginning as bs (as.take (commonPrefix as bs)) where
  old := take_prefix _ as
  new := by
    rw [take_commonPrefix]
    exact take_prefix _ bs
  longest p hold hnew := by
    fun_induction commonPrefix as bs generalizing p with
    | case1 as b bs ih =>
      cases p with
      | nil => exact nil_prefix
      | cons x p =>
        obtain ⟨rfl, hrest⟩ := cons_prefix_cons.mp hold
        exact cons_prefix_cons.mpr ⟨rfl, ih p hrest (cons_prefix_cons.mp hnew).2⟩
    | case2 a as b bs hne =>
      cases p with
      | nil => exact nil_prefix
      | cons x p =>
        obtain ⟨rfl, -⟩ := cons_prefix_cons.mp hold
        exact absurd (cons_prefix_cons.mp hnew).1 hne
    | case3 as bs hother =>
      cases as with
      | nil => exact hold
      | cons a as =>
        cases bs with
        | nil => exact hnew.trans nil_prefix
        | cons b bs => exact absurd rfl (hother a as b bs rfl)

/-- **What is left of two lists** once their longest common beginning is taken off, and then the
longest common end of the rest. -/
structure Between (as bs front as' bs' back : List α) : Prop where
  old : as = front ++ as' ++ back
  new : bs = front ++ bs' ++ back
  beginning : Beginning as bs front
  ending : Ending (as' ++ back) (bs' ++ back) back

section Whole

variable [DecidableEq α]

theorem commonPrefix_le (as bs : List α) : commonPrefix as bs ≤ as.length := by
  fun_induction commonPrefix as bs with
  | case1 as b bs ih => exact Nat.succ_le_succ ih
  | case2 a as b bs hne | case3 as bs hother => exact Nat.zero_le _

theorem Beginning.length_eq {as bs front : List α} (h : Beginning as bs front) :
    commonPrefix as bs = front.length := by
  rw [h.unique (beginning_take as bs), length_take_of_le (commonPrefix_le as bs)]

/-- **The script of two lists** keeps what they have in common at both ends. -/
theorem Between.editScript_eq {as bs front as' bs' back : List α}
    (h : Between as bs front as' bs' back) :
    editScript as bs = front.map .keep ++ middleScript as' bs' ++ back.map .keep := by
  obtain ⟨rfl, rfl, hbeginning, hending⟩ := h
  have hfront := hbeginning.length_eq
  rw [append_assoc, append_assoc] at hfront
  have hback := (ending_iff_reverse.mp hending).length_eq
  rw [length_reverse] at hback
  have hcut : ∀ middle : List α, (middle ++ back).length - back.length = middle.length := by
    intro middle
    rw [length_append, Nat.add_sub_cancel]
  simp only [editScript, append_assoc, hfront, drop_left, take_left,
    hback, hcut]

/-- **An edit script is a shortest one.**  If the table for what is left between the common ends of
two lists is not too large, their script keeps as many lines as a longest common subsequence of the
whole lists has, so that no script from the one to the other changes fewer.  Between two kept lines,
deletions come before insertions. -/
theorem editScript_shortest {as bs front as' bs' back : List α}
    (h : Between as bs front as' bs' back) (hsmall : as'.length * bs'.length ≤ maxCells) :
    Longest as bs (keeps (editScript as bs)) ∧
    (∀ edits, Turns edits as bs → changes (editScript as bs) ≤ changes edits) ∧
    Tidy (editScript as bs) := by
  have hmiddle : middleScript as' bs' = deletesFirst (walk as' bs' (table as' bs')) :=
    if_neg (Nat.not_lt_of_le hsmall)
  have hlongest : Longest as bs (keeps (editScript as bs)) := by
    have hkept : keeps (middleScript as' bs') = keeps (walk as' bs' (table as' bs')) := by
      rw [hmiddle]
      exact (deletesFirst_perm _).countP_eq _
    rw [h.editScript_eq, keeps_append, keeps_append, keeps_map_keep, keeps_map_keep, hkept, h.old,
      h.new]
    exact (table_tabulates as' bs').walk_keeps.surround front back
  refine ⟨hlongest, fun edits hedits => ?_, ?_⟩
  · exact changes_le_of_longest (editScript_turns as bs) hlongest hedits
  · have hkeeps : ∀ lines : List α, ∀ line, Edit.insert line ∉ lines.map .keep := by simp
    rw [h.editScript_eq, hmiddle]
    refine List.isChain_append.mpr ⟨List.isChain_append.mpr ⟨tidy_of_no_insert (hkeeps front),
      tidy_deletesFirst _, ?_⟩, tidy_of_no_insert (hkeeps back), ?_⟩
    · rintro e he f - ⟨line, rfl⟩
      exact absurd (List.mem_of_getLast? he) (hkeeps front line)
    · rintro e - f hf - line rfl
      exact absurd (List.mem_of_head? hf) (by simp)

end Whole

/-! Five lines, of which one moves behind the next two. -/

/-- The lines before the move. -/
def unmovedLines : List Bytes := [[97], [98], [99], [100], [101]]

/-- The lines after the move. -/
def movedLines : List Bytes := [[97], [99], [100], [98], [101]]

theorem between_movedLines :
    Between unmovedLines movedLines [[97]] [[98], [99], [100]] [[99], [100], [98]] [[101]] where
  old := rfl
  new := rfl
  beginning := beginning_take unmovedLines movedLines
  ending := ending_iff_reverse.mpr
    (beginning_take [[101], [100], [99], [98]] [[101], [98], [100], [99]])

/-- The move is written as one deletion and one insertion, and cannot be written with less. -/
theorem moved_line_is_shortest :
    [[98], [99], [100]].length * [[99], [100], [98]].length ≤ maxCells ∧
    Longest unmovedLines movedLines 4 ∧
    ∀ edits, Turns edits unmovedLines movedLines → 2 ≤ changes edits := by
  have hsmall : [[98], [99], [100]].length * [[99], [100], [98]].length ≤ maxCells := by decide
  obtain ⟨hlongest, hleast, -⟩ := editScript_shortest between_movedLines hsmall
  have hkeeps : keeps (editScript unmovedLines movedLines) = 4 := by decide +kernel
  have hchanges : changes (editScript unmovedLines movedLines) = 2 := by decide +kernel
  rw [hkeeps] at hlongest
  rw [hchanges] at hleast
  exact ⟨hsmall, hlongest, hleast⟩

end Judge.Diff
