import Judge.Checker
import Judge.Proofs.Cuts
import Judge.Proofs.EditScripts

/-!
# Proofs/Patches — a difference is a patch

`Patch.read` reads a unified difference by its text alone: the counts in the header of a hunk fix
how many lines belong to it.  `Patch.apply` carries the hunks out on a list of lines, each at the
place that its header gives in the old list and in the new one, and refuses a hunk whose kept or
deleted lines are not there.  `apply_hunks` and `read_render` say that the hunks of a script are
applied as the script goes and are read back from its text.
-/

namespace Judge.Patch

open List
open Diff (changeIndices editText hunkRanges hunkRanges_spec hunkText lines newLines newLines_append
  oldLines oldLines_append Shown sideText Turns unified within)
open Utf8 (decode? decodeLossy encode mended)

/-! ## Patches -/

/-- One side of a hunk, as its header gives it: the number of its first line, counted from one, and
the number of its lines. -/
structure Side where
  start : Nat
  count : Nat
deriving DecidableEq, Repr

/-- The number of lines in front of a side.  A side without lines names the line in front of it. -/
def Side.before (s : Side) : Nat := if s.count = 0 then s.start else s.start - 1

/-- A hunk of a patch. -/
structure Hunk where
  old : Side
  new : Side
  edits : List (Edit Bytes)
deriving DecidableEq, Repr

/-- A hunk is full when it has the lines that its header counts. -/
def Hunk.full (h : Hunk) : Bool :=
  (oldLines h.edits).length == h.old.count && (newLines h.edits).length == h.new.count

/-! ### Reading -/

def readNumber (cs : List Char) : Option Nat :=
  if cs ≠ [] ∧ cs.all Char.isDigit then some (Nat.ofDigitChars 10 cs 0) else none

/-- Reads one side of a header: `start,count`, or `start` alone for one line. -/
def readSide (cs : List Char) : Option Side :=
  match splitWhere (· == ',') cs with
  | [start] => (readNumber start).map (⟨·, 1⟩)
  | [start, count] => do return ⟨← readNumber start, ← readNumber count⟩
  | _ => none

/-- Reads a header `@@ -old +new @@`. -/
def readHeader (cs : List Char) : Option Hunk :=
  match splitWhere (· == ' ') cs with
  | [['@', '@'], '-' :: old, '+' :: new, ['@', '@']] => do
    return { old := ← readSide old, new := ← readSide new, edits := [] }
  | _ => none

/-- Reads a line of a hunk. -/
def readEdit : List Char → Option (Edit Bytes)
  | ' ' :: cs => some (.keep (encode cs))
  | '-' :: cs => some (.delete (encode cs))
  | '+' :: cs => some (.insert (encode cs))
  | _ => none

/-- Reads one more line behind the hunks so far, last one first.  A line belongs to the last hunk
until that is full. -/
def readLine : List Hunk → List Char → Option (List Hunk)
  | [], line => (readHeader line).map ([·])
  | h :: hunks, line =>
    if h.full then (readHeader line).map (· :: h :: hunks)
    else (readEdit line).map fun e => { h with edits := h.edits ++ [e] } :: hunks

/-- **Reads a patch**: the two lines that name the files, then hunks, each of them full. -/
def read (text : String) : Option (List Hunk) :=
  match splitWhere (· == '\n') text.toList with
  | old :: new :: rest =>
    if "--- ".toList.isPrefixOf old ∧ "+++ ".toList.isPrefixOf new ∧ rest.getLast? = some [] then
      do
        let hunks ← rest.dropLast.foldlM readLine []
        if hunks.all Hunk.full then return hunks.reverse else none
    else none
  | _ => none

/-! ### Applying -/

/-- Carries out the steps of a hunk at the head of `lines`: the lines it gives, and those behind it.
A kept or deleted line must be there. -/
def applyEdits : List (Edit Bytes) → List Bytes → Option (List Bytes × List Bytes)
  | [], lines => some ([], lines)
  | .keep line :: edits, x :: lines =>
    if line = x then (applyEdits edits lines).map fun r => (x :: r.1, r.2) else none
  | .delete line :: edits, x :: lines => if line = x then applyEdits edits lines else none
  | .insert line :: edits, lines => (applyEdits edits lines).map fun r => (line :: r.1, r.2)
  | _, [] => none

/-- Applies the hunks to what is left of a list, of which `taken` lines were replaced by `given`
lines.  A hunk must stand in both lists where its header says. -/
def applyFrom : Nat → Nat → List Hunk → List Bytes → Option (List Bytes)
  | _, _, [], lines => some lines
  | taken, given, h :: hunks, lines => do
    let gap := h.old.before - taken
    if h.old.before = taken + gap ∧ h.new.before = given + gap ∧ gap ≤ lines.length then
      let (here, rest) ← applyEdits h.edits (lines.drop gap)
      let more ← applyFrom (h.old.before + h.old.count) (h.new.before + h.new.count) hunks rest
      return lines.take gap ++ here ++ more
    else none

/-- **Applies a patch.** -/
def apply (hunks : List Hunk) (lines : List Bytes) : Option (List Bytes) :=
  applyFrom 0 0 hunks lines

/-- **The header of a side is true** of the hunk's lines `part` of the list `lines`: it counts them,
and gives the place where they stand.  Only an empty list has a side without lines. -/
def Side.Locates (s : Side) (part lines : List Bytes) : Prop :=
  s.count = part.length ∧
    if part = [] then s.start = 0 ∧ lines = []
    else 1 ≤ s.start ∧ (lines.drop (s.start - 1)).take s.count = part

/-- **A text is a patch from `old` to `new`**: it can be read, what is read applies to `old` and
gives `new`, and every header is true of both. -/
def IsPatch (text : String) (old new : List Bytes) : Prop :=
  ∃ hunks, read text = some hunks ∧ apply hunks old = some new ∧
    ∀ h ∈ hunks, h.old.Locates (oldLines h.edits) old ∧ h.new.Locates (newLines h.edits) new

/-! ## The hunks of a script -/

/-- The header of a side with `count` lines behind `before` others. -/
def sideAt (before count : Nat) : Side := ⟨if count = 0 then 0 else before + 1, count⟩

variable (edits : List (Edit Bytes))

/-- The hunk over a range of a script. -/
def hunkAt (r : Nat × Nat) : Hunk where
  old := sideAt (oldLines (edits.take r.1)).length (oldLines (within edits r)).length
  new := sideAt (newLines (edits.take r.1)).length (newLines (within edits r)).length
  edits := within edits r

/-- One side of the hunk that covers a range of a script. -/
def sideOver (r : Nat × Nat) (side : Edit Bytes → Option Bytes) : Side :=
  sideAt ((edits.take r.1).filterMap side).length ((within edits r).filterMap side).length

section Side

variable {edits : List (Edit Bytes)} {r : Nat × Nat} {side : Edit Bytes → Option Bytes}
  (hr : r ∈ hunkRanges edits) (hkeep : ∀ line, side (.keep line) = some line)
include hr hkeep

/-- Where a hunk has no line of a side, the side of the whole script has none. -/
theorem side_eq_nil (hnil : (within edits r).filterMap side = []) :
    r.1 = 0 ∧ edits.filterMap side = [] := by
  have hnone : ∀ line, .keep line ∉ within edits r := fun line hmem => by
    have := filterMap_eq_nil_iff.mp hnil _ hmem
    rw [hkeep] at this
    cases this
  obtain ⟨hfirst, hwhole⟩ := Diff.whole_of_no_keep hr hnone
  exact ⟨hfirst, hwhole ▸ hnil⟩

theorem before_sideOver :
    (sideOver edits r side).before = ((edits.take r.1).filterMap side).length := by
  by_cases hnil : (within edits r).filterMap side = []
  · obtain ⟨hfirst, -⟩ := side_eq_nil hr hkeep hnil
    simp [sideOver, sideAt, Side.before, hnil, hfirst]
  · have hcount : ((within edits r).filterMap side).length ≠ 0 := by simpa using hnil
    simp only [sideOver, sideAt, Side.before, if_neg hcount]
    omega

theorem through_sideOver :
    (sideOver edits r side).before + ((within edits r).filterMap side).length
      = ((edits.take r.2).filterMap side).length := by
  have hle : r.1 ≤ r.2 := Nat.le_of_lt ((hunkRanges_spec edits).1 r hr).1
  rw [before_sideOver hr hkeep, ← Diff.take_append_within hle, filterMap_append, length_append]

theorem sideOver_locates :
    (sideOver edits r side).Locates ((within edits r).filterMap side) (edits.filterMap side) := by
  refine ⟨rfl, ?_⟩
  split
  · next hnil =>
    obtain ⟨-, hwhole⟩ := side_eq_nil hr hkeep hnil
    simp [sideOver, sideAt, hnil, hwhole]
  · next hnil =>
    have hcount : ((within edits r).filterMap side).length ≠ 0 := by simpa using hnil
    have hle : r.1 ≤ r.2 := Nat.le_of_lt ((hunkRanges_spec edits).1 r hr).1
    have hsplit : edits.filterMap side = (edits.take r.1).filterMap side ++
        ((within edits r).filterMap side ++ (edits.drop r.2).filterMap side) := by
      rw [← filterMap_append, ← filterMap_append, Diff.within_append_drop hle, take_append_drop]
    simp only [sideOver, sideAt, if_neg hcount]
    refine ⟨Nat.le_add_left _ _, ?_⟩
    rw [Nat.add_sub_cancel, hsplit, drop_left, take_left]

end Side

/-- A script carried out on its own old lines gives its new ones. -/
theorem applyEdits_append (rest : List Bytes) :
    applyEdits edits (oldLines edits ++ rest) = some (newLines edits, rest) := by
  induction edits with
  | nil => rfl
  | cons e edits ih =>
    cases e with
    | keep line =>
      change applyEdits (.keep line :: edits) (line :: (oldLines edits ++ rest)) = _
      rw [applyEdits, if_pos rfl, ih]
      rfl
    | delete line =>
      change applyEdits (.delete line :: edits) (line :: (oldLines edits ++ rest)) = _
      rw [applyEdits, if_pos rfl, ih]
      rfl
    | insert line =>
      change applyEdits (.insert line :: edits) (oldLines edits ++ rest) = _
      rw [applyEdits, ih]
      rfl

/-- A hunk at its place behind kept lines is carried out. -/
theorem applyFrom_cons {h : Hunk} {taken given : Nat} {lines : List Bytes}
    (hold : h.old.before = taken + lines.length) (hnew : h.new.before = given + lines.length)
    (hunks : List Hunk) (rest : List Bytes) :
    applyFrom taken given (h :: hunks) (lines ++ (oldLines h.edits ++ rest)) =
      (applyFrom (h.old.before + h.old.count) (h.new.before + h.new.count) hunks rest).map
        (lines ++ newLines h.edits ++ ·) := by
  have hgap : h.old.before - taken = lines.length := by omega
  rw [applyFrom]
  simp only [hgap]
  rw [if_pos ⟨hold, hnew, by simp⟩, drop_left, take_left, applyEdits_append,
    Option.bind_eq_bind, Option.bind_some]
  cases applyFrom (h.old.before + h.old.count) (h.new.before + h.new.count) hunks rest <;> rfl

/-- **The hunks behind the first `p` steps of a script take its remaining old lines to its remaining
new ones.**  Between two hunks every line is kept. -/
theorem applyFrom_hunks {edits : List (Edit Bytes)} {ranges : List (Nat × Nat)} :
    ∀ {p : Nat}, (∀ r ∈ ranges, r ∈ hunkRanges edits ∧ p ≤ r.1) →
    ranges.Pairwise (fun r s => r.2 < s.1) →
    (∀ i ∈ changeIndices edits, p ≤ i → Shown ranges i) →
    applyFrom (oldLines (edits.take p)).length (newLines (edits.take p)).length
      (ranges.map (hunkAt edits)) (oldLines (edits.drop p)) = some (newLines (edits.drop p)) := by
  induction ranges with
  | nil =>
    intro p _ _ hshown
    obtain ⟨lines, hlines⟩ : ∃ lines : List Bytes, edits.drop p = lines.map .keep := by
      have hwithin : within edits (p, edits.length) = edits.drop p :=
        take_of_length_le (by rw [length_drop])
      rw [← hwithin]
      refine Diff.within_eq_keeps fun i hi hp => ?_
      obtain ⟨r, hr, -⟩ := hshown i hi hp
      exact absurd hr not_mem_nil
    have hturns := Diff.turns_keeps lines
    rw [hlines, hturns.old, hturns.new]
    rfl
  | cons r ranges ih =>
    intro p hranges hapart hshown
    obtain ⟨hlater, hrest⟩ := pairwise_cons.mp hapart
    obtain ⟨hr, hp⟩ := hranges r mem_cons_self
    have hbounds := (hunkRanges_spec edits).1 r hr
    -- The steps from `p` up to the hunk.
    obtain ⟨lines, hlines⟩ : ∃ lines : List Bytes, within edits (p, r.1) = lines.map .keep := by
      refine Diff.within_eq_keeps fun i hi hpi => ?_
      rcases Diff.shown_cons.mp (hshown i hi hpi) with ⟨hlow, -⟩ | ⟨s, hs, hlow, -⟩
      · exact hlow
      · have := hlater s hs
        omega
    have hgap := Diff.turns_keeps lines
    rw [← hlines] at hgap
    have hfront : edits.take r.1 = edits.take p ++ within edits (p, r.1) :=
      (Diff.take_append_within (r := (p, r.1)) hp).symm
    have hdrop : edits.drop p = within edits (p, r.1) ++ (within edits r ++ edits.drop r.2) := by
      rw [Diff.within_append_drop (Nat.le_of_lt hbounds.1)]
      exact (Diff.within_append_drop (r := (p, r.1)) hp).symm
    have holdBefore : (hunkAt edits r).old.before
        = (oldLines (edits.take p)).length + lines.length := by
      rw [← hgap.old, ← length_append, ← oldLines_append, ← hfront]
      exact before_sideOver hr fun _ => rfl
    have hnewBefore : (hunkAt edits r).new.before
        = (newLines (edits.take p)).length + lines.length := by
      rw [← hgap.new, ← length_append, ← newLines_append, ← hfront]
      exact before_sideOver hr fun _ => rfl
    have hmore := ih (p := r.2)
      (fun s hs => ⟨(hranges s (mem_cons_of_mem _ hs)).1, Nat.le_of_lt (hlater s hs)⟩) hrest
      (fun i hi hri => by
        rcases Diff.shown_cons.mp (hshown i hi (by omega)) with ⟨-, hhigh⟩ | hlater
        · omega
        · exact hlater)
    have holdThrough : (hunkAt edits r).old.before + (hunkAt edits r).old.count
        = (oldLines (edits.take r.2)).length := through_sideOver hr fun _ => rfl
    have hnewThrough : (hunkAt edits r).new.before + (hunkAt edits r).new.count
        = (newLines (edits.take r.2)).length := through_sideOver hr fun _ => rfl
    rw [hdrop, oldLines_append, oldLines_append, newLines_append,
      newLines_append, hgap.old, hgap.new, map_cons]
    refine (applyFrom_cons holdBefore hnewBefore _ _).trans ?_
    rw [holdThrough, hnewThrough, hmore, Option.map_some, append_assoc]
    rfl

/-- **Applying the hunks of a script is carrying it out.** -/
theorem apply_hunks {edits : List (Edit Bytes)} {old new : List Bytes} (h : Turns edits old new) :
    apply ((hunkRanges edits).map (hunkAt edits)) old = some new := by
  obtain ⟨rfl, rfl⟩ := h
  obtain ⟨-, hapart, hshown⟩ := hunkRanges_spec edits
  exact applyFrom_hunks (p := 0) (fun r hr => ⟨hr, Nat.zero_le _⟩) hapart fun i hi _ =>
    (hshown i (Diff.lt_of_mem_changeIndices hi)).mpr
      ⟨i, hi, Nat.le_add_right _ _, Nat.le_add_right _ _⟩

/-! ## The text of a script -/

theorem readNumber_toString (n : Nat) : readNumber (toString n).toList = some n := by
  have hdigits : (Nat.toDigits 10 n).all Char.isDigit = true :=
    all_eq_true.mpr fun c => Nat.isDigit_of_mem_toDigits (by decide) (by decide)
  rw [Nat.toString_eq_ofList_toDigits, String.toList_ofList, readNumber,
    if_pos ⟨Nat.toDigits_ne_nil, hdigits⟩, Nat.ofDigitChars_ten_toDigits]

theorem isDigit_of_mem_toString {n : Nat} {c : Char} (h : c ∈ (toString n).toList) :
    c.isDigit = true := by
  rw [Nat.toString_eq_ofList_toDigits, String.toList_ofList] at h
  exact Nat.isDigit_of_mem_toDigits (by decide) (by decide) h

theorem mem_sideText {before count : Nat} {c : Char} (h : c ∈ (sideText before count).toList) :
    c.isDigit = true ∨ c = ',' := by
  unfold sideText at h
  split_ifs at h
  · rcases (by simpa using h : c = '0' ∨ c = ',' ∨ c = '0') with rfl | rfl | rfl <;> decide
  · exact .inl (isDigit_of_mem_toString h)
  · simp only [String.toList_append, mem_append] at h
    rcases h with (h | h) | h
    · exact .inl (isDigit_of_mem_toString h)
    · exact .inr (by simpa using h)
    · exact .inl (isDigit_of_mem_toString h)

theorem readSide_sideText (before count : Nat) :
    readSide (sideText before count).toList = some (sideAt before count) := by
  have hdigits : ∀ n : Nat, ∀ c ∈ (toString n).toList, (c == ',') = false := fun n =>
    beq_eq_false_of_notMem fun hc => absurd (isDigit_of_mem_toString hc) (by decide)
  unfold sideText
  split_ifs with hzero hone
  · subst hzero
    change readSide _ = some ⟨0, 0⟩
    decide
  · subst hone
    rw [readSide, splitWhere_eq_singleton (hdigits _)]
    simp only [readNumber_toString]
    rfl
  · rw [String.toList_append, String.toList_append, append_assoc, readSide]
    have hsplit : splitWhere (· == ',')
        ((toString (before + 1)).toList ++ (",".toList ++ (toString count).toList)) =
          [(toString (before + 1)).toList, (toString count).toList] := by
      rw [← splitWhere_eq_singleton (hdigits count)]
      exact splitWhere_append_cons (hdigits _) rfl _
    rw [hsplit]
    simp only [readNumber_toString, sideAt, if_neg hzero]
    rfl

theorem readHeader_eq {old new : List Char} {o n : Side} (hold : ' ' ∉ old) (hnew : ' ' ∉ new)
    (ho : readSide old = some o) (hn : readSide new = some n) :
    readHeader ("@@ -".toList ++ old ++ " +".toList ++ new ++ " @@".toList) = some ⟨o, n, []⟩ := by
  have hsplit : splitWhere (· == ' ')
      (['@', '@'] ++ ' ' :: (('-' :: old) ++ ' ' :: (('+' :: new) ++ ' ' :: ['@', '@'])))
        = [['@', '@'], '-' :: old, '+' :: new, ['@', '@']] := by
    have hold' := not_mem_cons_of_ne_of_not_mem (by decide : ' ' ≠ '-') hold
    have hnew' := not_mem_cons_of_ne_of_not_mem (by decide : ' ' ≠ '+') hnew
    rw [splitWhere_append_cons (beq_eq_false_of_notMem (by decide)) rfl,
      splitWhere_append_cons (beq_eq_false_of_notMem hold') rfl,
      splitWhere_append_cons (beq_eq_false_of_notMem hnew') rfl,
      splitWhere_eq_singleton (beq_eq_false_of_notMem (by decide))]
  have hline : "@@ -".toList ++ old ++ " +".toList ++ new ++ " @@".toList
      = ['@', '@'] ++ ' ' :: (('-' :: old) ++ ' ' :: (('+' :: new) ++ ' ' :: ['@', '@'])) := by
    simp
  rw [hline, readHeader, hsplit]
  simp [ho, hn]

/-- The header line of the hunk over a range of a script. -/
def headerLine (r : Nat × Nat) : List Char :=
  "@@ -".toList ++
    (sideText (oldLines (edits.take r.1)).length (oldLines (within edits r)).length).toList ++
    " +".toList ++
    (sideText (newLines (edits.take r.1)).length (newLines (within edits r)).length).toList ++
    " @@".toList

/-- The line for one step of a script. -/
def editLine : Edit Bytes → List Char
  | .keep line => ' ' :: decodeLossy line
  | .delete line => '-' :: decodeLossy line
  | .insert line => '+' :: decodeLossy line

/-- The lines for the hunk over a range of a script. -/
def hunkLines (r : Nat × Nat) : List (List Char) :=
  headerLine edits r :: (within edits r).map editLine

theorem toList_hunkText (r : Nat × Nat) :
    (hunkText edits r).toList = (hunkLines edits r).flatMap (· ++ ['\n']) := by
  have hedit : ∀ e, (editText e).toList = editLine e ++ ['\n'] := fun e => by
    cases e <;> simp [editText, Utf8.text, editLine]
  have hbody : (String.join ((within edits r).map editText)).toList
      = ((within edits r).map editLine).flatMap (· ++ ['\n']) := by
    rw [String.toList_join, flatMap_map, flatMap_map]
    simp only [hedit]
  -- For the parts of the header as variables: rewriting would look into the literals.
  have happend : ∀ a b c d e e' f : String, e.toList = e'.toList ++ ['\n'] →
      (a ++ b ++ c ++ d ++ e ++ f).toList
        = a.toList ++ b.toList ++ c.toList ++ d.toList ++ e'.toList ++ ['\n'] ++ f.toList := by
    intro a b c d e e' f he
    simp only [String.toList_append, he, append_assoc]
  refine (happend _ _ _ _ _ " @@" (String.join ((within edits r).map editText)) rfl).trans ?_
  rw [hbody, hunkLines, flatMap_cons]
  rfl

theorem not_mem_sideText {c : Char} (hdigit : c.isDigit = false) (hcomma : c ≠ ',')
    (before count : Nat) : c ∉ (sideText before count).toList := fun h => by
  rcases mem_sideText h with h | h
  · rw [hdigit] at h
    cases h
  · exact hcomma h

theorem lineFeed_notMem_headerLine (r : Nat × Nat) : '\n' ∉ headerLine edits r := by
  have hside := not_mem_sideText (c := '\n') (by decide) (by decide)
  unfold headerLine
  simp only [mem_append, not_or]
  exact ⟨⟨⟨⟨by decide, hside _ _⟩, by decide⟩, hside _ _⟩, by decide⟩

theorem readHeader_headerLine (r : Nat × Nat) :
    readHeader (headerLine edits r) = some { hunkAt edits r with edits := [] } :=
  readHeader_eq (not_mem_sideText (by decide) (by decide) _ _)
    (not_mem_sideText (by decide) (by decide) _ _) (readSide_sideText _ _) (readSide_sideText _ _)

/-- The lines of a hunk are read up to its last one, as its header counts them. -/
theorem foldlM_readLine_edits {edits : List (Edit Bytes)} {hunks : List Hunk} :
    ∀ {h : Hunk}, (∀ e ∈ edits, readEdit (editLine e) = some e) →
    h.old.count = (oldLines (h.edits ++ edits)).length →
    h.new.count = (newLines (h.edits ++ edits)).length →
    (edits.map editLine).foldlM readLine (h :: hunks)
      = some ({ h with edits := h.edits ++ edits } :: hunks) := by
  induction edits with
  | nil =>
    intro h _ _ _
    rw [append_nil]
    rfl
  | cons e edits ih =>
    intro h hread hold hnew
    -- The step at hand is still missing on one of the sides.
    have hfull : h.full = false := by
      rw [oldLines_append, length_append] at hold
      rw [newLines_append, length_append] at hnew
      rw [Hunk.full, Bool.and_eq_false_iff, beq_eq_false_iff_ne, beq_eq_false_iff_ne, hold, hnew]
      cases e <;> simp [oldLines, newLines, Edit.old?, Edit.new?]
    have hstep : readLine (h :: hunks) (editLine e)
        = some ({ h with edits := h.edits ++ [e] } :: hunks) := by
      rw [readLine, hread e mem_cons_self, hfull]
      rfl
    have hrest := ih (h := { h with edits := h.edits ++ [e] })
      (fun e' he' => hread e' (mem_cons_of_mem _ he'))
      (by rw [append_assoc]; exact hold) (by rw [append_assoc]; exact hnew)
    rw [map_cons, foldlM_cons, hstep]
    refine hrest.trans ?_
    rw [append_assoc]
    rfl

theorem full_hunkAt (r : Nat × Nat) : (hunkAt edits r).full = true := by
  simp [Hunk.full, hunkAt, sideAt]

theorem foldlM_readLine_hunk {edits : List (Edit Bytes)} {r : Nat × Nat} {hunks : List Hunk}
    (hread : ∀ e ∈ edits, readEdit (editLine e) = some e) (hfull : ∀ h ∈ hunks, h.full = true) :
    (hunkLines edits r).foldlM readLine hunks = some (hunkAt edits r :: hunks) := by
  have hheader : readLine hunks (headerLine edits r)
      = some ({ hunkAt edits r with edits := [] } :: hunks) := by
    cases hunks with
    | nil => rw [readLine, readHeader_headerLine, Option.map_some]
    | cons h hunks =>
      rw [readLine, if_pos (hfull h mem_cons_self), readHeader_headerLine, Option.map_some]
  have hmem : ∀ e ∈ within edits r, readEdit (editLine e) = some e := fun e he =>
    hread e (mem_of_mem_drop (mem_of_mem_take he))
  rw [hunkLines, foldlM_cons, hheader]
  exact foldlM_readLine_edits (h := { hunkAt edits r with edits := [] }) hmem rfl rfl

theorem foldlM_readLine_hunks {edits : List (Edit Bytes)} {ranges : List (Nat × Nat)}
    (hread : ∀ e ∈ edits, readEdit (editLine e) = some e) :
    ∀ {hunks : List Hunk}, (∀ h ∈ hunks, h.full = true) →
    (ranges.flatMap (hunkLines edits)).foldlM readLine hunks
      = some ((ranges.map (hunkAt edits)).reverse ++ hunks) := by
  induction ranges with
  | nil =>
    intro hunks _
    rfl
  | cons r ranges ih =>
    intro hunks hfull
    rw [flatMap_cons, foldlM_append, foldlM_readLine_hunk hread hfull,
      Option.bind_eq_bind, Option.bind_some,
      ih (forall_mem_cons.mpr ⟨full_hunkAt edits r, hfull⟩)]
    simp

/-- The text of a script with a change. -/
def render : String :=
  "--- expected\n+++ actual\n" ++ String.join ((hunkRanges edits).map (hunkText edits))

theorem toList_render :
    (render edits).toList = ("--- expected".toList :: "+++ actual".toList ::
      (hunkRanges edits).flatMap (hunkLines edits)).flatMap (· ++ ['\n']) := by
  have hhunks : (String.join ((hunkRanges edits).map (hunkText edits))).toList
      = ((hunkRanges edits).flatMap (hunkLines edits)).flatMap (· ++ ['\n']) := by
    rw [String.toList_join, flatMap_map, flatMap_assoc]
    simp only [toList_hunkText]
  refine String.toList_append.trans ?_
  rw [hhunks, flatMap_cons, flatMap_cons]
  rfl

theorem read_of_lines {text : String} {old new : List Char} {lines : List (List Char)}
    {hunks : List Hunk}
    (hsplit : splitWhere (· == '\n') text.toList = old :: new :: (lines ++ [[]]))
    (hold : "--- ".toList.isPrefixOf old) (hnew : "+++ ".toList.isPrefixOf new)
    (hread : lines.foldlM readLine [] = some hunks) (hfull : hunks.all Hunk.full = true) :
    read text = some hunks.reverse := by
  rw [read, hsplit]
  dsimp only
  rw [if_pos ⟨hold, hnew, getLast?_concat⟩, dropLast_concat, hread,
    Option.bind_eq_bind, Option.bind_some, if_pos hfull]
  rfl

/-- **The text of a script is read back as its hunks.** -/
theorem read_render {edits : List (Edit Bytes)}
    (h : ∀ e ∈ edits, readEdit (editLine e) = some e ∧ '\n' ∉ editLine e) :
    read (render edits) = some ((hunkRanges edits).map (hunkAt edits)) := by
  have hlines : ∀ line ∈ "--- expected".toList :: "+++ actual".toList ::
      (hunkRanges edits).flatMap (hunkLines edits), '\n' ∉ line := by
    refine forall_mem_cons.mpr ⟨by decide, forall_mem_cons.mpr ⟨by decide, ?_⟩⟩
    intro line hline
    obtain ⟨r, -, hr⟩ := mem_flatMap.mp hline
    rcases mem_cons.mp hr with rfl | hr
    · exact lineFeed_notMem_headerLine edits r
    · obtain ⟨e, he, rfl⟩ := mem_map.mp hr
      exact (h e (mem_of_mem_drop (mem_of_mem_take he))).2
  have hread : ((hunkRanges edits).flatMap (hunkLines edits)).foldlM readLine [] = some _ :=
    foldlM_readLine_hunks (fun e he => (h e he).1) (forall_mem_nil _)
  have hfull : ((hunkRanges edits).map (hunkAt edits)).reverse.all Hunk.full = true := by
    simp [full_hunkAt]
  have hsplit : splitWhere (· == '\n') (render edits).toList = "--- expected".toList ::
      "+++ actual".toList :: ((hunkRanges edits).flatMap (hunkLines edits) ++ [[]]) := by
    rw [toList_render, splitWhere_lines hlines]
    rfl
  rw [append_nil] at hread
  rw [read_of_lines hsplit (by decide) (by decide) hread hfull, reverse_reverse]

/-! ## Differences -/

/-- The text of a script shows its lines mended. -/
theorem render_mended : render (edits.map (Edit.map mended)) = render edits := by
  have hedit : ∀ e : Edit Bytes, editText (e.map mended) = editText e := fun e => by
    cases e <;> simp [Edit.map, editText, Utf8.text, mended, Utf8.decodeLossy_encode]
  have hhunk : hunkText (edits.map (Edit.map mended)) = hunkText edits := by
    funext r
    simp only [hunkText, ← map_take, ← map_drop, Diff.oldLines_map,
      Diff.newLines_map, length_map, map_map, Function.comp_def, hedit]
  have hhunks : (hunkRanges (edits.map (Edit.map mended))).map
      (hunkText (edits.map (Edit.map mended)))
        = (hunkRanges edits).map (hunkText edits) := by
    rw [Diff.hunkRanges_map, hhunk]
  exact congrArg (fun hunks => "--- expected\n+++ actual\n" ++ String.join hunks) hhunks

theorem readEdit_mended (e : Edit Bytes) :
    readEdit (editLine (e.map mended)) = some (e.map mended) := by
  cases e <;> simp [Edit.map, editLine, readEdit, mended, Utf8.decodeLossy_encode]

theorem lineFeed_notMem_editLine {e : Edit Bytes}
    (h : ∀ line, e.old? = some line ∨ e.new? = some line → 0x0A ∉ line) :
    '\n' ∉ editLine (e.map mended) := by
  have hline : ∀ line : Bytes, 0x0A ∉ line → '\n' ∉ decodeLossy (mended line) :=
    fun line hfree hmem => by
      rw [mended, Utf8.decodeLossy_encode] at hmem
      exact hfree (Utf8.mem_of_mem_decodeLossy (by decide) hmem)
  cases e with
  | keep line | delete line =>
    exact not_mem_cons_of_ne_of_not_mem (by decide) (hline line (h line (.inl rfl)))
  | insert line =>
    exact not_mem_cons_of_ne_of_not_mem (by decide) (hline line (h line (.inr rfl)))

theorem unified_eq_render {expected actual : List Bytes} (hne : expected ≠ actual) :
    unified expected actual = render (Diff.editScript expected actual) := by
  rw [unified, if_pos ((Diff.any_isChange_editScript expected actual).mpr hne)]
  rfl

/-- **Only equal lists have no difference.** -/
theorem unified_eq_empty_iff (expected actual : List Bytes) :
    unified expected actual = "" ↔ expected = actual := by
  constructor
  · intro hempty
    by_contra hne
    rw [unified_eq_render hne] at hempty
    exact absurd (String.append_eq_empty_iff.mp hempty).1 (by decide)
  · intro heq
    have hchange := mt (Diff.any_isChange_editScript expected actual).mp (not_not_intro heq)
    rw [unified, if_neg hchange]

/-- **The difference of two lists of lines is a patch between them**, as far as their lines can be
shown. -/
theorem unified_isPatch {expected actual : List Bytes} (hne : expected ≠ actual)
    (hlines : ∀ line ∈ expected ++ actual, 0x0A ∉ line) :
    IsPatch (unified expected actual) (expected.map mended) (actual.map mended) := by
  have hturns := Diff.editScript_turns expected actual
  have hshown := hturns.map mended
  have hread : ∀ e ∈ (Diff.editScript expected actual).map (Edit.map mended),
      readEdit (editLine e) = some e ∧ '\n' ∉ editLine e := by
    intro e he
    obtain ⟨e, hmem, rfl⟩ := mem_map.mp he
    refine ⟨readEdit_mended e, lineFeed_notMem_editLine fun line hline => hlines line ?_⟩
    rcases hline with hold | hnew
    · rw [← hturns.old]
      exact mem_append_left _ (mem_filterMap.mpr ⟨e, hmem, hold⟩)
    · rw [← hturns.new]
      exact mem_append_right _ (mem_filterMap.mpr ⟨e, hmem, hnew⟩)
  rw [unified_eq_render hne, ← render_mended]
  refine ⟨_, read_render hread, apply_hunks hshown, fun h hh => ?_⟩
  obtain ⟨r, hr, rfl⟩ := mem_map.mp hh
  rw [← hshown.old, ← hshown.new]
  exact ⟨sideOver_locates hr fun _ => rfl, sideOver_locates hr fun _ => rfl⟩

/-! ## The comparison of raw data -/

theorem lines_injective : Function.Injective lines := fun xs ys h => by
  rw [← (splitWhere_spec 0x0A xs).1, ← (splitWhere_spec 0x0A ys).1]
  exact congrArg _ h

theorem map_mended {lines : List Bytes} (h : ∀ line ∈ lines, (decode? line).isSome) :
    lines.map mended = lines := by
  rw [map_congr_left fun line hline => Utf8.mended_eq_self (h line hline), map_id']

theorem isSome_decode?_of_mem_lines {data line : Bytes} (h : (decode? data).isSome)
    (hline : line ∈ lines data) : (decode? line).isSome := by
  obtain ⟨cs, hcs⟩ := Option.isSome_iff_exists.mp h
  rw [Utf8.decode?_eq_some_iff.mp hcs, lines, Utf8.splitWhere_encode (by decide)] at hline
  obtain ⟨piece, -, rfl⟩ := mem_map.mp hline
  rw [Utf8.decode?_eq_some_iff.mpr rfl]
  rfl

theorem compare_exact (eps : Binary64) (produced reference : Bytes) :
    Checker.compare eps produced reference .exact =
      if produced = reference then .ok ()
      else .error {
        message := "lines differ"
        diff := some (unified (lines reference) (lines produced)) } := by
  rw [Checker.compare, Checker.compareLines]
  by_cases h : produced = reference
  · rw [if_pos h, if_pos (congrArg lines h.symm)]
  · rw [if_neg h, if_neg fun heq => h (lines_injective heq).symm]

/-- **The rendered difference is a correct patch**, and the exact comparison shows one whenever it
does not accept. -/
theorem difference_is_patch :
    (∀ expected actual : List Bytes,
      (∀ line ∈ expected ++ actual, 0x0A ∉ line ∧ (Utf8.decode? line).isSome) →
      (Diff.unified expected actual = "" ↔ expected = actual) ∧
      (expected ≠ actual → IsPatch (Diff.unified expected actual) expected actual)) ∧
    ∀ (eps : Binary64) (produced reference : Bytes),
      (Checker.compare eps produced reference .exact = .ok () ↔ produced = reference) ∧
      (produced ≠ reference → ∃ diff,
        Checker.compare eps produced reference .exact
          = .error { message := "lines differ", diff := some diff } ∧
        IsPatch diff ((Diff.lines reference).map Utf8.mended)
          ((Diff.lines produced).map Utf8.mended) ∧
        ((Utf8.decode? reference).isSome → (Utf8.decode? produced).isSome →
          IsPatch diff (Diff.lines reference) (Diff.lines produced))) := by
  constructor
  · intro expected actual hlines
    refine ⟨unified_eq_empty_iff expected actual, fun hne => ?_⟩
    have hpatch := unified_isPatch hne fun line hline => (hlines line hline).1
    rwa [map_mended fun line hline => (hlines line (List.mem_append_left _ hline)).2,
      map_mended fun line hline => (hlines line (List.mem_append_right _ hline)).2] at hpatch
  · intro eps produced reference
    rw [compare_exact]
    refine ⟨by split <;> simp_all, fun hne => ⟨_, if_neg hne, ?_⟩⟩
    have hfree : ∀ line ∈ Diff.lines reference ++ Diff.lines produced, 0x0A ∉ line :=
      fun line hline => (List.mem_append.mp hline).elim ((splitWhere_spec 0x0A reference).2 line)
        ((splitWhere_spec 0x0A produced).2 line)
    have hpatch := unified_isPatch (fun heq => hne (lines_injective heq).symm) hfree
    refine ⟨hpatch, fun hreference hproduced => ?_⟩
    rwa [map_mended fun line => isSome_decode?_of_mem_lines hreference,
      map_mended fun line => isSome_decode?_of_mem_lines hproduced] at hpatch

/-- A line with an accent behind a common one: the difference between the two lists of lines, and
the one that the exact comparison of the data shows. -/
theorem accented_line_is_patch :
    IsPatch (Diff.unified [utf8 "x"] [utf8 "x", utf8 "é"]) [utf8 "x"] [utf8 "x", utf8 "é"] ∧
      ∃ diff, Checker.compare .zero (utf8 "x\né") (utf8 "x") .exact
          = .error { message := "lines differ", diff := some diff } ∧
        IsPatch diff (Diff.lines (utf8 "x")) (Diff.lines (utf8 "x\né")) := by
  have hvalid : ∀ s : String, (Utf8.decode? (utf8 s)).isSome := fun s => by
    rw [Utf8.decode?_utf8]
    rfl
  have hlines : ∀ line ∈ [utf8 "x"] ++ [utf8 "x", utf8 "é"],
      0x0A ∉ line ∧ (Utf8.decode? line).isSome := by
    simp only [List.cons_append, List.nil_append, List.forall_mem_cons, hvalid]
    decide
  refine ⟨(difference_is_patch.1 _ _ hlines).2 (by decide), ?_⟩
  obtain ⟨diff, herror, -, hpatch⟩ :=
    (difference_is_patch.2 .zero (utf8 "x\né") (utf8 "x")).2 (by decide)
  exact ⟨diff, herror, hpatch (hvalid _) (hvalid _)⟩

end Judge.Patch
