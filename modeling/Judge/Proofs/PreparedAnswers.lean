import Judge.Proofs.Comparisons
import Judge.Proofs.Replacing
import Judge.Proofs.Tampering

/-!
# Proofs/PreparedAnswers — is an answer accepted that was recorded before?

While answers are prepared, the output of the candidate is written to the reference as it is; when
it is compared later, the placeholder of the problem directory in the reference is expanded first.
The two are inverse to each other exactly for the outputs in which the placeholder does not occur
(`Checker.compare_expanded_iff`).

That an expansion is noticed by every comparison of text comes from counting slashes.  The
placeholder has none and the directory at least one, so there are more of them after an expansion
(`Checker.count_expandReference`); and an answer that is accepted has as many slashes as the
reference, for lines in order, for lines in any order and for words (`Checker.count_of_accepted`).
-/

namespace Judge

open List

/-! ## Cuts -/

section Cuts

variable {α : Type} [BEq α] [LawfulBEq α] {p : α → Bool} {a : α}

/-- The pieces have all that is no separator. -/
theorem count_splitWhere (ha : p a = false) (xs : List α) :
    (splitWhere p xs).flatten.count a = xs.count a := by
  induction xs with
  | nil => rfl
  | cons x xs ih =>
    by_cases hx : p x = true
    · have hne : x ≠ a := ne_of_apply_ne p (by simp [hx, ha])
      rw [splitWhere_cons hx, flatten_cons, nil_append, ih, count_cons_of_ne hne]
    · obtain ⟨piece, more, hpieces⟩ := exists_cons_of_ne_nil (splitWhere_ne_nil p xs)
      have hfree : ∀ y ∈ [x], p y = false := by simpa using hx
      have hcut : splitWhere p (x :: xs) = (x :: piece) :: more := splitWhere_append hfree hpieces
      rw [hpieces] at ih
      rw [hcut, flatten_cons, cons_append, count_cons, ← flatten_cons, ih,
        count_cons]

theorem count_dropWhile (ha : p a = false) (xs : List α) :
    (xs.dropWhile p).count a = xs.count a := by
  induction xs with
  | nil => rfl
  | cons x xs ih =>
    by_cases hx : p x = true
    · have hne : x ≠ a := ne_of_apply_ne p (by simp [hx, ha])
      rw [dropWhile_cons_of_pos hx, ih, count_cons_of_ne hne]
    · rw [dropWhile_cons_of_neg hx]

theorem count_trimWhere (ha : p a = false) (xs : List α) :
    (trimWhere p xs).count a = xs.count a := by
  rw [trimWhere, trimRightWhere, count_reverse, count_dropWhile ha, count_reverse,
    count_dropWhile ha]

theorem count_runsWhere (ha : p a = false) (xs : List α) :
    (runsWhere p xs).flatten.count a = xs.count a := by
  rw [runsWhere, flatten_filter_not_isEmpty, count_splitWhere ha]

end Cuts

/-! ## Comparisons -/

namespace Checker

variable {eps : Binary64} {produced reference out : Bytes} {problemDir : Path} {c : Checker}

def ofText : List Checker := [.exact, .sortedLines, .ignoreSpaces]

theorem count_sortLines (data : Bytes) :
    (sortLines data).flatten.count Path.slash = data.count Path.slash := by
  have hperm := mergeSort_perm (Diff.lines (trimWhere isBlankByte data)) Bytes.le
  rw [sortLines, hperm.flatten.count_eq, Diff.lines, count_splitWhere (by decide),
    count_trimWhere (by decide)]

theorem count_words (data : Bytes) :
    (words (Utf8.decodeLossy data)).flatten.count '/' = data.count Path.slash := by
  rw [words, count_runsWhere (by decide), Utf8.count_decodeLossy (by decide)]
  rfl

/-- **What is accepted has as many slashes as the reference.** -/
theorem count_of_accepted (hc : c ∈ ofText) (h : c.compare eps produced reference = .ok ()) :
    produced.count Path.slash = reference.count Path.slash := by
  simp only [ofText, mem_cons, not_mem_nil, or_false] at hc
  rcases hc with rfl | rfl | rfl
  · rw [Patch.lines_injective (compareLines_eq_ok.mp h)]
  · rw [← count_sortLines produced, ← count_sortLines reference, compareLines_eq_ok.mp h]
  · rw [← count_words produced, ← count_words reference, compareWords_eq_ok.mp h]

/-- Everything is accepted as an answer to itself. -/
theorem compare_self (hc : c ∈ ofText) : c.compare eps out out = .ok () := by
  simp only [ofText, mem_cons, not_mem_nil, or_false] at hc
  rcases hc with rfl | rfl | rfl
  · exact compareLines_eq_ok.mpr rfl
  · exact compareLines_eq_ok.mpr rfl
  · exact compareWords_eq_ok.mpr rfl

/-! ## The placeholder -/

theorem expandReference_eq_self (h : ¬ utf8 problemDirPlaceholder <:+: out) :
    expandReference problemDir out = out := by
  have hne : (utf8 problemDirPlaceholder).isEmpty = false := by decide
  rw [expandReference, replaceAll, hne, if_neg Bool.false_ne_true, replaceFrom_eq_self h]

/-- **There are more slashes after an expansion.** -/
theorem count_expandReference (habsolute : problemDir.isAbsolute = true)
    (h : utf8 problemDirPlaceholder <:+: out) :
    out.count Path.slash < (expandReference problemDir out).count Path.slash := by
  have hne : (utf8 problemDirPlaceholder).isEmpty = false := by decide
  have hslash : Path.slash ∈ problemDir.text :=
    mem_of_head? (beq_iff_eq.mp habsolute)
  rw [expandReference, replaceAll, hne, if_neg Bool.false_ne_true]
  exact count_lt_replaceFrom (by decide) (by decide) hslash h

/-- **An answer is accepted as it was recorded** if and only if the placeholder does not occur in
it. -/
theorem compare_expanded_iff (hc : c ∈ ofText) (habsolute : problemDir.isAbsolute = true) :
    c.compare eps out (expandReference problemDir out) = .ok () ↔
      ¬ utf8 problemDirPlaceholder <:+: out := by
  constructor
  · intro haccepted hoccurs
    have hmore := count_expandReference habsolute hoccurs
    rw [count_of_accepted hc haccepted] at hmore
    exact absurd hmore (Nat.lt_irrefl _)
  · intro hfree
    rw [expandReference_eq_self hfree]
    exact compare_self hc

theorem loadReference_yields (p problemDir : Path) (raw : Bytes) :
    Act.Yields (loadReference p problemDir) [⟨.file (.read p), .ok raw⟩]
      (expandReference problemDir raw) :=
  .call (c := .file (.read p)) (.ok raw) .done

end Checker

/-! ## Recording -/

namespace Runner

variable {s : Setup} {case : TestCase} {kept : Option Seal} {T : List Event} {result : Result}

/-- **While answers are prepared, the last thing that is done for a test** that does not fail is to
write the output of its last attempt to the reference. -/
theorem runTest_records (hprepare : s.options.prepareAnswers = true)
    (hm : Program.Makes (runTest s case kept) T result) (hnone : result.error = none) :
    ∃ m a lead own,
      T = lead ++ own ++ [⟨.file (.write case.reference a.outcome.output), .ok ()⟩] ∧
      Act.Yields (attempt s m case kept) own a := by
  obtain ⟨e, rfl⟩ | ⟨m, loading, lead, ⟨own, outcome, hown, line⟩, closing, k, rfl, -, htold,
    hconcludes⟩ := runTest_ends hm
  · cases hnone
  cases hconcludes with
  | failed e | unrecorded a e => cases hnone
  | accepted a hfalse =>
    rw [hprepare] at hfalse
    cases hfalse
  | recorded a =>
    -- a success is not told of
    obtain rfl : line = [] := htold
    exact ⟨m, a, loading ++ lead, own, by simp [Try.trace], hown⟩

end Runner

/-- **A recorded answer is accepted afterwards if and only if the placeholder does not occur in
it**, by each checker of text and for every absolute problem directory.  While answers are prepared,
the output of a test that does not fail is what is written to its reference; and when that is read
again, the same output is compared with what the expansion makes of it. -/
theorem recorded_answer_accepted_iff {c : Checker} (hc : c ∈ Checker.ofText) (problemDir : Path)
    (habsolute : problemDir.isAbsolute = true) (eps : Binary64) :
    (∀ out : Bytes, c.compare eps out (Checker.expandReference problemDir out) = .ok () ↔
      ¬ utf8 problemDirPlaceholder <:+: out) ∧
    ∀ (s : Setup) (case : TestCase) (kept : Option Seal) (T : List Event) (result : Runner.Result),
      s.options.prepareAnswers = true → Program.Makes (Runner.runTest s case kept) T result →
      result.error = none →
      ∃ m a lead own,
        T = lead ++ own ++ [⟨.file (.write case.reference a.outcome.output), .ok ()⟩] ∧
        Act.Yields (Runner.attempt s m case kept) own a ∧
        ∃ reference,
          Act.Yields (Checker.loadReference case.reference problemDir)
            [⟨.file (.read case.reference), .ok a.outcome.output⟩] reference ∧
          (c.compare eps a.outcome.output reference = .ok () ↔
            ¬ utf8 problemDirPlaceholder <:+: a.outcome.output) := by
  have hiff (out : Bytes) : c.compare eps out (Checker.expandReference problemDir out) = .ok () ↔
      ¬ utf8 problemDirPlaceholder <:+: out :=
    Checker.compare_expanded_iff hc habsolute
  refine ⟨hiff, fun s case kept T result hprepare hm hnone => ?_⟩
  obtain ⟨m, a, lead, own, hT, hown⟩ := Runner.runTest_records hprepare hm hnone
  exact ⟨m, a, lead, own, hT, hown, _, Checker.loadReference_yields .., hiff _⟩

/-! A machine that keeps what is written to a reference, and a candidate that writes the same in
every run. -/

def preparing : Setup := { plainSetup with options := { prepareAnswers := true } }

/-- The machine.  Its state is what the reference holds; the candidate writes `output` and ends with
`code`. -/
def recorder (code : Nat) (output : String) : Program.Handler (Option Bytes)
  | .file (.write p data), stored =>
    some (.ok (), if p = Host.promptCase.reference then some data else stored)
  | c, stored =>
    (Host.promptAnswer ["001"] (fun _ p => if p = Host.promptCase.reference then stored else none)
      output code c 0).map fun r => (r.1, stored)

theorem run_recorder_preparing :
    ((Runner.runTest preparing Host.promptCase none).run (recorder 0 "0\n") none).map
      (fun r => (r.1.error, r.2)) = some (none, some (utf8 "0\n")) := by
  decide +kernel

/-- An answer without the placeholder is recorded, and accepted. -/
theorem plain_answer_is_accepted :
    Checker.compare .zero (utf8 "0\n")
        (Checker.expandReference (.ofString "/p") (utf8 "0\n")) .sortedLines = .ok () ∧
      ∃ T result, Program.Makes (Runner.runTest preparing Host.promptCase none) T result ∧
        ∃ m a lead own,
          T = lead ++ own ++
            [⟨.file (.write Host.promptCase.reference a.outcome.output), .ok ()⟩] ∧
          Act.Yields (Runner.attempt preparing m Host.promptCase none) own a := by
  obtain ⟨⟨result, stored⟩, hrun, hended⟩ := Option.map_eq_some_iff.mp run_recorder_preparing
  obtain ⟨hnone, -⟩ := Prod.mk.inj hended
  obtain ⟨T, hm⟩ := Program.exists_makes hrun
  obtain ⟨hiff, hrecorded⟩ := recorded_answer_accepted_iff (c := .sortedLines) (by decide)
    (.ofString "/p") (by decide) .zero
  obtain ⟨m, a, lead, own, hT, hown, -⟩ := hrecorded preparing Host.promptCase none T result rfl hm
    hnone
  exact ⟨(hiff _).mpr (by decide), T, result, hm, m, a, lead, own, hT, hown⟩

/-- An answer in which the placeholder occurs. -/
def hollow : String := problemDirPlaceholder ++ "\n"

/-- It is recorded as it is, and then the same output is not accepted. -/
theorem hollow_answer_is_rejected :
    ((Runner.runTest preparing Host.promptCase none).run (recorder 0 hollow) none).map
        (fun r => (r.1.error, r.2)) = some (none, some (utf8 hollow)) ∧
      ((Runner.runTest plainSetup Host.promptCase
        (some ⟨Host.promptCase.reference, Digest.ofBytes (utf8 hollow)⟩)).run (recorder 0 hollow)
        (some (utf8 hollow))).map (fun r => r.1.error) =
          some (some (.candidate
            "Output mismatched on test 001: lines differ. Check \"/p/run/output\" file")) := by
  constructor
  · decide +kernel
  · decide +kernel

end Judge
