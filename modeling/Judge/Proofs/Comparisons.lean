import Judge.Proofs.MaximalRuns
import Judge.Proofs.Patches

/-!
# Proofs/Comparisons — what the built-in comparisons accept

Lines in any order: two texts are accepted for one another if and only if their lines are the same
up to order, each as often (`Checker.sortedLines_accepts_permutations`).  Sorting by the order of
byte strings gives every list a form that only its permutations share (`mergeSort_eq_iff_perm`).

Numbers between blanks: a sequence is accepted if and only if each of its numbers would be accepted
by itself, and what is reported otherwise is the first one that would not
(`Checker.doubleSeq_elementwise`).  One step of the loop is `Checker.compareNumbers_cons`.

What is compared is said apart from the functions that compute it: `TrimmedLines` for the lines and
`MaximalRuns` for the numbers.
-/

namespace Judge

/-! ## The order of byte strings -/

theorem Bytes.le_iff (xs ys : Bytes) : Bytes.le xs ys = true ↔ xs ≤ ys := by
  induction xs generalizing ys with
  | nil => simp [Bytes.le]
  | cons x xs ih =>
    cases ys with
    | nil => simp [Bytes.le]
    | cons y ys =>
      rw [Bytes.le, List.cons_le_cons_iff]
      split_ifs with hlt hgt
      · exact iff_of_true rfl (.inl hlt)
      · refine iff_of_false not_false ?_
        rintro (h | ⟨rfl, -⟩)
        · exact hlt h
        · exact hlt hgt
      · obtain rfl : x = y := UInt8.le_antisymm (UInt8.not_lt.mp hgt) (UInt8.not_lt.mp hlt)
        simp [ih, hlt]

theorem pairwise_mergeSort (xs : List Bytes) : (xs.mergeSort Bytes.le).Pairwise (· ≤ ·) := by
  have htrans : ∀ a b c : Bytes, Bytes.le a b = true → Bytes.le b c = true →
      Bytes.le a c = true := by
    intro a b c
    simp only [Bytes.le_iff]
    exact List.le_trans
  have htotal : ∀ a b : Bytes, (Bytes.le a b || Bytes.le b a) = true := by
    intro a b
    simp only [Bool.or_eq_true, Bytes.le_iff]
    exact List.le_total a b
  exact (List.pairwise_mergeSort htrans htotal xs).imp fun {a b} => (Bytes.le_iff a b).mp

/-- **Sorting forgets the order and nothing else.** -/
theorem mergeSort_eq_iff_perm {xs ys : List Bytes} :
    xs.mergeSort Bytes.le = ys.mergeSort Bytes.le ↔ xs.Perm ys := by
  have hperm := fun zs : List Bytes => List.mergeSort_perm zs Bytes.le
  constructor
  · intro heq
    exact ((hperm xs).symm.trans (.of_eq heq)).trans (hperm ys)
  · intro h
    have hsorted := (hperm xs).trans (h.trans (hperm ys).symm)
    exact hsorted.eq_of_pairwise (fun a b _ _ => List.le_antisymm) (pairwise_mergeSort xs)
      (pairwise_mergeSort ys)

/-! ## The lines of a text -/

variable {data produced reference : Bytes} {lines : List Bytes}

/-- **The lines of raw data**: with line feeds between them they are the data, and none of them has
a line feed. -/
structure IsLines (data : Bytes) (lines : List Bytes) : Prop where
  ne_nil : lines ≠ []
  joined : [0x0A].intercalate lines = data
  whole : ∀ line ∈ lines, 0x0A ∉ line

theorem isLines_iff : IsLines data lines ↔ lines = Diff.lines data := by
  constructor
  · rintro ⟨hne, rfl, hwhole⟩
    exact (splitWhere_intercalate hne hwhole).symm
  · rintro rfl
    have hspec := splitWhere_spec 0x0A data
    exact ⟨splitWhere_ne_nil _ data, hspec.1, hspec.2⟩

/-- **The lines of the data without the blanks around it.** -/
def TrimmedLines (data : Bytes) (lines : List Bytes) : Prop :=
  ∃ text, TrimsTo isBlankByte data text ∧ IsLines text lines

theorem trimmedLines_iff :
    TrimmedLines data lines ↔ lines = Diff.lines (trimWhere isBlankByte data) := by
  simp only [TrimmedLines, trimsTo_iff, isLines_iff, exists_eq_left]

namespace Checker

variable {eps : Binary64}

theorem compareLines_eq_ok {expected actual : List Bytes} :
    compareLines expected actual = .ok () ↔ expected = actual := by
  unfold compareLines
  split <;> simp_all

theorem compareWords_eq_ok {xs ys : List (List Char)} : compareWords xs ys = .ok () ↔ xs = ys := by
  unfold compareWords
  split <;> simp_all

theorem exists_diff_of_ne {expected actual : List Bytes} (hne : expected ≠ actual) :
    ∃ diff, compareLines expected actual = .error { message := "lines differ", diff := some diff } ∧
      diff ≠ "" := by
  refine ⟨Diff.unified expected actual, ?_, mt (Patch.unified_eq_empty_iff expected actual).mp hne⟩
  rw [compareLines, if_neg hne]

/-- **Lines in any order.**  A text is accepted if and only if its lines are those of the reference
up to order, each as often; if they are not, a difference is shown. -/
theorem sortedLines_accepts_permutations (eps : Binary64) (produced reference : Bytes) :
    ∃ ps rs : List Bytes, (∀ lines, TrimmedLines produced lines ↔ lines = ps) ∧
      (∀ lines, TrimmedLines reference lines ↔ lines = rs) ∧
      (compare eps produced reference .sortedLines = .ok () ↔ ps.Perm rs) ∧
      (¬ ps.Perm rs → ∃ diff, compare eps produced reference .sortedLines
        = .error { message := "lines differ", diff := some diff } ∧ diff ≠ "") := by
  have hiff : sortLines reference = sortLines produced ↔
      (Diff.lines (trimWhere isBlankByte produced)).Perm
        (Diff.lines (trimWhere isBlankByte reference)) :=
    mergeSort_eq_iff_perm.trans List.perm_comm
  refine ⟨_, _, fun _ => trimmedLines_iff, fun _ => trimmedLines_iff,
    compareLines_eq_ok.trans hiff, fun hperm => ?_⟩
  exact exists_diff_of_ne (mt hiff.mp hperm)

/-! ## Numbers, one after the other -/

/-- **What is said of the pair at `index` that does not agree**: the produced number cannot be read,
or else the other one cannot, or they are too far apart. -/
inductive Fails (eps : Binary64) (index : Nat) (produced reference : Bytes) : Mismatch → Prop
  | unread {e : Mismatch} : readAnswer produced = .error e → Fails eps index produced reference e
  | unreadReference {x : Binary64} {e : Mismatch} :
      readAnswer produced = .ok x → readAnswer reference = .error e →
      Fails eps index produced reference e
  | apart {x y : Binary64} :
      readAnswer produced = .ok x → readAnswer reference = .ok y → agree eps x y = false →
      Fails eps index produced reference {
        message := "Element #" ++ toString (index + 1) ++ " mismatch: " ++ x.shown ++ " != " ++
          y.shown ++ ", EPS=" ++ eps.shown }

/-- **One step of the loop**: a pair that is accepted by itself is passed, and any other one ends
it. -/
theorem compareNumbers_cons (index : Nat) (more : List (Bytes × Bytes)) :
    (compare eps produced reference .double = .ok () ∧
      compareNumbers eps index ((produced, reference) :: more) =
        compareNumbers eps (index + 1) more) ∨
    (compare eps produced reference .double ≠ .ok () ∧ ∃ e, Fails eps index produced reference e ∧
      compareNumbers eps index ((produced, reference) :: more) = .error e) := by
  rw [compare, compareNumbers]
  cases hx : readAnswer produced with
  | error e => exact .inr ⟨by simp [bind, Except.bind], e, .unread hx, rfl⟩
  | ok x =>
    cases hy : readAnswer reference with
    | error e => exact .inr ⟨by simp [bind, Except.bind], e, .unreadReference hx hy, rfl⟩
    | ok y =>
      cases hagree : agree eps x y with
      | true => exact .inl (by simp [bind, Except.bind, hagree])
      | false => exact .inr ⟨by simp [bind, Except.bind, hagree], _, .apart hx hy hagree,
          by simp [bind, Except.bind, hagree]⟩

/-- **The whole loop**: it passes if every pair does, and otherwise ends at the first that does
not. -/
theorem compareNumbers_spec (index : Nat) (pairs : List (Bytes × Bytes)) :
    (compareNumbers eps index pairs = .ok () ∧
      ∀ pair ∈ pairs, compare eps pair.1 pair.2 .double = .ok ()) ∨
    ∃ (i : Nat) (pair : Bytes × Bytes) (e : Mismatch), pairs[i]? = some pair ∧
      (∀ earlier ∈ pairs.take i, compare eps earlier.1 earlier.2 .double = .ok ()) ∧
      compare eps pair.1 pair.2 .double ≠ .ok () ∧ Fails eps (index + i) pair.1 pair.2 e ∧
      compareNumbers eps index pairs = .error e := by
  induction pairs generalizing index with
  | nil => exact .inl ⟨rfl, fun pair hpair => absurd hpair List.not_mem_nil⟩
  | cons pair more ih =>
    rcases compareNumbers_cons index more with ⟨hpass, heq⟩ | ⟨hstop, e, hfails, heq⟩
    · rw [heq]
      rcases ih (index + 1) with ⟨hok, hall⟩ | ⟨i, later, e, hlater, hall, hstop, hfails, he⟩
      · exact .inl ⟨hok, List.forall_mem_cons.mpr ⟨hpass, hall⟩⟩
      · refine .inr ⟨i + 1, later, e, hlater, ?_, hstop, ?_, he⟩
        · rw [List.take_succ_cons]
          exact List.forall_mem_cons.mpr ⟨hpass, hall⟩
        · rwa [Nat.add_comm i, ← Nat.add_assoc]
    · exact .inr ⟨0, pair, e, rfl, fun earlier h => absurd h List.not_mem_nil, hstop, hfails, heq⟩

/-- **A sequence of numbers is compared number by number.**  It is accepted if and only if there are
as many as in the reference and each is accepted by itself.  A different number of them is reported
whatever they are; otherwise the first pair that is not accepted is. -/
theorem doubleSeq_elementwise (eps : Binary64) (produced reference : Bytes) :
    ∃ ps rs : List Bytes,
      (∀ tokens, MaximalRuns (OneOf isBlankByte) produced tokens ↔ tokens = ps) ∧
      (∀ tokens, MaximalRuns (OneOf isBlankByte) reference tokens ↔ tokens = rs) ∧
      (compare eps produced reference .doubleSeq = .ok () ↔ ps.length = rs.length ∧
        ∀ (i : Nat) (p r : Bytes), ps[i]? = some p → rs[i]? = some r →
          compare eps p r .double = .ok ()) ∧
      (ps.length ≠ rs.length → compare eps produced reference .doubleSeq = .error {
        message := "Sequence length mismatch: " ++ toString ps.length ++ " vs " ++
          toString rs.length }) ∧
      (ps.length = rs.length → compare eps produced reference .doubleSeq ≠ .ok () →
        ∃ (i : Nat) (p r : Bytes) (e : Mismatch), ps[i]? = some p ∧ rs[i]? = some r ∧
          (∀ j < i, ∀ p' r', ps[j]? = some p' → rs[j]? = some r' →
            compare eps p' r' .double = .ok ()) ∧
          compare eps p r .double ≠ .ok () ∧ Fails eps i p r e ∧
          compare eps produced reference .doubleSeq = .error e) := by
  refine ⟨runsWhere isBlankByte produced, runsWhere isBlankByte reference,
    fun _ => maximalRuns_oneOf_iff, fun _ => maximalRuns_oneOf_iff, ?_⟩
  rw [compare]
  generalize runsWhere isBlankByte produced = ps
  generalize runsWhere isBlankByte reference = rs
  by_cases hlength : ps.length = rs.length
  · have hpair : ∀ {i : Nat} {p r : Bytes}, (ps.zip rs)[i]? = some (p, r) ↔
        ps[i]? = some p ∧ rs[i]? = some r := List.getElem?_zip_eq_some
    simp only [hlength, ne_eq, not_true_eq_false, if_false, true_and, forall_const]
    rcases compareNumbers_spec 0 (ps.zip rs) with
      ⟨hok, hall⟩ | ⟨i, ⟨p, r⟩, e, hfirst, hall, hstop, hfails, he⟩
    · refine ⟨iff_of_true hok fun i p r hp hr => ?_, False.elim, fun hne => absurd hok hne⟩
      exact hall (p, r) (List.mem_of_getElem? (hpair.mpr ⟨hp, hr⟩))
    · obtain ⟨hp, hr⟩ := hpair.mp hfirst
      rw [he]
      have herror : (.error e : Except Mismatch Unit) ≠ .ok () := by simp
      refine ⟨iff_of_false herror fun hpass => hstop (hpass i p r hp hr), False.elim, fun _ => ?_⟩
      refine ⟨i, p, r, e, hp, hr, fun j hj p' r' hp' hr' => ?_, hstop, ?_, rfl⟩
      · have hearlier : ((ps.zip rs).take i)[j]? = some (p', r') := by
          rw [List.getElem?_take_of_lt hj]
          exact hpair.mpr ⟨hp', hr'⟩
        exact hall (p', r') (List.mem_of_getElem? hearlier)
      · rwa [Nat.zero_add] at hfails
  · simp [hlength]

end Checker

end Judge
