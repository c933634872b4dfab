import Judge.Proofs.Traces
import Judge.Suite.Runner

/-!
# Proofs/Attempts — the loop over the attempts of a test

    attempt, line, attempt, line, …, attempt, line ++ closing

An outcome of an attempt settles a test unless it is an error that is worth another attempt.
`Runner.tryFrom_iff` describes the loop completely: its traces are the lists of attempts that end
where one settles the test or where no attempt is left (`Enough`), each with its line, and the
result is made of the last outcome alone (`Concludes`).

`Runner.runTest_ends` says how a test comes to its last attempt.
-/

namespace Judge.Runner

open Program (Makes makes_bind makes_pure)

variable {s : Setup} {m : Metadata} {case : TestCase} {kept : Option Seal}
variable {T : List Event} {result : Result}

/-! ## Outcomes -/

/-- **An outcome that settles a test**: a success, or an error that is not worth another attempt. -/
def settles : Except JudgeError Attempt → Bool
  | .ok _ => true
  | .error e => !e.retryable

/-- What is worth another attempt is no matter of integrity. -/
theorem again_eq (left : Nat) (e : JudgeError) :
    (decide (0 < left) && e.retryable && !e.integrity) = (decide (0 < left) && e.retryable) := by
  cases e <;> simp [JudgeError.retryable, JudgeError.integrity]

/-! ## Attempts that were made -/

/-- **An attempt that was made**, and what was printed about it. -/
structure Try (s : Setup) (m : Metadata) (case : TestCase) (kept : Option Seal) where
  own : List Event
  outcome : Except JudgeError Attempt
  makes : Makes (attempt s m case kept).run own outcome
  line : List Event

def Try.trace (t : Try s m case kept) : List Event := t.own ++ t.line

/-- A failed attempt is told of, with its index and whether there is another one. -/
def Told (index : Nat) (again : Bool) (line : List Event) : Except JudgeError Attempt → Prop
  | .ok _ => line = []
  | .error e => Makes (Program.printLine (attemptMessage index e again)) line ()

/-- **The result of a test that took `k` attempts**, from the outcome of the last one, with what is
done after it.  An error is the error of the test; a success is the success of the test, unless its
output is to become the reference and cannot be written. -/
inductive Concludes (s : Setup) (case : TestCase) (k : Nat) :
    Except JudgeError Attempt → List Event → Result → Prop
  | failed (e : JudgeError) :
    Concludes s case k (.error e) []
      { report := { name := case.name, attempts := k, status := .failed
                    cpuSeconds := Binary64.zero, error := some e.text }
        error := some e }
  | accepted (a : Attempt) (hprepare : s.options.prepareAnswers = false) :
    Concludes s case k (.ok a) []
      { report := { name := case.name, attempts := k
                    status := if a.outcome.skipped then .skipped else .passed
                    cpuSeconds := a.time.seconds } }
  | recorded (a : Attempt) (hprepare : s.options.prepareAnswers = true) :
    Concludes s case k (.ok a) [⟨.file (.write case.reference a.outcome.output), .ok ()⟩]
      { report := { name := case.name, attempts := k
                    status := if a.outcome.skipped then .skipped else .passed
                    cpuSeconds := a.time.seconds } }
  | unrecorded (a : Attempt) (e : OsError) (hprepare : s.options.prepareAnswers = true) :
    Concludes s case k (.ok a) [⟨.file (.write case.reference a.outcome.output), .error e⟩]
      { report := { name := case.name, attempts := k, status := .failed
                    cpuSeconds := a.time.seconds, error := some (JudgeError.io (.os e)).text }
        error := some (.io (.os e)) }

/-- **A success is concluded** as it should be. -/
theorem accept_iff {k : Nat} {a : Attempt} :
    Makes (accept s case k a) T result ↔ Concludes s case k (.ok a) T result := by
  unfold accept
  dsimp only
  constructor
  · intro hm
    split at hm
    · rename_i hprepare
      obtain ⟨T₁, reply, T₂, rfl, hstore, hrest⟩ := makes_bind hm
      obtain rfl := Program.makes_perform hstore
      cases reply with
      | ok u =>
        obtain ⟨rfl, rfl⟩ := makes_pure hrest
        exact .recorded a hprepare
      | error e =>
        obtain ⟨rfl, rfl⟩ := makes_pure hrest
        exact .unrecorded a e hprepare
    · rename_i hprepare
      obtain ⟨rfl, rfl⟩ := makes_pure hm
      exact .accepted a (Bool.eq_false_iff.mpr hprepare)
  · intro h
    cases h with
    | accepted _ hprepare =>
      rw [if_neg (Bool.eq_false_iff.mp hprepare)]
      exact .done
    | recorded _ hprepare =>
      rw [if_pos hprepare]
      exact .call (c := .file (.write ..)) (.ok ()) .done
    | unrecorded _ e hprepare =>
      rw [if_pos hprepare]
      exact .call (c := .file (.write ..)) (.error e) .done

/-! ## Lists of attempts -/

variable {t : Try s m case kept} {tries : List (Try s m case kept)} {index left r : Nat}

/-- **As many attempts as are needed** of `r`: the last one is the only one that settles the test or
is the last allowed. -/
def Enough (r : Nat) (tries : List (Try s m case kept)) : Prop :=
  ∀ i t, tries[i]? = some t → (i + 1 = tries.length ↔ settles t.outcome = true ∨ i + 1 = r)

/-- **A test is tried** after `index` attempts: one attempt after the other is made and told of, and
nothing else is done but to conclude the last one. -/
structure Tried (index : Nat) (tries : List (Try s m case kept)) (T : List Event)
    (result : Result) : Prop where
  told : ∀ i t, tries[i]? = some t →
    Told (index + i) (decide (i + 1 < tries.length)) t.line t.outcome
  concluded : ∃ last closing, tries.getLast? = some last ∧
    T = tries.flatMap Try.trace ++ closing ∧
    Concludes s case (index + tries.length) last.outcome closing result

theorem Tried.ne_nil (h : Tried index tries T result) : tries ≠ [] := by
  obtain ⟨last, closing, hlast, -⟩ := h.concluded
  exact List.ne_nil_of_mem (List.mem_of_getLast? hlast)

theorem enough_singleton : Enough (left + 1) [t] ↔ settles t.outcome = true ∨ left = 0 := by
  constructor
  · intro h
    simpa using h 0 t rfl
  · intro h i t' ht'
    obtain ⟨rfl, rfl⟩ : i = 0 ∧ t = t' := by simpa [List.getElem?_singleton] using ht'
    simpa using h

theorem enough_cons (hne : tries ≠ []) :
    Enough (left + 1) (t :: tries) ↔
      (settles t.outcome = false ∧ left ≠ 0) ∧ Enough left tries := by
  have hpos : 0 < tries.length := List.length_pos_iff.mpr hne
  constructor
  · intro h
    have hfirst := h 0 t rfl
    refine ⟨by simpa [hne] using hfirst, fun i t' ht' => ?_⟩
    simpa using h (i + 1) t' ht'
  · rintro ⟨⟨hfirst, hleft⟩, hrest⟩ i t' ht'
    cases i with
    | zero =>
      obtain rfl : t = t' := by simpa using ht'
      simpa [hfirst, hne] using hleft
    | succ i => simpa using hrest i t' (by simpa using ht')

theorem tried_singleton :
    Tried index [t] T result ↔ Told index false t.line t.outcome ∧
      ∃ closing, T = t.trace ++ closing ∧
        Concludes s case (index + 1) t.outcome closing result := by
  constructor
  · rintro ⟨htold, last, closing, hlast, rfl, hconcludes⟩
    obtain rfl : t = last := by simpa using hlast
    exact ⟨by simpa using htold 0 t rfl, closing, by simp, hconcludes⟩
  · rintro ⟨htold, closing, rfl, hconcludes⟩
    refine ⟨fun i t' ht' => ?_, t, closing, rfl, by simp, hconcludes⟩
    obtain ⟨rfl, rfl⟩ : i = 0 ∧ t = t' := by simpa [List.getElem?_singleton] using ht'
    simpa using htold

theorem tried_cons (hne : tries ≠ []) :
    Tried index (t :: tries) T result ↔ Told index true t.line t.outcome ∧
      ∃ T', T = t.trace ++ T' ∧ Tried (index + 1) tries T' result := by
  have hpos : 0 < tries.length := List.length_pos_iff.mpr hne
  have hcount : index + (t :: tries).length = index + 1 + tries.length := by
    rw [List.length_cons]
    omega
  have hindex (i : Nat) : index + 1 + i = index + (i + 1) := by omega
  have hagain (i : Nat) :
      decide (i + 1 + 1 < (t :: tries).length) = decide (i + 1 < tries.length) := by
    simp
  constructor
  · rintro ⟨htold, last, closing, hlast, rfl, hconcludes⟩
    refine ⟨by simpa [hpos] using htold 0 t rfl, tries.flatMap Try.trace ++ closing, by simp, ?_⟩
    rw [List.getLast?_cons_of_ne_nil hne] at hlast
    rw [hcount] at hconcludes
    refine ⟨fun i t' ht' => ?_, last, closing, hlast, rfl, hconcludes⟩
    have hnext := htold (i + 1) t' ht'
    rwa [← hindex i, hagain i] at hnext
  · rintro ⟨hfirst, T', rfl, htold, last, closing, hlast, rfl, hconcludes⟩
    rw [← hcount] at hconcludes
    refine ⟨fun i t' ht' => ?_, last, closing, ?_, by simp, hconcludes⟩
    · cases i with
      | zero =>
        obtain rfl : t = t' := by simpa using ht'
        simpa [hpos] using hfirst
      | succ i =>
        rw [← hindex i, hagain i]
        exact htold i t' (by simpa using ht')
    · rw [List.getLast?_cons_of_ne_nil hne, hlast]

/-! ## The loop -/

/-- **One turn of the loop.**  An attempt is made and told of; then the loop goes on if another
attempt is left and worth it, and concludes this one otherwise. -/
theorem tryFrom_succ_iff :
    Makes (tryFrom s m case kept index (left + 1)) T result ↔
      ∃ (t : Try s m case kept) (T' : List Event), T = t.trace ++ T' ∧
        Told index (decide (0 < left) && !settles t.outcome) t.line t.outcome ∧
        if 0 < left ∧ settles t.outcome = false then
          Makes (tryFrom s m case kept (index + 1) left) T' result
        else Concludes s case (index + 1) t.outcome T' result := by
  constructor
  · intro hm
    obtain ⟨own, outcome, rest, rfl, hattempt, hrest⟩ := makes_bind hm
    cases outcome with
    | ok a =>
      refine ⟨⟨own, .ok a, hattempt, []⟩, rest, by simp [Try.trace], rfl, ?_⟩
      rw [if_neg (by simp [settles])]
      exact accept_iff.mp hrest
    | error e =>
      obtain ⟨line, ⟨⟩, T', rfl, htold, hnext⟩ := makes_bind hrest
      rw [again_eq] at htold
      refine ⟨⟨own, .error e, hattempt, line⟩, T', by simp [Try.trace], ?_, ?_⟩
      · simpa [Told, settles] using htold
      · simp only [again_eq, Bool.and_eq_true, decide_eq_true_eq] at hnext
        simp only [settles, Bool.not_eq_false']
        split at hnext
        · rwa [if_pos (by assumption)]
        · rw [if_neg (by assumption)]
          obtain ⟨rfl, rfl⟩ := makes_pure hnext
          exact .failed e
  · rintro ⟨⟨own, outcome, hattempt, line⟩, T', rfl, htold, hnext⟩
    rw [Try.trace, List.append_assoc]
    refine hattempt.bind ?_
    cases outcome with
    | ok a =>
      rw [if_neg (by simp [settles])] at hnext
      obtain rfl := htold
      exact accept_iff.mpr hnext
    | error e =>
      refine Program.Makes.bind (a := ()) ?_ ?_
      · rw [again_eq]
        simpa [Told, settles] using htold
      · simp only [settles, Bool.not_eq_false'] at hnext
        simp only [again_eq, Bool.and_eq_true, decide_eq_true_eq]
        split at hnext
        · rwa [if_pos (by assumption)]
        · rw [if_neg (by assumption)]
          cases hnext
          exact .done

/-- **The traces of the loop are the lists of attempts that are enough.** -/
theorem tryFrom_iff (hleft : 0 < left) :
    Makes (tryFrom s m case kept index left) T result ↔
      ∃ tries : List (Try s m case kept), Enough left tries ∧ Tried index tries T result := by
  induction left generalizing index T with
  | zero => exact absurd hleft (Nat.lt_irrefl 0)
  | succ left ih =>
    rw [tryFrom_succ_iff]
    constructor
    · rintro ⟨t, T', rfl, htold, hnext⟩
      split at hnext
      · rename_i hagain
        obtain ⟨tries, henough, htried⟩ := (ih hagain.1).mp hnext
        have hne := htried.ne_nil
        refine ⟨t :: tries,
          (enough_cons hne).mpr ⟨⟨hagain.2, Nat.pos_iff_ne_zero.mp hagain.1⟩, henough⟩, ?_⟩
        rw [tried_cons hne]
        exact ⟨by simpa [hagain] using htold, T', rfl, htried⟩
      · rename_i hend
        have hfalse : (decide (0 < left) && !settles t.outcome) = false := by
          simpa using hend
        refine ⟨[t], enough_singleton.mpr ?_, tried_singleton.mpr ⟨hfalse ▸ htold, T', rfl, hnext⟩⟩
        grind
    · rintro ⟨tries, henough, htried⟩
      cases tries with
      | nil => exact absurd rfl htried.ne_nil
      | cons t tries =>
        by_cases hne : tries = []
        · subst hne
          rw [enough_singleton] at henough
          obtain ⟨htold, closing, rfl, hconcludes⟩ := tried_singleton.mp htried
          refine ⟨t, closing, rfl, ?_, ?_⟩
          · have hfalse : (decide (0 < left) && !settles t.outcome) = false := by grind
            rwa [hfalse]
          · rw [if_neg (by grind)]
            exact hconcludes
        · obtain ⟨⟨hunsettled, hleft⟩, henough⟩ := (enough_cons hne).mp henough
          obtain ⟨htold, T', rfl, hrest⟩ := (tried_cons hne).mp htried
          have hpos : 0 < left := Nat.pos_of_ne_zero hleft
          refine ⟨t, T', rfl, by simpa [hpos, hunsettled] using htold, ?_⟩
          rw [if_pos ⟨hpos, hunsettled⟩]
          exact (ih hpos).mpr ⟨tries, henough, hrest⟩

/-! ## The end of a test -/

/-- **How a test ends**: its record cannot be loaded, or its last attempt is concluded. -/
theorem runTest_ends (hm : Makes (runTest s case kept) T result) :
    (∃ e, result = failedResult case.name 0 e Binary64.zero) ∨
    ∃ (m : Metadata) (loading lead : List Event) (last : Try s m case kept) (closing : List Event)
      (k : Nat), T = loading ++ lead ++ last.trace ++ closing ∧
      Act.Yields (loadMetadata case.info) loading m ∧ Told k false last.line last.outcome ∧
      Concludes s case (k + 1) last.outcome closing result := by
  obtain ⟨loading, loaded, rest, rfl, hload, hrest⟩ := makes_bind hm
  cases loaded with
  | error e => exact .inl ⟨e, (makes_pure hrest).2⟩
  | ok m =>
    have hpos : 0 < max s.options.retries 1 := by omega
    obtain ⟨tries, -, htried⟩ := (tryFrom_iff hpos).mp hrest
    obtain ⟨last, closing, hlast, rfl, hconcludes⟩ := htried.concluded
    obtain ⟨earlier, rfl⟩ := List.getLast?_eq_some_iff.mp hlast
    have htold := htried.told earlier.length last List.getElem?_concat_length
    refine .inr ⟨m, loading, earlier.flatMap Try.trace, last, closing, earlier.length, ?_, hload,
      ?_, ?_⟩
    · simp
    · simpa using htold
    · simpa using hconcludes

end Judge.Runner
