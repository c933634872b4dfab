import Judge.Proofs.Hosts
import Judge.Proofs.SuiteSoundness
import Mathlib.Order.Bounds.Basic

/-!
# Proofs/Retries — how many attempts a test takes

    o 1, o 2, …, o k ──▸ the result of the test,
    k = the first that settles it, or the last that is allowed

The traces of the loop are the lists of attempts that are enough, and these are as many as the test
takes, for every course that the attempts could have (`Runner.runTest_attempts`).  The end of the
loop that no attempt leads to is not part of this: whatever stood there would do (`tryFromOr_eq`).
-/

namespace Judge.Runner

variable {s : Setup} {m : Metadata} {case : TestCase} {kept : Option Seal}
variable {T : List Event} {result : Result}
variable {tries : List (Try s m case kept)} {index left r : Nat}

/-! ## The number of attempts -/

/-- **A test takes `k` attempts** of `r`, if they come out as `o 1`, `o 2` and so on: the `k`-th is
the first that settles the test, or the last allowed. -/
def Takes (o : Nat → Except JudgeError Attempt) (r k : Nat) : Prop :=
  IsLeast {n | 0 < n ∧ (settles (o n) = true ∨ n = r)} k

/-- The attempts come out as `o` says. -/
def Gave (o : Nat → Except JudgeError Attempt) (tries : List (Try s m case kept)) : Prop :=
  ∀ i t, tries[i]? = some t → t.outcome = o (i + 1)

theorem Concludes.attempts_eq {k : Nat} {outcome : Except JudgeError Attempt}
    (h : Concludes s case k outcome T result) : result.report.attempts = k := by
  cases h <;> rfl

theorem Enough.length_le (henough : Enough r tries) (hr : 0 < r) : tries.length ≤ r := by
  refine Nat.le_of_not_lt fun hlt => ?_
  have hlast : r - 1 < tries.length := by omega
  have hiff := henough (r - 1) tries[r - 1] (List.getElem?_eq_getElem hlast)
  have hend : r - 1 + 1 = tries.length := hiff.mpr (.inr (by omega))
  omega

/-- **Enough attempts are as many as the test takes**, however the attempts that were not made would
have come out. -/
theorem Enough.takes {o : Nat → Except JudgeError Attempt} (henough : Enough r tries)
    (hne : tries ≠ []) (hgave : Gave o tries) : Takes o r tries.length := by
  have hpos : 0 < tries.length := List.length_pos_iff.mpr hne
  -- the outcome that `o` gives to an attempt that was made decides whether it was the last
  have hdecides (n : Nat) (hn : 0 < n) (hle : n ≤ tries.length) :
      n = tries.length ↔ settles (o n) = true ∨ n = r := by
    obtain ⟨i, rfl⟩ := Nat.exists_eq_add_of_lt hn
    have hi : 0 + i < tries.length := by omega
    have hget := List.getElem?_eq_getElem hi
    rw [← hgave _ _ hget]
    exact henough _ _ hget
  constructor
  · exact ⟨hpos, (hdecides _ hpos le_rfl).mp rfl⟩
  · rintro n ⟨hn, hsettled⟩
    refine Nat.le_of_not_lt fun hlt => ?_
    have hle : n ≤ tries.length := by omega
    have heq := (hdecides n hn hle).mpr hsettled
    omega

/-! ## The end that is not reached -/

/-- The loop with `spent` for the result when there is no attempt to conclude. -/
def tryFromOr (spent : Nat → Result) (s : Setup) (m : Metadata) (case : TestCase)
    (kept : Option Seal) : Nat → Nat → Program Result
  | index, 0 => return spent index
  | index, left + 1 => do
    match ← (attempt s m case kept).run with
    | .ok a => accept s case (index + 1) a
    | .error e =>
      let again := decide (0 < left) && e.retryable && !e.integrity
      Program.printLine (attemptMessage index e again)
      if again then tryFromOr spent s m case kept (index + 1) left
      else return failedResult case.name (index + 1) e Binary64.zero

/-- **There always is an attempt to conclude**, so anything may stand there. -/
theorem tryFromOr_eq (spent : Nat → Result) (hleft : 0 < left) :
    tryFromOr spent s m case kept index left = tryFrom s m case kept index left := by
  induction left generalizing index with
  | zero => exact absurd hleft (Nat.lt_irrefl 0)
  | succ left ih =>
    rw [tryFromOr, tryFrom]
    refine congrArg (Program.bind _) (funext fun outcome => ?_)
    cases outcome with
    | ok a => rfl
    | error e =>
      refine congrArg (Program.bind _) (funext fun u => ?_)
      split
      · rename_i hagain
        simp only [Bool.and_eq_true, decide_eq_true_eq] at hagain
        exact ih hagain.1.1
      · rfl

/-! ## Every course of attempts -/

theorem exists_concludes (s : Setup) (case : TestCase) (k : Nat)
    (outcome : Except JudgeError Attempt) :
    ∃ closing result, Concludes s case k outcome closing result := by
  cases outcome with
  | error e => exact ⟨_, _, .failed e⟩
  | ok a =>
    cases hprepare : s.options.prepareAnswers with
    | false => exact ⟨_, _, .accepted a hprepare⟩
    | true => exact ⟨_, _, .recorded a hprepare⟩

theorem exists_told (index : Nat) (again : Bool) (outcome : Except JudgeError Attempt) :
    ∃ line, Told index again line outcome := by
  cases outcome with
  | ok a => exact ⟨[], rfl⟩
  | error e =>
    have hmeets : (Program.printLine (attemptMessage index e again)).Meets Call.Harmless Any :=
      Program.meets_printLine _
    obtain ⟨line, ⟨⟩, hm⟩ := hmeets.exists_makes fun c hc => hc.nonempty
    exact ⟨line, hm⟩

/-- **Whatever the attempts may come out as**, the test can be tried with these outcomes. -/
theorem exists_tried {o : Nat → Except JudgeError Attempt} (hleft : 0 < left)
    (ho : ∀ n, ∃ own, Program.Makes (attempt s m case kept).run own (o n)) :
    ∃ (tries : List (Try s m case kept)) (T : List Event) (result : Result),
      Enough left tries ∧ Tried index tries T result ∧ Gave o tries := by
  induction left generalizing index o with
  | zero => exact absurd hleft (Nat.lt_irrefl 0)
  | succ left ih =>
    obtain ⟨own, hown⟩ := ho 1
    by_cases hagain : 0 < left ∧ settles (o 1) = false
    · obtain ⟨line, hline⟩ := exists_told index true (o 1)
      have hlater : ∃ (tries : List (Try s m case kept)) (T : List Event) (result : Result),
          Enough left tries ∧ Tried (index + 1) tries T result ∧
            Gave (fun n => o (n + 1)) tries :=
        ih hagain.1 fun n => ho (n + 1)
      obtain ⟨tries, T, result, henough, htried, hgave⟩ := hlater
      have hne := htried.ne_nil
      refine ⟨⟨own, o 1, hown, line⟩ :: tries, _, result,
        (enough_cons hne).mpr ⟨⟨hagain.2, Nat.pos_iff_ne_zero.mp hagain.1⟩, henough⟩,
        (tried_cons hne).mpr ⟨hline, T, rfl, htried⟩, fun i t ht => ?_⟩
      cases i with
      | zero =>
        cases ht
        rfl
      | succ i => exact hgave i t ht
    · obtain ⟨line, hline⟩ := exists_told index false (o 1)
      obtain ⟨closing, result, hconcludes⟩ := exists_concludes s case (index + 1) (o 1)
      refine ⟨[⟨own, o 1, hown, line⟩], _, result, enough_singleton.mpr (by grind),
        tried_singleton.mpr ⟨hline, closing, rfl, hconcludes⟩, fun i t ht => ?_⟩
      cases i with
      | zero =>
        cases ht
        rfl
      | succ i => cases ht

/-- **How many attempts a test takes.**  Let its record be loaded, and let `r` be the number of
attempts that the options allow, at least one.

Whatever is answered, the test is tried as often as it takes: for all outcomes `o` that go on as the
attempts that were made, their number is the least `k` for which `o k` settles the test, or `r`.
This number is reported, it stays in the range of the option, and the result is made of the `k`-th
outcome.  For all outcomes that attempts can have there is such a course.  And no course reaches the
end of the loop. -/
theorem runTest_attempts (s : Setup) (case : TestCase) (kept : Option Seal) {m : Metadata}
    {loading : List Event} (hload : Act.Yields (loadMetadata case.info) loading m) :
    (∀ T result, Program.Makes (runTest s case kept) (loading ++ T) result →
      ∃ tries : List (Try s m case kept), Tried 0 tries T result ∧
        result.report.attempts = tries.length ∧
        (∀ o, Gave o tries → Takes o (max s.options.retries 1) tries.length) ∧
        (s.options.retries < 2 ^ 32 → tries.length < 2 ^ 32)) ∧
    (∀ o k, (∀ n, ∃ own, Program.Makes (attempt s m case kept).run own (o n)) →
      Takes o (max s.options.retries 1) k →
      ∃ (tries : List (Try s m case kept)) (T : List Event) (result : Result),
        Program.Makes (runTest s case kept) (loading ++ T) result ∧
        Tried 0 tries T result ∧ Gave o tries ∧ tries.length = k) ∧
    ∀ spent, tryFromOr spent s m case kept 0 (max s.options.retries 1) =
      tryFrom s m case kept 0 (max s.options.retries 1) := by
  have hpos : 0 < max s.options.retries 1 := by omega
  refine ⟨fun T result hm => ?_, fun o k ho hk => ?_, fun spent => tryFromOr_eq spent hpos⟩
  · have hloop := Program.Makes.of_bind hload hm
    obtain ⟨tries, henough, htried⟩ := (tryFrom_iff hpos).mp hloop
    obtain ⟨last, closing, -, -, hconcludes⟩ := htried.concluded
    have hle := henough.length_le hpos
    refine ⟨tries, htried, ?_, fun o hgave => henough.takes htried.ne_nil hgave, by omega⟩
    rw [hconcludes.attempts_eq, Nat.zero_add]
  · obtain ⟨tries, T, result, henough, htried, hgave⟩ := exists_tried hpos ho
    have hmade := (tryFrom_iff hpos).mpr ⟨tries, henough, htried⟩
    refine ⟨tries, T, result, Program.Makes.bind hload hmade, htried, hgave, ?_⟩
    exact IsLeast.unique (henough.takes htried.ne_nil hgave) hk

/-- The seal of the reference on the machine where the second attempt succeeds. -/
def secondTrySeal : Seal := ⟨Host.promptCase.reference, Digest.ofBytes (utf8 "4\n")⟩

theorem run_secondTry_test :
    ((runTest twoAttempts Host.promptCase (some secondTrySeal)).run secondTry 0).map
      (fun r => (r.1.report.attempts, r.1.report.status)) = some (2, .passed) := by
  decide +kernel

/-- The test takes two attempts of two, however a third one would have come out. -/
theorem second_try_takes_two :
    ∃ (m : Metadata) (loading T : List Event) (result : Result)
      (tries : List (Try twoAttempts m Host.promptCase (some secondTrySeal))),
      Act.Yields (loadMetadata Host.promptCase.info) loading m ∧
      Program.Makes (runTest twoAttempts Host.promptCase (some secondTrySeal)) (loading ++ T)
        result ∧
      result.report.status = .passed ∧ Tried 0 tries T result ∧
      ∀ o, Gave o tries → Takes o 2 2 := by
  obtain ⟨⟨result, n⟩, hrun, hresult⟩ := Option.map_eq_some_iff.mp run_secondTry_test
  obtain ⟨hattempts, hpassed⟩ := Prod.mk.inj hresult
  obtain ⟨T, hm⟩ := Program.exists_makes hrun
  obtain ⟨loading, loaded, rest, rfl, hload, htry⟩ := Program.makes_bind hm
  cases loaded with
  | error e =>
    obtain ⟨-, rfl⟩ := Program.makes_pure htry
    cases hpassed
  | ok m =>
    obtain ⟨tries, htried, hcount, htakes, -⟩ :=
      (runTest_attempts twoAttempts Host.promptCase (some secondTrySeal) hload).1 rest result hm
    have htwo : tries.length = 2 := hcount.symm.trans hattempts
    refine ⟨m, loading, rest, result, tries, hload, hm, hpassed, htried, fun o hgave => ?_⟩
    have h := htakes o hgave
    rwa [htwo] at h

end Judge.Runner
