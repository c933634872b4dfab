import Judge.Proofs.Hosts
import Judge.Proofs.SuiteSoundness

/-!
# Proofs/Tampering — what becomes of an attempt that finds its reference changed

The look at a seal stands after the look for processes left behind, and after the result of the run.
So a changed reference is told as such only if the run did not fail (`Host.verdict_on_broken_seal`):
a candidate that changes its reference and fails as well is taken for one that only failed, and is
tried again.
-/

namespace Judge

variable {s : Setup} {m : Metadata} {case : TestCase}

/-! ## The verdict -/

/-- **The verdict on an attempt** whose seal is broken, from the result of the run and that of the
look for processes left behind. -/
def Runner.brokenVerdict (kept : Seal) :
    Except JudgeError Outcome → Except JudgeError Unit → JudgeError
  | _, .error e | .error e, .ok () => e
  | .ok _, .ok () => .tampered kept.path

/-- An error of a run is not a matter of integrity, and is worth another attempt if it is about the
candidate. -/
theorem OfRun.kind {e : JudgeError} (h : OfRun e) :
    e.integrity = false ∧ (e.retryable = true ↔ ∃ message, e = .candidate message) := by
  cases e with
  | orphans | tampered | timeLimit => exact h.elim
  | _ => simp [JudgeError.integrity, JudgeError.retryable]

/-- An error of the look for processes left behind is a matter of integrity if there are some, and
is not worth another attempt. -/
theorem OfCensus.kind {e : JudgeError} (h : OfCensus e) :
    (e.integrity = true ↔ ∃ count shown sample, e = .orphans count shown sample) ∧
      e.retryable = false := by
  cases e with
  | candidate | tampered | timeLimit => exact h.elim
  | _ => simp [JudgeError.integrity, JudgeError.retryable]

/-- **What the verdict is about.** -/
theorem Runner.brokenVerdict_kind {result : Except JudgeError Outcome}
    {census : Except JudgeError Unit} (kept : Seal) (hresult : Ends OfRun Any result)
    (hcensus : Ends OfCensus Any census) :
    ((brokenVerdict kept result census).integrity = true ↔
      (∃ count shown sample, census = .error (.orphans count shown sample)) ∨
        census = .ok () ∧ ∃ o, result = .ok o) ∧
    ((brokenVerdict kept result census).retryable = true ↔
      census = .ok () ∧ ∃ message, result = .error (.candidate message)) := by
  cases census with
  | error e =>
    obtain ⟨hintegrity, hretry⟩ := OfCensus.kind hcensus
    have hverdict : brokenVerdict kept result (.error e) = e := by cases result <;> rfl
    rw [hverdict, hintegrity, hretry]
    simp
  | ok u =>
    cases result with
    | error e =>
      obtain ⟨hintegrity, hretry⟩ := OfRun.kind hresult
      have hverdict : brokenVerdict kept (.error e) (.ok u) = e := rfl
      rw [hverdict, hintegrity, hretry]
      simp
    | ok o => simp [brokenVerdict, JudgeError.integrity, JudgeError.retryable]

namespace Host

variable {σ : Type} {H : Host σ} {a b : σ} {kept : Seal}

/-! ## Attempts on a host -/

/-- A seal is found intact only if the file has its digest. -/
theorem digest?_of_verify (hcalm : H.Calm a) (h : H.Runs kept.verify.run a (.ok ()) b) :
    H.digest? a kept.path = some kept.digest := by
  obtain ⟨-, -, T, hmakes, hread⟩ := h.quiet hcalm (Seal.verify_meets kept)
  obtain ⟨data, hdata, hdigest⟩ := Seal.verify_yields hmakes
  rw [digest?, ← hread _ _ hdata, ← hdigest]
  rfl

/-- **A look at a seal, before what does no harm**: the seal is found broken, or the file has the
digest of the seal to the end. -/
theorem verify_runs {α : Type} {rest : Act α} {E : JudgeError → Prop} {r : Except JudgeError α}
    (hcalm : H.Calm a) (hrest : Act.Meets Call.Harmless E Any rest)
    (h : H.Runs (kept.verify >>= fun _ => rest).run a r b) :
    r = .error (.tampered kept.path) ∨ H.Calm b ∧ H.digest? b kept.path = some kept.digest := by
  rcases runs_act_bind h with ⟨e, rfl, hverify⟩ | ⟨c, ⟨⟩, hverify, h⟩
  · obtain ⟨-, -, T, hmakes, -⟩ := hverify.quiet hcalm (Seal.verify_meets kept)
    obtain rfl := (Seal.verify_meets (Q := Call.Harmless) kept).error hmakes
    exact .inl rfl
  · obtain ⟨hcalm', hsame⟩ := hverify.calm hcalm (Seal.verify_meets kept)
    obtain ⟨hend, hsame'⟩ := h.calm hcalm' hrest
    refine .inr ⟨hend, ?_⟩
    rw [digest?_congr (hsame'.trans hsame), digest?_of_verify hcalm hverify]

/-- The time is told on a host. -/
theorem not_runs_childTime_error {e : JudgeError} :
    ¬ H.Runs Runner.childTime.run a (.error e) b := by
  intro h
  rcases runs_act_bind h with ⟨_, -, hcall⟩ | ⟨_, _, -, hpure⟩
  · obtain ⟨c, r, hperform, htold⟩ := runs_bind hcall
    obtain ⟨⟨r', c'⟩, hanswer, heq⟩ := Option.bind_eq_some_iff.mp hperform
    obtain ⟨rfl, rfl⟩ := Prod.mk.inj (Option.some.inj heq)
    obtain ⟨micros, rfl⟩ := H.times hanswer
    exact absurd (runs_pure htold).1 nofun
  · exact absurd (runs_pure hpure).1 nofun

/-- **The course of an attempt on a host**: the run, the look for processes left behind, and, if
neither failed, the look at the seal. -/
theorem attempt_runs {r : Except JudgeError Runner.Attempt}
    (h : H.Runs (Runner.attempt s m case (some kept)).run a r b) :
    ∃ time begun ran counted result census, H.Runs Runner.childTime.run a (.ok time) begun ∧
      H.Runs (Sandbox.run s m case).run begun result ran ∧
      H.Runs Runner.verifyNoOrphans.run ran census counted ∧
      (r = .error (Runner.brokenVerdict kept result census) ∨
        H.Calm b ∧ H.digest? b kept.path = some kept.digest) := by
  rcases runs_act_bind h with ⟨e, rfl, htime⟩ | ⟨begun, time, htime, h⟩
  · exact absurd htime not_runs_childTime_error
  obtain ⟨ran, result, hrun, h⟩ := runs_ofProgram_bind h
  rcases runs_act_bind h with ⟨e, rfl, hcensus⟩ | ⟨counted, ⟨⟩, hcensus, h⟩
  · refine ⟨time, begun, ran, b, result, .error e, htime, hrun, hcensus, .inl ?_⟩
    cases result <;> rfl
  refine ⟨time, begun, ran, counted, result, .ok (), htime, hrun, hcensus, ?_⟩
  cases result with
  | error e =>
    obtain ⟨rfl, rfl⟩ := runs_pure h
    exact .inl rfl
  | ok o => exact verify_runs (H.settles hcensus) (Runner.timing_meets time o) h

/-- **What becomes of an attempt that leaves its seal broken.**  It fails with the verdict that the
run and the look for processes left behind lead to.  It is a matter of integrity only if processes
were left behind, or if neither failed; and another attempt is made of it if nobody was left behind
and the candidate failed in the run. -/
theorem verdict_on_broken_seal {r : Except JudgeError Runner.Attempt}
    (h : H.Runs (Runner.attempt s m case (some kept)).run a r b)
    (hbroken : H.digest? b kept.path ≠ some kept.digest) :
    ∃ time begun ran counted result census, H.Runs Runner.childTime.run a (.ok time) begun ∧
      H.Runs (Sandbox.run s m case).run begun result ran ∧
      H.Runs Runner.verifyNoOrphans.run ran census counted ∧
      r = .error (Runner.brokenVerdict kept result census) ∧
      ((Runner.brokenVerdict kept result census).integrity = true ↔
        (∃ count shown sample, census = .error (.orphans count shown sample)) ∨
          census = .ok () ∧ ∃ o, result = .ok o) ∧
      ((Runner.brokenVerdict kept result census).retryable = true ↔
        census = .ok () ∧ ∃ message, result = .error (.candidate message)) := by
  obtain ⟨time, begun, ran, counted, result, census, htime, hrun, hcensus,
    hverdict | ⟨-, hintact⟩⟩ := attempt_runs h
  · obtain ⟨T, hmakes⟩ := Program.exists_makes hrun
    obtain ⟨T', hmakes'⟩ := Program.exists_makes hcensus
    have hresult := (Program.Meets.makes Sandbox.run_meets hmakes).1
    have hended := (Program.Meets.makes (Runner.verifyNoOrphans_meets (L := Any)) hmakes').1
    exact ⟨time, begun, ran, counted, result, census, htime, hrun, hcensus, hverdict,
      Runner.brokenVerdict_kind kept hresult hended⟩
  · exact absurd hintact hbroken

end Host

/-! A candidate that writes its own answer into the reference. -/

/-- The reference holds `0`, and `1` once the candidate was started; the candidate ends with
`code`. -/
def tamperingHost (code : Nat) : Host Nat :=
  Host.prompt ["001"] (fun n p =>
    if p = Host.promptCase.reference then some (utf8 (if n = 0 then "0\n" else "1\n")) else none)
    "1\n" code

/-- The seal of the reference before the candidate was started. -/
def untouched : Seal := ⟨Host.promptCase.reference, Digest.ofBytes (utf8 "0\n")⟩

theorem tamperingHost_broken (code : Nat) :
    (tamperingHost code).digest? 1 untouched.path ≠ some untouched.digest := by
  have hdigest : Digest.ofBytes (utf8 "1\n") ≠ Digest.ofBytes (utf8 "0\n") := by decide +kernel
  exact fun h => hdigest (Option.some.inj h)

theorem runs_tamperer :
    (Runner.attempt plainSetup {} Host.promptCase (some untouched)).run.run
      (tamperingHost 0).answer 0 = some (.error (.tampered untouched.path), 1) := by
  decide +kernel

theorem runs_failing_tamperer :
    (Runner.attempt plainSetup {} Host.promptCase (some untouched)).run.run
      (tamperingHost 3).answer 0 =
        some (.error (.candidate "Solution failed with code 3 on test 001, expected: 0"), 1) := by
  decide +kernel

/-- If the candidate fails as well, it is told as a failure of the candidate, and is tried again. -/
theorem failing_tamperer_is_retried :
    ∃ e, (tamperingHost 3).Runs
        (Runner.attempt plainSetup {} Host.promptCase (some untouched)).run 0 (.error e) 1 ∧
      (tamperingHost 3).digest? 1 untouched.path ≠ some untouched.digest ∧
      e = .candidate "Solution failed with code 3 on test 001, expected: 0" ∧
      e.integrity = false ∧ e.retryable = true :=
  ⟨_, runs_failing_tamperer, tamperingHost_broken 3, rfl, rfl, rfl⟩

/-- If it does not fail, the changed reference is noticed. -/
theorem tamperer_is_noticed :
    ∃ begun ran counted result census,
      (tamperingHost 0).Runs (Sandbox.run plainSetup {} Host.promptCase).run begun result ran ∧
      (tamperingHost 0).Runs Runner.verifyNoOrphans.run ran census counted ∧
      Runner.brokenVerdict untouched result census = .tampered untouched.path ∧
      ((∃ count shown sample, census = .error (.orphans count shown sample)) ∨
        census = .ok () ∧ ∃ o, result = .ok o) := by
  obtain ⟨-, begun, ran, counted, result, census, -, hrun, hcensus, hverdict, hintegrity, -⟩ :=
    Host.verdict_on_broken_seal runs_tamperer (tamperingHost_broken 0)
  have htampered := (Except.error.inj hverdict).symm
  exact ⟨begun, ran, counted, result, census, hrun, hcensus, htampered,
    hintegrity.mp (by rw [htampered]; rfl)⟩

end Judge
