import Judge.Proofs.PreparedAnswers
import Judge.Proofs.SuiteHistory
import Judge.Proofs.Tolerance

/-!
# Proofs/Recordings — which runs become references

While answers are prepared, a suite stores at most one thing for each test: the outcome of its last
attempt, in its reference (`Runner.runTest_stores`).  That outcome is the answer of a good run
(`GoodRun`), or else what is left of a failure that the test may have (`FailedRun`): then it is what
was captured from a candidate with a wrong exit code, even where an output file is the answer, or the
log of an interactor that failed, and nothing if there is none.  `Setup.recorded_runs` says so of
every reference that a suite writes.
-/

namespace Judge

open List

/-! ## Runs -/

/-- **What is handed in while answers are prepared**: the output file if there is one, with nothing
captured beside it, and otherwise what was captured. -/
def Collected (s : Setup) (v : Invocation) (after : List Event) (captured answer : Bytes) : Prop :=
  match s.options.outputFile with
  | some name =>
    captured = [] ∧ Answered after (.file (.read (v.runDir.child name))) (.ok answer)
  | none => answer = captured

/-- **A good run** and its answer: the candidate ended as it should, or nobody checks that, and the
interactor was content. -/
structure GoodRun (s : Setup) (m : Metadata) (v : Invocation) (phase after : List Event)
    (answer : Bytes) : Prop where
  candidate : ∃ started status captured, CandidateRan s m v phase started status ∧
    Captured s v phase after started captured ∧ Collected s v after captured answer ∧
    (s.checker = .ignore ∨ m.expectedExit.accepts status.code = true)
  interactor : ∀ i, s.options.interactor = some i → InteractorContent s m v phase i

/-- **A failed run** and what is left of it: what was captured from a candidate that ended with a
wrong exit code, or the log of an interactor that failed. -/
inductive FailedRun (s : Setup) (m : Metadata) (v : Invocation) (T : List Event) (left : Bytes) : Prop
  | exitCode {phase after : List Event} {started : Started} {status : WaitStatus} (hphase : phase ⊆ T)
      (hafter : after ⊆ T) (hran : CandidateRan s m v phase started status)
      (hcaptured : Captured s v phase after started left)
      (hchecks : s.checker.checksExitCode = true)
      (hcode : m.expectedExit.accepts status.code = false)
  | interactor {i : Path} {log : Except OsError Bytes} (hi : s.options.interactor = some i)
      (hfailed : InteractorFailed s m v T i)
      (hlog : Answered T (.file (.read (v.runDir.child Sandbox.logName))) log)
      (hleft : left = log.toOption.getD [])

/-- **How a run comes to its outcome** while answers are prepared: it is good, or it is a failure
that the test may have. -/
def Prepared (s : Setup) (m : Metadata) (case : TestCase) (v : Invocation) (T : List Event)
    (o : Outcome) : Prop :=
  (o.skipped = false ∧ ∃ before phase after, T = before ++ phase ++ after ∧
    GoodRun s m v phase after o.output) ∨
  (o.skipped = true ∧ s.options.mayFail case.name = true ∧ FailedRun s m v T o.output)

variable {s : Setup} {m : Metadata} {case : TestCase} {v : Invocation} {T T' : List Event}
  {o : Outcome}

theorem Collected.mono {after after' : List Event} {captured answer : Bytes}
    (h : Collected s v after captured answer) (hsub : after ⊆ after') :
    Collected s v after' captured answer := by
  unfold Collected at h ⊢
  split at h
  · exact ⟨h.1, h.2.mono hsub⟩
  · exact h

theorem GoodRun.mono {phase after after' : List Event} {answer : Bytes}
    (h : GoodRun s m v phase after answer) (hsub : after ⊆ after') :
    GoodRun s m v phase after' answer := by
  obtain ⟨started, status, captured, hran, hcaptured, hcollected, hexit⟩ := h.candidate
  exact ⟨⟨started, status, captured, hran, hcaptured.mono hsub, hcollected.mono hsub, hexit⟩,
    h.interactor⟩

theorem FailedRun.mono {left : Bytes} (h : FailedRun s m v T left) (hsub : T ⊆ T') :
    FailedRun s m v T' left := by
  cases h with
  | exitCode hphase hafter hran hcaptured hchecks hcode =>
    exact .exitCode (List.Subset.trans hphase hsub) (List.Subset.trans hafter hsub) hran hcaptured
      hchecks hcode
  | interactor hi hfailed hlog hleft =>
    obtain ⟨arguments, fd, fd', started, status, hstart, hwait, hfailed⟩ := hfailed
    exact .interactor hi
      ⟨arguments, fd, fd', started, status, hstart.mono hsub, hwait.mono hsub, hfailed⟩
      (hlog.mono hsub) hleft

/-- What comes before and after a run does not matter. -/
theorem Prepared.append (h : Prepared s m case v T o) (first last : List Event) :
    Prepared s m case v (first ++ T ++ last) o := by
  rcases h with ⟨hskipped, before, phase, after, rfl, hgood⟩ | ⟨hskipped, hmay, hfailed⟩
  · exact .inl ⟨hskipped, first ++ before, phase, after ++ last, by simp,
      hgood.mono (subset_append_left ..)⟩
  · exact .inr ⟨hskipped, hmay, hfailed.mono fun e he => by simp [he]⟩

theorem Runner.Told.stores_eq_nil {index : Nat} {again : Bool} {line : List Event}
    {outcome : Except JudgeError Attempt} (h : Runner.Told index again line outcome) :
    stores line = [] := by
  cases outcome with
  | ok a => rw [show line = [] from h, stores_nil]
  | error e => exact Program.Meets.stores_eq_nil (Program.meets_printLine _) h

section

variable (hprepare : s.options.prepareAnswers = true)

include hprepare

namespace Sandbox

theorem produced_collected {captured answer : Bytes}
    (hy : Act.Yields (produced s case v captured) T answer) : Collected s v T captured answer := by
  unfold produced at hy
  unfold Collected
  cases hfile : s.options.outputFile with
  | none =>
    rw [hfile] at hy
    exact (Act.yields_pure hy).2
  | some name =>
    rw [hfile] at hy
    simp only [hprepare, Bool.or_true, if_true] at hy
    cases captured with
    | nil => exact ⟨rfl, readAnswer_yields hy⟩
    | cons b rest => exact absurd hy Act.not_yields_throw

/-- **The end of a run while answers are prepared**: the exit code is not wrong and the answer is
handed in, or it is and what was captured is all there is. -/
theorem conclude_prepared {captured : Bytes} {exitCode : Int}
    (hy : Act.Yields (conclude s m case v captured exitCode) T o) :
    (o.skipped = false ∧ Collected s v T captured o.output ∧
      (s.checker = .ignore ∨ m.expectedExit.accepts exitCode = true)) ∨
    (o.skipped = true ∧ s.options.mayFail case.name = true ∧ o.output = captured ∧
      s.checker.checksExitCode = true ∧ m.expectedExit.accepts exitCode = false) := by
  cases conclude_makes hy with
  | wrongCode hchecks hcode hmay => exact .inr ⟨rfl, hmay, rfl, hchecks, hcode⟩
  | ended hfirst hsecond hexit hproduced hcheck =>
    rw [if_pos hprepare] at hcheck
    exact .inl ⟨hcheck, (produced_collected hprepare hproduced).mono hfirst, hexit⟩

theorem judge_prepared (hy : Act.Yields (judge s m case v) T o) : Prepared s m case v T o := by
  cases judge_makes hy with
  | tolerated hi hfailed hmay hlog => exact .inr ⟨rfl, hmay, .interactor hi hfailed hlog rfl⟩
  | @ran before phase after last started status captured r hcut hran hcaptured hcontent hconclude =>
    subst hcut
    rcases conclude_prepared hprepare hconclude with ⟨hskipped, hcollected, hexit⟩ |
      ⟨hskipped, hmay, rfl, hchecks, hcode⟩
    · refine .inl ⟨hskipped, before, phase, after ++ last, rfl, ?_, hcontent⟩
      exact ⟨started, status, captured, hran, hcaptured.mono (subset_append_left ..),
        hcollected.mono (subset_append_right ..), hexit⟩
    · refine .inr ⟨hskipped, hmay, .exitCode ?_ ?_ hran hcaptured hchecks hcode⟩
      · exact fun e he => by simp [he]
      · exact fun e he => by simp [he]

theorem run_prepared (hy : Act.Yields (run s m case) T o) :
    ∃ runDir v, Invocation.build s.cwd s.inherited s.options m case runDir = .ok v ∧
      Prepared s m case v T o := by
  obtain ⟨e, he, -⟩ | ⟨runDir, v, before, body, after, rfl, hbuilt, hjudge⟩ := run_makes hy
  · cases he
  · exact ⟨runDir, v, hbuilt, (judge_prepared hprepare hjudge).append before after⟩

end Sandbox

/-! ## Tests -/

namespace Runner

variable {kept : Option Seal} {result : Result}

theorem attempt_prepared {a : Attempt} (hy : Act.Yields (attempt s m case kept) T a) :
    ∃ runDir v, Invocation.build s.cwd s.inherited s.options m case runDir = .ok v ∧
      Prepared s m case v T a.outcome := by
  obtain ⟨first, run, census, reseal, last, ending, rfl, hrun, -⟩ := attempt_yields hy
  obtain ⟨runDir, v, hbuilt, hprepared⟩ := Sandbox.run_prepared hprepare hrun
  have h := hprepared.append [⟨.childTime, .ok first⟩] (census ++ reseal ++ ⟨.childTime, .ok last⟩ :: ending)
  exact ⟨runDir, v, hbuilt, by simpa using h⟩

theorem Try.stores_eq_nil (t : Try s m case kept) : stores t.own = [] :=
  Program.Meets.stores_eq_nil (attempt_spares hprepare kept) t.makes

/-- So do all the attempts of a test together… -/
theorem Tried.stores_tries {index : Nat} {tries : List (Try s m case kept)}
    (h : Tried index tries T result) : stores (tries.flatMap Try.trace) = [] := by
  rw [stores_flatMap, flatMap_eq_nil_iff]
  intro t ht
  obtain ⟨i, hi⟩ := mem_iff_getElem?.mp ht
  rw [Try.trace, stores_append, t.stores_eq_nil hprepare, (h.told i t hi).stores_eq_nil,
    append_nil]

/-- …and the last one is concluded with its outcome, if it succeeded. -/
theorem Concludes.stores_closing {k : Nat} {outcome : Except JudgeError Attempt}
    {closing : List Event} (h : Concludes s case k outcome closing result) :
    stores closing = [] ∨
      ∃ a, outcome = .ok a ∧ stores closing = [(case.reference, a.outcome.output)] := by
  cases h with
  | failed e => exact .inl rfl
  | accepted a hfalse =>
    rw [hprepare] at hfalse
    cases hfalse
  | recorded a | unrecorded a => exact .inr ⟨a, rfl, rfl⟩

/-- **What a test stores while answers are prepared**: nothing, or the outcome of its last attempt in
its reference. -/
theorem runTest_stores (hm : Program.Makes (runTest s case kept) T result) :
    stores T = [] ∨
    ∃ m a loading lead own closing, T = loading ++ lead ++ own ++ closing ∧
      stores T = [(case.reference, a.outcome.output)] ∧
      Act.Yields (loadMetadata case.info) loading m ∧ Act.Yields (attempt s m case kept) own a := by
  obtain ⟨loading, loaded, rest, rfl, hload, hrest⟩ := Program.makes_bind hm
  have hloading : stores loading = [] := Program.Meets.stores_eq_nil (loadMetadata_meets _) hload
  cases loaded with
  | error e =>
    obtain ⟨rfl, -⟩ := Program.makes_pure hrest
    exact .inl (by rw [append_nil, hloading])
  | ok m =>
    obtain ⟨tries, -, htried⟩ := (tryFrom_iff (by omega)).mp hrest
    obtain ⟨last, closing, hlast, rfl, hconcludes⟩ := htried.concluded
    rw [stores_append, stores_append, hloading, htried.stores_tries hprepare, nil_append,
      nil_append]
    refine (hconcludes.stores_closing hprepare).imp_right ?_
    rintro ⟨a, hok, hstores⟩
    have hown : Act.Yields (attempt s m case kept) last.own a := by
      rw [Act.Yields, ← hok]
      exact last.makes
    obtain ⟨earlier, rfl⟩ := getLast?_eq_some_iff.mp hlast
    refine ⟨m, a, loading, earlier.flatMap Try.trace, last.own, last.line ++ closing, ?_, hstores,
      hload, hown⟩
    simp [Try.trace]

end Runner

end

/-! ## The suite -/

namespace Begun

/-- Only the visits to its tests store something in a round. -/
theorem stores_trace (b : Begun s) : stores b.trace = b.visits.flatMap fun v => stores v.own := by
  obtain ⟨text, hbanner⟩ := b.announced
  rw [trace, stores_append, stores_append, stores_flatMap,
    Program.Meets.stores_eq_nil (Program.meets_printLine text) hbanner,
    Program.Meets.stores_eq_nil Runner.prepareRound_meets b.makes, nil_append, nil_append]

end Begun

/-- **A reference that was recorded**: the record of the test was loaded, its last attempt succeeded,
and `data` is the outcome. -/
def Visit.Records (v : Visit s) (data : Bytes) : Prop :=
  ∃ m a loading lead own closing, v.own = loading ++ lead ++ own ++ closing ∧
    Act.Yields (Runner.loadMetadata v.case.info) loading m ∧
    Act.Yields (Runner.attempt s m v.case v.kept) own a ∧ a.outcome.output = data ∧
    ∃ runDir w, Invocation.build s.cwd s.inherited s.options m v.case runDir = .ok w ∧
      Prepared s m v.case w own a.outcome

def Chronicle.visits (c : Chronicle s) : List (Visit s) := c.rounds.flatMap Begun.visits

theorem Chronicle.stores_trace (c : Chronicle s) :
    stores c.trace = c.visits.flatMap fun v => stores v.own := by
  rw [trace, stores_flatMap, visits, flatMap_assoc]
  simp only [Begun.stores_trace]

/-- **Which runs become references.**  While answers are prepared, all that a suite stores is stored
in the course of its tests, at most one thing for each, in its reference.  It is the answer of a good
run, or what is left of a failed one of a test that may fail. -/
theorem Setup.recorded_runs {r : Except JudgeError Unit} {report : Report}
    (hprepare : s.options.prepareAnswers = true) (hm : Program.Makes s.runSuite T (r, report)) :
    ∃ (c : Chronicle s) (closing : List Event), T = c.trace ++ closing ∧ report.tests = c.reports ∧
      stores T = c.visits.flatMap (fun v => stores v.own) ∧
      ∀ v ∈ c.visits, stores v.own = [] ∨
        ∃ data, stores v.own = [(v.case.reference, data)] ∧ v.Records data := by
  obtain ⟨c, closing, rfl, -, htests, -, -, hclosing⟩ := Setup.runSuite_chronicle hm
  have hend : stores closing = [] := by
    rcases hclosing with ⟨_, -, rfl, -⟩ | ⟨-, hprint, -⟩
    · rfl
    · exact Program.Meets.stores_eq_nil (Program.meets_printLine _) hprint
  refine ⟨c, closing, rfl, htests, ?_, fun v _ => ?_⟩
  · rw [stores_append, hend, List.append_nil, c.stores_trace]
  · rcases Runner.runTest_stores hprepare v.makes with
      hnone | ⟨m, a, loading, lead, own, closing, hcut, hstores, hload, hown⟩
    · exact .inl hnone
    · obtain ⟨runDir, w, hbuilt, hprepared⟩ := Runner.attempt_prepared hprepare hown
      exact .inr ⟨_, hstores, m, a, loading, lead, own, closing, hcut, hload, hown, rfl, runDir, w,
        hbuilt, hprepared⟩

theorem run_recorder_suite :
    (preparing.runSuite.run (recorder 0 "0\n") none).map (fun r => (r.1.1, r.2)) =
      some (.ok (), some (utf8 "0\n")) := by
  decide +kernel

/-- A suite that records the answer of a good run, where there was none. -/
theorem good_answer_is_recorded :
    ∃ T report, preparing.runSuite.run (recorder 0 "0\n") none =
        some ((.ok (), report), some (utf8 "0\n")) ∧
      Program.Makes preparing.runSuite T (.ok (), report) ∧
      ∃ (c : Chronicle preparing) (closing : List Event), T = c.trace ++ closing ∧
        report.tests = c.reports ∧ stores T = c.visits.flatMap (fun v => stores v.own) ∧
        ∀ v ∈ c.visits, stores v.own = [] ∨
          ∃ data, stores v.own = [(v.case.reference, data)] ∧ v.Records data := by
  obtain ⟨⟨⟨r, report⟩, stored⟩, hrun, hended⟩ := Option.map_eq_some_iff.mp run_recorder_suite
  obtain ⟨rfl, rfl⟩ := Prod.mk.inj hended
  obtain ⟨T, hm⟩ := Program.exists_makes hrun
  exact ⟨T, report, hrun, hm, Setup.recorded_runs rfl hm⟩

/-! A machine as before, with a candidate that ends with the exit code 3, and a test that may
fail. -/

/-- A setup in which answers are prepared and the test may fail. -/
def preparingLeniently : Setup :=
  { plainSetup with options := { prepareAnswers := true, mayFailLocal := ["001"] } }

/-- What the candidate wrote before it failed replaces the reference. -/
theorem skipped_failure_replaces_reference :
    (preparingLeniently.runSuite.run (recorder 3 "41\n") (some (utf8 "42\n"))).map
      (fun r => (r.1.1, r.1.2.tests.map (·.status), r.2)) =
        some (.ok (), [.skipped], some (utf8 "41\n")) := by
  decide +kernel

end Judge
