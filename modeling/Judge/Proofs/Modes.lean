import Judge.Proofs.SuiteSoundness
import Judge.Proofs.Tolerance

/-!
# Proofs/Modes — in a pipeline and outside of it

A suite is strict in a pipeline and lenient elsewhere, and the two do not mix
(`judgeSuite_modes_apart`).  In a pipeline no test is skipped.  Elsewhere the time is no reason to
fail, and a candidate is started with the words of its own command line and without a limit on
processes.  In both a test is skipped only by an attempt in which a failure was looked away from
that can be, and in which the checks around the run succeeded.
-/

namespace Judge

/-- **A candidate is started directly**: the program and its arguments are those of its own words,
with nothing before them. -/
def StartedDirectly (cwd : Path) (options : Options) (l : Launch) : Prop :=
  ∃ (m : Metadata) (case : TestCase) (runDir : Path) (words argv : List String),
    Invocation.ownWords cwd options m case runDir = .ok words ∧
    Invocation.arguments m.dropFirstParam words = .ok argv ∧
    l.program = Invocation.resolveExecutable runDir (words.headD "") ∧ l.argv = argv.map utf8

/-! ## The setup of a suite -/

namespace Options

variable {o : Options} {surroundings : Surroundings}

/-- A test may fail only outside a pipeline, and only where the options say so. -/
theorem mayFail_underPolicy {test : String} (h : (o.underPolicy surroundings).mayFail test = true) :
    surroundings.pipeline = false ∧ test ∈ o.mayFailLocal := by
  unfold underPolicy at h
  split at h
  · cases h
  · rename_i hlocal
    exact ⟨Bool.eq_false_iff.mpr hlocal, List.contains_iff_mem.mp h⟩

theorem underPolicy_of_local (hlocal : surroundings.pipeline = false) :
    o.underPolicy surroundings = { o with user := none } := by
  rw [underPolicy, hlocal]
  rfl

end Options

namespace Setup

variable {cwd : Path} {inherited : Vars} {options : Options} {surroundings : Surroundings}
  {s : Setup}

theorem make_ok (h : Setup.make cwd inherited options surroundings = .ok s) :
    s.cwd = cwd ∧ s.options = options.underPolicy surroundings ∧ s.surroundings = surroundings := by
  obtain ⟨checker, -, h⟩ := ok_of_bind h
  cases h
  exact ⟨rfl, rfl, rfl⟩

theorem make_error {e : JudgeError} (h : Setup.make cwd inherited options surroundings = .error e) :
    Mundane e := by
  rcases error_of_bind h with h | ⟨checker, -, h⟩
  · unfold Checker.ofSelector at h
    repeat' split at h
    all_goals cases h
    trivial
  · cases h

end Setup

variable {s : Setup} {m : Metadata} {case : TestCase} {T : List Event}

theorem Assists.unlimited {l : Launch} (h : Assists s l) : l.maxProcesses = none := by
  cases h <;> rfl

/-- **Outside a pipeline a candidate is started directly**, and nothing has a limit on processes. -/
theorem Launched.direct {l : Launch} (hlocal : s.surroundings.pipeline = false)
    (huser : s.options.user = none) (h : Launched s l) :
    l.maxProcesses = none ∧ (StartedDirectly s.cwd s.options l ∨ Assists s l) := by
  cases h with
  | assistant hl => exact ⟨hl.unlimited, .inr hl⟩
  | @candidate m case runDir v hv stdin =>
    obtain ⟨words, argv, hwords, harguments, rfl⟩ := Invocation.build_eq_ok hv
    rw [huser] at harguments
    refine ⟨by simp [Sandbox.candidateLaunch, hlocal],
      .inl ⟨m, case, runDir, words, argv, hwords, harguments, ?_, rfl⟩⟩
    simp [Sandbox.candidateLaunch, huser, Invocation.asUser]

/-! ## Skipped tests -/

/-- **A failure was looked away from** in the last attempt for a test: the run of the candidate did
not fail, because what went wrong in it can be looked away from; nobody was left behind, and the
reference was as it was sealed. -/
def Visit.LookedAway (v : Visit s) : Prop :=
  ∃ (m : Metadata) (o : Outcome) (runDir : Path) (inv : Invocation)
      (before run census reseal ending : List Event),
    v.own = before ++ run ++ census ++ reseal ++ ending ∧
    (∃ loading, loading ⊆ before ∧ Act.Yields (Runner.loadMetadata v.case.info) loading m) ∧
    Act.Yields (Sandbox.run s m v.case) run o ∧
    Invocation.build s.cwd s.inherited s.options m v.case runDir = .ok inv ∧
    Forgiven s m v.case inv run ∧ NobodyLeft census ∧
    ∀ kept, v.kept = some kept → ∃ data,
      Answered reseal (.file (.read kept.path)) (.ok data) ∧ Digest.ofBytes data = kept.digest

namespace Runner

theorem Concludes.skipped {k : Nat} {outcome : Except JudgeError Attempt} {result : Result}
    (h : Concludes s case k outcome T result) (hskipped : result.report.status = .skipped) :
    result.report.name = case.name ∧ ∃ a, outcome = .ok a ∧ a.outcome.skipped = true := by
  have hflag {a : Attempt}
      (h : (if a.outcome.skipped then Status.skipped else Status.passed) = .skipped) :
      a.outcome.skipped = true := by
    cases hs : a.outcome.skipped with
    | true => rfl
    | false => simp [hs] at h
  cases h with
  | failed e | unrecorded a e => cases hskipped
  | accepted a | recorded a => exact ⟨rfl, a, rfl, hflag hskipped⟩

/-- **A test is skipped by its last attempt.** -/
theorem runTest_skipped {kept : Option Seal} {result : Result}
    (hm : Program.Makes (runTest s case kept) T result)
    (hskipped : result.report.status = .skipped) :
    result.report.name = case.name ∧ ∃ m loading lead last closing a,
      T = loading ++ lead ++ last ++ closing ∧ Act.Yields (loadMetadata case.info) loading m ∧
      Act.Yields (attempt s m case kept) last a ∧ a.outcome.skipped = true := by
  obtain ⟨e, rfl⟩ | ⟨m, loading, lead, ⟨own, outcome, hown, line⟩, closing, k, rfl, hload, -,
    hconcludes⟩ := runTest_ends hm
  · cases hskipped
  obtain ⟨hname, a, rfl, haway⟩ := hconcludes.skipped hskipped
  exact ⟨hname, m, loading, lead, own, line ++ closing, a, by simp [Try.trace], hload, hown, haway⟩

end Runner

/-- **A test that is skipped may fail**, and a failure was looked away from. -/
theorem Visit.lookedAway (v : Visit s) (hskipped : v.result.report.status = .skipped) :
    v.result.report.name = v.case.name ∧ s.options.mayFail v.case.name = true ∧ v.LookedAway := by
  obtain ⟨hname, m, loading, lead, last, closing, a, hown, hload, hlast, haway⟩ :=
    Runner.runTest_skipped v.makes hskipped
  obtain ⟨time, run, census, reseal, time', ending, rfl, hrun, hcensus, hsealed, -⟩ :=
    Runner.attempt_yields hlast
  obtain ⟨hmay, runDir, inv, hbuilt, hforgiven⟩ := Sandbox.run_skipped haway hrun
  refine ⟨hname, hmay, m, a.outcome, runDir, inv, loading ++ lead ++ [⟨.childTime, .ok time⟩], run,
    census, reseal, ⟨.childTime, .ok time'⟩ :: ending ++ closing, by simp [hown],
    ⟨loading, fun e he => by simp [he], hload⟩, hrun, hbuilt, hforgiven, hcensus, hsealed⟩

/-! ## The suite -/

/-- The tests of a report were visited in the course of the suite. -/
theorem Setup.exists_visit {r : Except JudgeError Unit} {report : Report}
    (hm : Program.Makes s.runSuite T (r, report)) {t : TestReport} (ht : t ∈ report.tests) :
    ∃ v : Visit s, v.own <:+: T ∧ v.result.report = t := by
  obtain ⟨rounds, closing, rfl, htests⟩ := Setup.runSuite_history hm
  rw [htests] at ht
  obtain ⟨round, hround, hmem⟩ := List.mem_flatMap.mp ht
  obtain ⟨v, hv, rfl⟩ := List.mem_map.mp hmem
  refine ⟨v, ?_, rfl⟩
  have hvisit : v.own <:+: round.visits.flatMap Visit.own :=
    List.infix_of_mem_flatten (List.mem_map_of_mem hv)
  have hround : round.trace <:+: rounds.flatMap Round.trace :=
    List.infix_of_mem_flatten (List.mem_map_of_mem hround)
  have hown : v.own <:+: round.trace := hvisit.trans (List.suffix_append ..).isInfix
  exact (hown.trans hround).trans (List.prefix_append ..).isInfix

/-- A test of a report that is skipped may fail, and a failure was looked away from in a visit. -/
theorem Setup.exists_lookedAway {r : Except JudgeError Unit} {report : Report}
    (hm : Program.Makes s.runSuite T (r, report)) {t : TestReport} (ht : t ∈ report.tests)
    (hskipped : t.status = .skipped) :
    s.options.mayFail t.name = true ∧
      ∃ v : Visit s, v.own <:+: T ∧ v.result.report = t ∧ v.LookedAway := by
  obtain ⟨v, hown, rfl⟩ := Setup.exists_visit hm ht
  obtain ⟨hname, hmay, haway⟩ := v.lookedAway hskipped
  exact ⟨hname ▸ hmay, v, hown, rfl, haway⟩

section JudgeSuite

variable {cwd : Path} {inherited : Vars} {options : Options} {surroundings : Surroundings}
  {r : Except JudgeError Unit} {report : Report}

/-- A suite is judged once its setup is made and the judge is a parent of what is left behind. -/
theorem judgeSuite_cases
    (hm : Program.Makes (judgeSuite cwd inherited options surroundings) T (r, report)) :
    (report.tests = [] ∧ (∀ l reply, ¬ Answered T (.start l) reply) ∧
      ∃ e, r = .error e ∧ ∀ message, e ≠ .timeLimit message) ∨
    ∃ s T', Setup.make cwd inherited options surroundings = .ok s ∧
      T = ⟨.adopt, .ok ()⟩ :: T' ∧ Program.Makes s.runSuite T' (r, report) := by
  unfold judgeSuite at hm
  cases hmake : Setup.make cwd inherited options surroundings with
  | error e =>
    rw [hmake] at hm
    obtain ⟨rfl, heq⟩ := Program.makes_pure hm
    cases heq
    refine .inl ⟨rfl, fun l reply hl => absurd hl List.not_mem_nil, e, rfl, ?_⟩
    rintro message rfl
    exact Setup.make_error hmake
  | ok s =>
    rw [hmake] at hm
    obtain ⟨T₁, adopted, T', rfl, hadopt, hrest⟩ := Program.makes_bind hm
    obtain rfl := Program.makes_perform hadopt
    cases adopted with
    | ok u => exact .inr ⟨s, T', rfl, rfl, hrest⟩
    | error e =>
      obtain ⟨rfl, heq⟩ := Program.makes_pure hrest
      cases heq
      refine .inl ⟨rfl, fun l reply hl => ?_, .system e, rfl, nofun⟩
      exact nomatch List.mem_singleton.mp hl

/-- **The two modes of a suite are apart.**  In a pipeline no test is skipped.  Outside of it the
suite does not end with an error about the time, every process that is started is a candidate
started directly or one that helps the judge, and none has a limit on processes.  In both, a test
that is skipped is one that may fail, and the last attempt for it looked away from a wrong exit
code, a failed interactor or a wrong answer, with the checks around the run made as always. -/
theorem judgeSuite_modes_apart
    (hm : Program.Makes (judgeSuite cwd inherited options surroundings) T (r, report)) :
    (surroundings.pipeline = true → ∀ t ∈ report.tests, t.status ≠ .skipped) ∧
    (surroundings.pipeline = false →
      (∀ message, r ≠ .error (.timeLimit message)) ∧
      ∀ l reply, Answered T (.start l) reply → l.maxProcesses = none ∧
        (StartedDirectly cwd options l ∨
          ∃ s, Setup.make cwd inherited options surroundings = .ok s ∧ Assists s l)) ∧
    ∀ t ∈ report.tests, t.status = .skipped → t.name ∈ options.mayFailLocal ∧
      ∃ (s : Setup) (v : Visit s), Setup.make cwd inherited options surroundings = .ok s ∧
        v.own <:+: T ∧ v.result.report = t ∧ v.LookedAway := by
  obtain ⟨hnone, hstill, e, rfl, he⟩ | ⟨s, T', hmake, rfl, hsuite⟩ := judgeSuite_cases hm
  · refine ⟨fun _ t ht => ?_, fun _ => ⟨fun message heq => ?_, fun l reply hl => ?_⟩, fun t ht => ?_⟩
    · simp [hnone] at ht
    · exact he message (Except.error.inj heq)
    · exact absurd hl (hstill l reply)
    · simp [hnone] at ht
  obtain ⟨rfl, hoptions, rfl⟩ := Setup.make_ok hmake
  obtain ⟨htimely, hlaunched⟩ := Setup.runSuite_meets.makes hsuite
  have hlenient : ∀ t ∈ report.tests, t.status = .skipped →
      s.surroundings.pipeline = false ∧ t.name ∈ options.mayFailLocal := by
    intro t ht hskipped
    have hmay := (Setup.exists_lookedAway hsuite ht hskipped).1
    rw [hoptions] at hmay
    exact Options.mayFail_underPolicy hmay
  refine ⟨fun hpipeline t ht hskipped => ?_, fun hlocal => ⟨fun message he => ?_, ?_⟩, ?_⟩
  · cases hpipeline.symm.trans (hlenient t ht hskipped).1
  · subst he
    cases hlocal.symm.trans htimely
  · intro l reply hl
    have hunder := hoptions.trans (Options.underPolicy_of_local hlocal)
    have hstarted : Launched s l :=
      hlaunched (.start l) reply ((List.mem_cons.mp hl).resolve_left nofun)
    obtain ⟨hunlimited, hdirect⟩ := hstarted.direct hlocal (by rw [hunder])
    refine ⟨hunlimited, hdirect.imp (fun h => ?_) fun h => ⟨s, hmake, h⟩⟩
    rw [hunder] at h
    exact h
  · intro t ht hskipped
    obtain ⟨-, v, hown, hreport, haway⟩ := Setup.exists_lookedAway hsuite ht hskipped
    exact ⟨(hlenient t ht hskipped).2, s, v, hmake, List.infix_cons hown, hreport, haway⟩

end JudgeSuite

/-! The machine of two attempts again, outside a pipeline and with one attempt, for a test that may
fail: its first answer is wrong. -/

def lenientOptions : Options where
  mayFailLocal := ["1"]

theorem run_lenientSuite :
    ((judgeSuite (.ofString "/p") .empty lenientOptions {}).run secondTry 0).map
      (fun r => r.1.2.tests.map fun t => (t.name, t.status)) = some [("1", .skipped)] := by
  decide +kernel

/-- The test is skipped, its wrong answer looked away from. -/
theorem lenient_suite_looks_away :
    ∃ (s : Setup) (v : Visit s), Setup.make (.ofString "/p") .empty lenientOptions {} = .ok s ∧
      v.result.report.name = "1" ∧ v.result.report.status = .skipped ∧ v.LookedAway := by
  obtain ⟨⟨⟨r, report⟩, n⟩, hrun, htests⟩ := Option.map_eq_some_iff.mp run_lenientSuite
  obtain ⟨T, hm⟩ := Program.exists_makes hrun
  obtain ⟨-, -, haway⟩ := judgeSuite_modes_apart hm
  obtain ⟨t, ht, hstatus⟩ : ∃ t ∈ report.tests, (t.name, t.status) = ("1", .skipped) :=
    List.mem_map.mp (by rw [htests]; exact List.mem_cons_self)
  obtain ⟨hname, hskipped⟩ := Prod.mk.inj hstatus
  obtain ⟨-, s, v, hmake, -, rfl, hv⟩ := haway t ht hskipped
  exact ⟨s, v, hmake, hname, hskipped, hv⟩

end Judge
