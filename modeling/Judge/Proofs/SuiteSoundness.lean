import Judge.Proofs.Attempts
import Judge.Proofs.PassingRun
import Judge.Proofs.SuiteHistory

/-!
# Proofs/SuiteSoundness — a test that passed has earned it

`Setup.passed_tests_earned` is the soundness of the verdicts of a suite, whatever happens around it:
behind each test that a report calls passed stands an attempt, the last one of that test, in which
every check was made and succeeded.

The trace of such an attempt is a `Course`.  What is known of its parts is `Upheld`; its last
statement is that the comparison was with the reference as it was sealed before the round, provided
that the reference does not change once the candidate has ended.
-/

namespace Judge

open List
open Act (Yields not_yields_throw yields_bind yields_ofProgram yields_orElse yields_pure)
open Program (Makes answered_of_perform makes_bind makes_pure)

variable {s : Setup} {m : Metadata} {case : TestCase} {T : List Event}

/-! ## Nobody is left behind -/

/-- The file that tells the state and the parent of a process. -/
def ProcessTable.statOf (pid : Int) : Path :=
  (ProcessTable.dirOf ProcessTable.root pid).child "stat"

/-- **Nobody was left behind**: of the processes in the table, each that was found to be a child of
the judge had ended. -/
def NobodyLeft (T : List Event) : Prop :=
  ∃ (own : Pid) (names : List Bytes), Answered T .ownPid own ∧
    Answered T (.file (.list ProcessTable.root)) (.ok names) ∧
    ∀ pid ∈ names.filterMap ProcessTable.pidOfName?, ∃ reply,
      Answered T (.file (.read (ProcessTable.statOf pid))) reply ∧
      ∀ stat state, reply = .ok stat →
        ProcessTable.parseStat? stat = some (state, (own : Int)) → state = 'Z'

namespace ProcessTable

/-- The row of a process is what its file says. -/
theorem readEntry_makes {pid : Int} {r : Except JudgeError ProcessEntry}
    (hm : Makes (readEntry root pid).run T r) :
    ∃ reply, Answered T (.file (.read (statOf pid))) reply ∧
      ∀ stat state parent, reply = .ok stat → parseStat? stat = some (state, parent) →
        ∃ e, r = .ok e ∧ e.parent = parent ∧ e.state = state := by
  rcases Act.makes_bind hm with ⟨e, rfl, hread⟩ | ⟨T₁, data, T₂, rfl, hread, hrest⟩
  · obtain ⟨reply, hreply, he⟩ := Act.makes_orElse hread
    refine ⟨reply, answered_of_perform hreply, ?_⟩
    rintro stat state parent rfl
    cases he
  · have hreply := answered_of_perform (Act.yields_orElse hread)
    refine ⟨.ok data, hreply.mono (subset_append_left ..), ?_⟩
    rintro stat state parent heq hparse
    cases heq
    rw [hparse] at hrest
    rcases Act.makes_bind hrest with ⟨e, -, hcmdline⟩ | ⟨T₃, cmdline, T₄, -, -, hpure⟩
    · obtain ⟨_, he, -⟩ := Act.makes_ofProgram hcmdline
      cases he
    · obtain ⟨-, rfl⟩ := makes_pure hpure
      exact ⟨_, rfl, rfl, rfl⟩

variable {entries : List ProcessEntry}

theorem childrenAmong_makes {parent : Int} {pids : List Int}
    (hm : Makes (childrenAmong root parent pids) T entries) :
    ∀ pid ∈ pids, ∃ reply, Answered T (.file (.read (statOf pid))) reply ∧
      ∀ stat state, reply = .ok stat → parseStat? stat = some (state, parent) →
        ∃ e ∈ entries, e.state = state := by
  induction pids generalizing T entries with
  | nil => simp
  | cons pid pids ih =>
    obtain ⟨T₁, entry, T₂, rfl, hentry, hrest⟩ := makes_bind hm
    obtain ⟨T₃, others, T₄, rfl, hothers, hend⟩ := makes_bind hrest
    have hsub : others ⊆ entries := by
      cases entry with
      | ok e =>
        obtain ⟨-, rfl⟩ := makes_pure hend
        split <;> simp
      | error e =>
        obtain ⟨-, rfl⟩ := makes_pure hend
        simp
    intro p hp
    rcases mem_cons.mp hp with rfl | hp
    · obtain ⟨reply, hreply, hrow⟩ := readEntry_makes hentry
      refine ⟨reply, hreply.mono (subset_append_left ..), fun stat state hok hparse => ?_⟩
      obtain ⟨e, rfl, hparent, hstate⟩ := hrow stat state parent hok hparse
      obtain ⟨-, rfl⟩ := makes_pure hend
      exact ⟨e, by simp [hparent], hstate⟩
    · obtain ⟨reply, hreply, hrow⟩ := ih hothers p hp
      refine ⟨reply, hreply.mono fun e he => by simp [he], fun stat state hok hparse => ?_⟩
      obtain ⟨e, he, hstate⟩ := hrow stat state hok hparse
      exact ⟨e, hsub he, hstate⟩

theorem childrenOf_yields {parent : Int} (hy : Yields (childrenOf root parent) T entries) :
    ∃ names, Answered T (.file (.list root)) (.ok names) ∧
      ∀ pid ∈ names.filterMap pidOfName?, ∃ reply,
        Answered T (.file (.read (statOf pid))) reply ∧
        ∀ stat state, reply = .ok stat → parseStat? stat = some (state, parent) →
          ∃ e ∈ entries, e.state = state := by
  obtain ⟨T₁, names, T₂, rfl, hlist, hrest⟩ := yields_bind hy
  obtain ⟨T₃, found, T₄, rfl, hamong, hpure⟩ := yields_bind hrest
  obtain ⟨rfl, rfl⟩ := yields_pure hpure
  have hlist := answered_of_perform (Act.yields_orElse hlist)
  refine ⟨names, hlist.mono (subset_append_left ..), fun pid hpid => ?_⟩
  obtain ⟨reply, hreply, hrow⟩ := childrenAmong_makes (yields_ofProgram hamong) pid hpid
  refine ⟨reply, hreply.mono fun e he => by simp [he], fun stat state hok hparse => ?_⟩
  obtain ⟨e, he, hstate⟩ := hrow stat state hok hparse
  exact ⟨e, mem_mergeSort.mpr he, hstate⟩

end ProcessTable

namespace Runner

theorem living_makes (hm : Makes (living entries) T []) : ∀ e ∈ entries, e.isZombie = true := by
  induction entries generalizing T with
  | nil => simp
  | cons e entries ih =>
    unfold living at hm
    split at hm
    · rename_i hzombie
      obtain ⟨T₁, ended, T₂, -, -, hrest⟩ := makes_bind hm
      intro e' he'
      rcases mem_cons.mp he' with rfl | he'
      · exact hzombie
      · exact ih hrest e' he'
    · obtain ⟨T₁, others, T₂, -, -, hpure⟩ := makes_bind hm
      cases (makes_pure hpure).2

/-- **The check for processes left behind succeeds only if there are none.** -/
theorem verifyNoOrphans_yields (hy : Yields verifyNoOrphans T ()) : NobodyLeft T := by
  obtain ⟨T₁, own, T₂, rfl, hown, hrest⟩ := yields_bind hy
  obtain ⟨T₃, children, T₄, rfl, hchildren, hrest⟩ := yields_bind hrest
  obtain ⟨T₅, orphans, T₆, rfl, horphans, hif⟩ := yields_bind hrest
  have hnone : orphans = [] := by
    split at hif
    · rename_i hempty
      exact isEmpty_iff.mp hempty
    · obtain ⟨_, -, _, -, -, hthrow⟩ := yields_bind hif
      exact absurd hthrow not_yields_throw
  subst hnone
  have hzombies := living_makes (yields_ofProgram horphans)
  have hown := answered_of_perform (yields_ofProgram hown)
  obtain ⟨names, hlist, hrows⟩ := ProcessTable.childrenOf_yields hchildren
  refine ⟨own, names, hown.mono fun e he => by simp [he], hlist.mono fun e he => by simp [he],
    fun pid hpid => ?_⟩
  obtain ⟨reply, hreply, hrow⟩ := hrows pid hpid
  refine ⟨reply, hreply.mono fun e he => by simp [he], fun stat state hok hparse => ?_⟩
  obtain ⟨e, he, rfl⟩ := hrow stat state hok hparse
  simpa [ProcessEntry.isZombie] using hzombies e he

end Runner

/-! ## Seals -/

namespace Seal

theorem digestOf_yields {p : Path} {digest : String} (hy : Yields (digestOf p) T digest) :
    ∃ data, Answered T (.file (.read p)) (.ok data) ∧ digest = Digest.ofBytes data := by
  obtain ⟨data, rfl, hread⟩ := Act.yields_map hy
  exact ⟨data, answered_of_perform (Act.yields_orElse hread), rfl⟩

/-- **A seal holds only if the file is read and has the digest that it had.** -/
theorem verify_yields {kept : Seal} (hy : Yields kept.verify T ()) :
    ∃ data, Answered T (.file (.read kept.path)) (.ok data) ∧
      Digest.ofBytes data = kept.digest := by
  obtain ⟨T₁, intact, T₂, rfl, hintact, hif⟩ := yields_bind hy
  split at hif
  · rename_i htrue
    subst htrue
    obtain ⟨T₃, result, T₄, rfl, hdigest, hpure⟩ :=
      makes_bind (yields_ofProgram hintact)
    cases result with
    | error e => exact absurd (makes_pure hpure).2 nofun
    | ok digest =>
      obtain ⟨data, hread, rfl⟩ := digestOf_yields hdigest
      have hsame := (makes_pure hpure).2
      exact ⟨data, hread.mono fun e he => by simp [he], by simpa using hsame.symm⟩
  · exact absurd hif not_yields_throw

theorem take_yields {p : Path} {kept : Seal} (hy : Yields (take p) T kept) :
    ∃ data, Answered T (.file (.read p)) (.ok data) ∧ kept = ⟨p, Digest.ofBytes data⟩ := by
  obtain ⟨digest, rfl, hdigest⟩ := Act.yields_map hy
  obtain ⟨data, hread, rfl⟩ := digestOf_yields hdigest
  exact ⟨data, hread, rfl⟩

end Seal

/-! ## Attempts -/

/-- The parts of the trace of an attempt. -/
structure Course where
  before : List Event
  /-- From the start of the candidate to its end, and to that of its interactor. -/
  phase : List Event
  after : List Event
  census : List Event
  reseal : List Event
  ending : List Event

namespace Course

def trace (c : Course) : List Event :=
  c.before ++ c.phase ++ c.after ++ c.census ++ c.reseal ++ c.ending

/-- From the end of the candidate to the look at the seal. -/
def aftermath (c : Course) : List Event := c.after ++ c.census ++ c.reseal

end Course

/-- Whether the checker compares with the reference. -/
def Checker.compares : Checker → Bool
  | .ignore | .external _ => false
  | _ => true

/-- **The time was kept**: between the first call of the attempt and the look at the time, the
children used no more microseconds than the limit allows, if that matters. -/
def TimeKept (s : Setup) (m : Metadata) (c : Course) : Prop :=
  ∃ (first last : Nat) (rest rest' : List Event),
    c.before = ⟨.childTime, .ok first⟩ :: rest ∧ c.ending = ⟨.childTime, .ok last⟩ :: rest' ∧
    (s.surroundings.pipeline = true →
      (last - first) * 1000 ≤ (m.timeLimitOr s.surroundings.defaultTimeLimit).nanos)

/-- The file at `p` holds `content` all along a trace, as far as it is read. -/
def Holds (T : List Event) (p : Path) (content : Bytes) : Prop :=
  ∀ data, Answered T (.file (.read p)) (.ok data) → data = content

/-- **An attempt in which every check succeeded**, with `answer` produced and `sealed` the reference
before the round. -/
structure Upheld (s : Setup) (m : Metadata) (case : TestCase) (v : Invocation)
    (status : WaitStatus) (answer sealed : Bytes) (c : Course) : Prop where
  built : ∃ runDir, Invocation.build s.cwd s.inherited s.options m case runDir = .ok v
  reference : v.reference = case.reference
  passing : Passing s m case v c.phase c.after status answer
  nobodyLeft : NobodyLeft c.census
  resealed : ∃ data, Answered c.reseal (.file (.read case.reference)) (.ok data) ∧
    Digest.ofBytes data = Digest.ofBytes sealed
  timeKept : TimeKept s m c
  /-- If the reference does not change after the candidate has ended, and what it holds then does
  not collide with what was sealed, then the comparison was with what was sealed. -/
  against : s.checker.compares = true → ∀ content, Holds c.aftermath case.reference content →
    (Digest.ofBytes content = Digest.ofBytes sealed → content = sealed) →
    s.checker.compare s.surroundings.eps answer (s.expand sealed) = .ok ()

/-- **A comparison was with what was sealed**, if the reference did not change after the candidate
had ended. -/
theorem compare_sealed {v : Invocation} {code : Int} {answer sealed data content : Bytes}
    {c : Course} (hcompares : s.checker.compares = true)
    (hreference : v.reference = case.reference) (haccepted : Accepted s case v c.after code answer)
    (hread : Answered c.reseal (.file (.read case.reference)) (.ok data))
    (hdigest : Digest.ofBytes data = Digest.ofBytes sealed)
    (hholds : Holds c.aftermath case.reference content)
    (hdistinct : Digest.ofBytes content = Digest.ofBytes sealed → content = sealed) :
    s.checker.compare s.surroundings.eps answer (s.expand sealed) = .ok () := by
  obtain ⟨raw, hraw, hcompare⟩ : ∃ raw, Answered c.after (.file (.read case.reference)) (.ok raw) ∧
      s.checker.compare s.surroundings.eps answer (s.expand raw) = .ok () := by
    rw [← hreference]
    unfold Accepted at haccepted
    cases hchecker : s.checker with
    | ignore | «external» program => rw [hchecker] at hcompares; cases hcompares
    | _ =>
      rw [hchecker] at haccepted
      exact haccepted
  -- both readings are of the same content, and the second one has the digest of the seal
  have hraw : raw = content := hholds raw (hraw.mono fun e he => by simp [Course.aftermath, he])
  have hdata : data = content := hholds data (hread.mono fun e he => by simp [Course.aftermath, he])
  have hsealed : content = sealed := hdistinct (hdata ▸ hdigest)
  rw [← hsealed, ← hraw]
  exact hcompare

namespace Runner

theorem childTime_yields {time : Span} (hy : Yields childTime T time) :
    ∃ micros : Nat, T = [⟨.childTime, .ok micros⟩] ∧ time = ⟨micros * 1000⟩ := by
  obtain ⟨T₁, micros, T₂, rfl, hcall, hpure⟩ := yields_bind hy
  obtain rfl := Program.makes_perform (yields_orElse hcall)
  obtain ⟨rfl, rfl⟩ := yields_pure hpure
  exact ⟨micros, rfl, rfl⟩

theorem checkTime_yields {pipeline : Bool} {used limit : Span}
    (hy : Yields (checkTime pipeline used limit) T ()) (hpipeline : pipeline = true) :
    used.nanos ≤ limit.nanos := by
  subst hpipeline
  unfold checkTime at hy
  split at hy
  · assumption
  · exact absurd hy not_yields_throw

/-- The look at the time, which in a pipeline succeeds only if the time was kept. -/
theorem timing_yields {before : Span} {first : Nat} (hbefore : before = ⟨first * 1000⟩)
    {o : Outcome} {a : Attempt} (hy : Yields (timing s m before o) T a) :
    ∃ (last : Nat) (ending : List Event), T = ⟨.childTime, .ok last⟩ :: ending ∧ o = a.outcome ∧
      (s.surroundings.pipeline = true →
        (last - first) * 1000 ≤ (m.timeLimitOr s.surroundings.defaultTimeLimit).nanos) := by
  obtain ⟨T₁, after, T₂, rfl, hlast, hrest⟩ := yields_bind hy
  obtain ⟨T₃, ⟨⟩, T₄, rfl, htime, hpure⟩ := yields_bind hrest
  obtain ⟨rfl, rfl⟩ := yields_pure hpure
  obtain ⟨last, rfl, rfl⟩ := childTime_yields hlast
  refine ⟨last, T₃, by simp, rfl, fun hpipeline => ?_⟩
  have hle := checkTime_yields htime hpipeline
  rw [hbefore] at hle
  dsimp only at hle
  omega

variable {kept : Option Seal}

/-- **The parts of an attempt that succeeds**: a run that does, with the checks around it. -/
theorem attempt_yields {a : Attempt} (hy : Yields (attempt s m case kept) T a) :
    ∃ (first : Nat) (run census reseal : List Event) (last : Nat) (ending : List Event),
      T = ⟨.childTime, .ok first⟩ :: run ++ census ++ reseal ++ ⟨.childTime, .ok last⟩ :: ending ∧
      Yields (Sandbox.run s m case) run a.outcome ∧ NobodyLeft census ∧
      (∀ k, kept = some k → ∃ data, Answered reseal (.file (.read k.path)) (.ok data) ∧
        Digest.ofBytes data = k.digest) ∧
      (s.surroundings.pipeline = true →
        (last - first) * 1000 ≤ (m.timeLimitOr s.surroundings.defaultTimeLimit).nanos) := by
  obtain ⟨T₁, before, T₂, rfl, hfirst, h₁⟩ := yields_bind hy
  obtain ⟨T₃, result, T₄, rfl, hrun, h₂⟩ := yields_bind h₁
  obtain ⟨T₅, ⟨⟩, T₆, rfl, hcensus, h₃⟩ := yields_bind h₂
  obtain ⟨T₇, outcome, T₈, rfl, hresult, h₄⟩ := yields_bind h₃
  obtain ⟨rfl, rfl⟩ := Act.yields_ofExcept hresult
  obtain ⟨first, rfl, hbefore⟩ := childTime_yields hfirst
  have hrun := yields_ofProgram hrun
  have hcensus := verifyNoOrphans_yields hcensus
  cases kept with
  | none =>
    obtain ⟨last, ending, rfl, rfl, htime⟩ := timing_yields hbefore h₄
    exact ⟨first, T₃, T₅, [], last, ending, by simp, hrun, hcensus, nofun, htime⟩
  | some k =>
    obtain ⟨T₉, ⟨⟩, T₁₀, rfl, hverify, h₅⟩ := yields_bind h₄
    obtain ⟨last, ending, rfl, rfl, htime⟩ := timing_yields hbefore h₅
    refine ⟨first, T₃, T₅, T₉, last, ending, by simp, hrun, hcensus, fun k' hk => ?_, htime⟩
    cases hk
    exact Seal.verify_yields hverify

section

variable (hprepare : s.options.prepareAnswers = false)

include hprepare

/-- **In an attempt that succeeds, and in which nothing was looked away from, every check
succeeded.** -/
theorem attempt_upheld {sealed : Bytes} {a : Attempt} (hskipped : a.outcome.skipped = false)
    (hy : Yields (attempt s m case (some ⟨case.reference, Digest.ofBytes sealed⟩)) T a) :
    ∃ c v status answer, T = c.trace ∧ Upheld s m case v status answer sealed c := by
  obtain ⟨first, run, census, reseal, last, ending, rfl, hrun, hcensus, hsealed, htime⟩ :=
    attempt_yields hy
  obtain ⟨runDir, v, before, phase, after, status, answer, hbuilt, rfl, hpassing⟩ :=
    Sandbox.run_passing hprepare hskipped hrun
  have hreference := Invocation.build_reference hbuilt
  obtain ⟨data, hread, hdigest⟩ := hsealed _ rfl
  refine ⟨⟨⟨.childTime, .ok first⟩ :: before, phase, after, census, reseal,
    ⟨.childTime, .ok last⟩ :: ending⟩, v, status, answer, by simp [Course.trace], ?_⟩
  refine ⟨⟨runDir, hbuilt⟩, hreference, hpassing, hcensus, ⟨data, hread, hdigest⟩,
    ⟨first, last, before, ending, rfl, rfl, htime⟩, fun hcompares content => ?_⟩
  exact compare_sealed hcompares hreference hpassing.accepted hread hdigest

/-! ## Tests and rounds -/

/-- **A test passes by its last attempt.** -/
theorem runTest_passed {result : Result}
    (hm : Makes (runTest s case kept) T result) (hpassed : result.report.status = .passed) :
    ∃ m loading lead last a, T = loading ++ lead ++ last ∧
      Yields (loadMetadata case.info) loading m ∧
      Yields (attempt s m case kept) last a ∧ a.outcome.skipped = false := by
  obtain ⟨e, rfl⟩ | ⟨m, loading, lead, ⟨own, outcome, hown, line⟩, closing, k, rfl, hload, htold,
    hconcludes⟩ := runTest_ends hm
  · cases hpassed
  cases hconcludes with
  | failed e | unrecorded a e => cases hpassed
  | recorded a htrue =>
    rw [hprepare] at htrue
    cases htrue
  | accepted a =>
    obtain rfl : line = [] := htold
    refine ⟨m, loading, lead, own, a, by simp [Try.trace], hload, hown, ?_⟩
    cases hskipped : a.outcome.skipped with
    | false => rfl
    | true => simp [hskipped] at hpassed

theorem sealReference_yields (hy : Yields (sealReference s case) T kept) :
    ∃ sealed, Answered T (.file (.read case.reference)) (.ok sealed) ∧
      kept = some ⟨case.reference, Digest.ofBytes sealed⟩ := by
  obtain ⟨T₁, isFile, T₂, rfl, -, hif⟩ := yields_bind hy
  cases isFile with
  | true =>
    obtain ⟨T₃, taken, T₄, rfl, htake, hpure⟩ := yields_bind hif
    obtain ⟨-, rfl⟩ := yields_pure hpure
    obtain ⟨sealed, hread, rfl⟩ := Seal.take_yields htake
    exact ⟨sealed, hread.mono fun e he => by simp [he], rfl⟩
  | false =>
    simp only [hprepare] at hif
    exact absurd hif not_yields_throw

/-- **Every test of a round has its reference sealed** before the first of them is run. -/
theorem prepareRound_yields {tests : SealedTests}
    (hy : Yields (prepareRound s) T tests) :
    ∀ test ∈ tests, ∃ sealed, Answered T (.file (.read test.1.reference)) (.ok sealed) ∧
      test.2 = some ⟨test.1.reference, Digest.ofBytes sealed⟩ := by
  obtain ⟨T₁, found, T₂, rfl, -, hrest⟩ := yields_bind hy
  split at hrest
  · obtain ⟨_, _, _, -, hthrow, -⟩ := yields_bind hrest
    exact absurd hthrow not_yields_throw
  · obtain ⟨T₃, seals, T₄, rfl, hseals, hpure⟩ := yields_bind hrest
    obtain ⟨-, rfl⟩ := yields_pure hpure
    intro test htest
    obtain ⟨T₅, hsub, htaken⟩ := Act.yields_mapM hseals test htest
    obtain ⟨sealed, hread, hkept⟩ := sealReference_yields hprepare htaken
    exact ⟨sealed, hread.mono fun e he => by simp [hsub he], hkept⟩

end

end Runner

/-! ## The suite -/

/-- **A test has earned its verdict**: the last thing that was done for it is an attempt in which
every check succeeded, with the record of the test, and with the reference as it was read while the
round was opened. -/
def Visit.Earned (v : Visit s) (opening : List Event) : Prop :=
  ∃ (m : Metadata) (sealed : Bytes) (loading lead : List Event) (c : Course) (inv : Invocation)
      (status : WaitStatus) (answer : Bytes),
    v.own = loading ++ lead ++ c.trace ∧
    Yields (Runner.loadMetadata v.case.info) loading m ∧
    (∃ a, Yields (Runner.attempt s m v.case v.kept) c.trace a) ∧
    Answered opening (.file (.read v.case.reference)) (.ok sealed) ∧
    v.kept = some ⟨v.case.reference, Digest.ofBytes sealed⟩ ∧
    Upheld s m v.case inv status answer sealed c

theorem Round.earned (hprepare : s.options.prepareAnswers = false) (round : Round s) {v : Visit s}
    (hv : v ∈ round.visits) (hpassed : v.result.report.status = .passed) :
    v.Earned round.opening := by
  obtain ⟨sealed, hread, hkept⟩ :=
    Runner.prepareRound_yields hprepare round.prepared _ (round.mem_tests hv)
  obtain ⟨m, loading, lead, last, a, hown, hload, hlast, hskipped⟩ :=
    Runner.runTest_passed hprepare v.makes hpassed
  dsimp only at hread hkept
  have hattempt := hlast
  rw [hkept] at hattempt
  obtain ⟨c, inv, status, answer, rfl, hupheld⟩ :=
    Runner.attempt_upheld hprepare hskipped hattempt
  exact ⟨m, sealed, loading, lead, c, inv, status, answer, hown, hload, ⟨a, hlast⟩, hread, hkept,
    hupheld⟩

/-- **A test that passed has earned it.**  Whatever is answered while a suite is judged, its trace
falls into rounds, the tests of the report are the tests of these rounds in their order, and each of
them that is reported as passed has earned it. -/
theorem Setup.passed_tests_earned (s : Setup) (hprepare : s.options.prepareAnswers = false)
    {T : List Event} {r : Except JudgeError Unit} {report : Report}
    (hm : Program.Makes s.runSuite T (r, report)) :
    ∃ (rounds : List (Round s)) (closing : List Event),
      T = rounds.flatMap Round.trace ++ closing ∧
      report.tests = rounds.flatMap Round.reports ∧
      ∀ round ∈ rounds, ∀ v ∈ round.visits, v.result.report.status = .passed →
        v.Earned round.opening := by
  obtain ⟨rounds, closing, hT, htests⟩ := Setup.runSuite_history hm
  exact ⟨rounds, closing, hT, htests, fun round _ v hv hpassed => round.earned hprepare hv hpassed⟩

/-! A machine on which a candidate gives a wrong answer at first and the right one at its second
attempt, with a child of the judge that has ended and was not waited for. -/

/-- A setup in a pipeline, with two attempts for a test. -/
def twoAttempts : Setup :=
  { plainSetup with options := { retries := 2 }, surroundings := { pipeline := true } }

/-- What the machine says about its files. -/
def secondTryFiles : (c : FileCall) → Option c.Reply
  | .list p => some (.ok [utf8 (if p = ProcessTable.root then "7" else "1.dat")])
  | .read p =>
    if p.extension? = some Discovery.referenceExtension then some (.ok (utf8 "4\n"))
    else if p = ProcessTable.statOf 7 then some (.ok (utf8 "7 (x) Z 1 "))
    else some (.error .noEntry)
  | .kind p =>
    if p.extension? = some Discovery.inputExtension ∨
        p.extension? = some Discovery.referenceExtension then some (.ok (.file 0o644 2))
    else some (.error .noEntry)
  | .removeTree _ | .makeDir _ | .write .. => some (.ok ())
  | _ => none

/-- The machine; its state counts the processes that were started. -/
def secondTry : Program.Handler Nat
  | .file c, n => (secondTryFiles c).map fun r => (r, n)
  | .openFile .., n => some (.ok 3, n)
  | .start _, n => some (.ok { pid := 7, stdout := some 4 }, n + 1)
  | .drain .., n => some (.ok (utf8 (if n = 1 then "5\n" else "4\n")), n)
  | .close _, n => some ((), n)
  | .write _ data, n => some (.ok data.length, n)
  | .wait _, n => some (.ok (.exited 0), n)
  | .poll _, n => some (some (.exited 0), n)
  | .ownPid, n => some ((1 : Nat), n)
  | .childTime, n => some (.ok (n * 1000), n)
  | .adopt, n => some (.ok (), n)
  | _, _ => none

theorem run_secondTry :
    ((twoAttempts.runSuite.run secondTry 0).map fun r =>
      r.1.2.tests.map fun t => (t.attempts, t.status)) = some [(2, .passed)] := by
  decide +kernel

/-- The test passes at its second attempt, and has earned it. -/
theorem second_try_earned :
    ∃ (round : Round twoAttempts) (v : Visit twoAttempts), v ∈ round.visits ∧
      v.result.report.attempts = 2 ∧ v.result.report.status = .passed ∧
      v.Earned round.opening := by
  obtain ⟨⟨⟨r, report⟩, n⟩, hrun, htests⟩ := Option.map_eq_some_iff.mp run_secondTry
  obtain ⟨T, hm⟩ := Program.exists_makes hrun
  obtain ⟨rounds, closing, -, hreports, hearned⟩ :=
    Setup.passed_tests_earned twoAttempts rfl hm
  obtain ⟨t, ht, hattempts⟩ : ∃ t ∈ report.tests, (t.attempts, t.status) = (2, .passed) :=
    List.mem_map.mp (by rw [htests]; exact List.mem_cons_self)
  rw [hreports] at ht
  obtain ⟨round, hround, hmem⟩ := List.mem_flatMap.mp ht
  obtain ⟨v, hv, rfl⟩ := List.mem_map.mp hmem
  obtain ⟨htwo, hpassed⟩ := Prod.mk.inj hattempts
  exact ⟨round, v, hv, htwo, hpassed, hearned round hround v hv hpassed⟩

end Judge
