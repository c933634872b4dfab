import Judge.Proofs.Tampering

/-!
# Proofs/KeptAnswers — the references that a passing suite leaves as they were

A round seals all references before its first test, and looks at each seal once, after the test that
it belongs to.  So when a suite passes, each reference was, after its own test, as at the beginning
of the round; but a later candidate may have changed it, and the next round seals what it finds.
`Host.passing_suite_keeps_own_references` says both: what is certain, and what has to be known of
the later tests for the references to be at the end what they were at first.

The states of a host are recorded as chapters, one for each round, of scenes, one for each test.
-/

namespace Judge

open List

/-! ## Stretches of a run -/

section Joined

variable {ι σ : Type} {first last : ι → σ} {a b : σ} {xs ys : List ι}

/-- **Stretches that follow on each other**, from `a` to `b`. -/
def Joined (first last : ι → σ) : σ → List ι → σ → Prop
  | a, [], b => a = b
  | a, x :: xs, b => first x = a ∧ Joined first last (last x) xs b

theorem joined_append (h : Joined first last a (xs ++ ys) b) :
    ∃ c, Joined first last a xs c ∧ Joined first last c ys b := by
  induction xs generalizing a with
  | nil => exact ⟨a, rfl, h⟩
  | cons x xs ih =>
    obtain ⟨hfirst, hrest⟩ := h
    obtain ⟨c, hxs, hys⟩ := ih hrest
    exact ⟨c, ⟨hfirst, hxs⟩, hys⟩

/-- **What each stretch preserves** holds at the end of all, and at the beginning of each. -/
theorem Joined.preserves {P : σ → Prop} (h : Joined first last a xs b) (ha : P a)
    (hstep : ∀ x ∈ xs, P (first x) → P (last x)) : P b ∧ ∀ x ∈ xs, P (first x) := by
  induction xs generalizing a with
  | nil =>
    obtain rfl : a = b := h
    exact ⟨ha, fun x hx => absurd hx not_mem_nil⟩
  | cons x xs ih =>
    obtain ⟨rfl, hrest⟩ := h
    obtain ⟨hb, hall⟩ := ih hrest (hstep x mem_cons_self ha)
      fun y hy => hstep y (mem_cons_of_mem x hy)
    refine ⟨hb, fun y hy => ?_⟩
    rcases mem_cons.mp hy with rfl | hy
    · exact ha
    · exact hall y hy

end Joined

variable {σ : Type} {H : Host σ} {s : Setup} {m : Metadata} {case : TestCase} {kept : Seal}
  {a b : σ}

/-! ## Scenes and chapters -/

/-- **A test that did not fail**, on a host. -/
structure Scene (H : Host σ) (s : Setup) where
  case : TestCase
  kept : Option Seal
  before : σ
  after : σ
  result : Runner.Result
  runs : H.Runs (Runner.runTest s case kept) before result after
  passed : result.error = none

/-- **A round without a failure**, on a host. -/
structure Chapter (H : Host σ) (s : Setup) where
  start : σ
  /-- The state in which all references are sealed. -/
  opened : σ
  finish : σ
  scenes : List (Scene H s)
  opens : ∃ (index : Nat) (announced : σ),
    H.Runs (Program.printLine ("Trying tests #" ++ toString index)) start () announced ∧
    H.Runs (Runner.prepareRound s).run announced
      (.ok (scenes.map fun scene => (scene.case, scene.kept))) opened
  joined : Joined Scene.before Scene.after opened scenes finish

/-- **A round spares a file**: once the test that it is the reference of is done, and all along if
there is none, every test leaves it with the digest that it found. -/
def Chapter.Spares (chapter : Chapter H s) (p : Path) : Prop :=
  ∃ earlier later, chapter.scenes = earlier ++ later ∧
    (∀ scene ∈ earlier.getLast?, scene.case.reference = p) ∧
    ∀ scene ∈ later, H.digest? scene.after p = H.digest? scene.before p

namespace Host

/-! ## Suites on a host -/

theorem runTests_scenes {tests : SealedTests} {report report' : Report}
    (h : H.Runs (Runner.runTests s tests report) a (.ok (), report') b) :
    ∃ scenes : List (Scene H s), (scenes.map fun scene => (scene.case, scene.kept)) = tests ∧
      Joined Scene.before Scene.after a scenes b := by
  induction tests generalizing a report with
  | nil =>
    obtain ⟨-, rfl⟩ := runs_pure h
    exact ⟨[], rfl, rfl⟩
  | cons test tests ih =>
    obtain ⟨c, result, htest, hrest⟩ := runs_bind h
    split at hrest
    · exact absurd (runs_pure hrest).1 nofun
    · rename_i hpassed
      obtain ⟨scenes, hscenes, hjoined⟩ := ih hrest
      exact ⟨⟨test.1, test.2, a, c, result, htest, hpassed⟩ :: scenes, by simp [hscenes], rfl,
        hjoined⟩

theorem runRounds_chapters {index left : Nat} {report report' : Report}
    (h : H.Runs (Runner.runRounds s index left report) a (.ok (), report') b) :
    ∃ chapters : List (Chapter H s), chapters.length = left ∧
      Joined Chapter.start Chapter.finish a chapters b := by
  induction left generalizing index a report with
  | zero =>
    obtain ⟨-, rfl⟩ := runs_pure h
    exact ⟨[], rfl, rfl⟩
  | succ left ih =>
    obtain ⟨announced, ⟨⟩, hbanner, h⟩ := runs_bind h
    obtain ⟨finish, ⟨r, report₁⟩, hround, h⟩ := runs_bind h
    cases r with
    | error e => exact absurd (runs_pure h).1 nofun
    | ok u =>
      obtain ⟨opened, prepared, hprepare, htests⟩ := runs_bind hround
      cases prepared with
      | error e => exact absurd (runs_pure htests).1 nofun
      | ok tests =>
        obtain ⟨scenes, rfl, hscenes⟩ := runTests_scenes htests
        obtain ⟨chapters, hlength, hjoined⟩ := ih h
        let chapter : Chapter H s :=
          ⟨a, opened, finish, scenes, ⟨index, announced, hbanner, hprepare⟩, hscenes⟩
        exact ⟨chapter :: chapters, by simp [hlength], rfl, hjoined⟩

/-- A test that does not fail ends with a look at its seal that finds it intact. -/
theorem tryFrom_runs {index left : Nat} {result : Runner.Result}
    (hprepare : s.options.prepareAnswers = false)
    (h : H.Runs (Runner.tryFrom s m case (some kept) index left) a result b)
    (hpassed : result.error = none) : H.Calm b ∧ H.digest? b kept.path = some kept.digest := by
  induction left generalizing index a with
  | zero =>
    obtain ⟨rfl, -⟩ := runs_pure h
    cases hpassed
  | succ left ih =>
    obtain ⟨c, r, hattempt, h⟩ := runs_bind h
    cases r with
    | ok attempt =>
      have hend : b = c := by
        unfold Runner.accept at h
        simp only [hprepare] at h
        exact (runs_pure h).2
      obtain ⟨_, _, _, _, _, _, -, -, -, hverdict | hintact⟩ := attempt_runs hattempt
      · cases hverdict
      · exact hend ▸ hintact
    | error e =>
      obtain ⟨d, ⟨⟩, -, h⟩ := runs_bind h
      split at h
      · exact ih h
      · obtain ⟨rfl, -⟩ := runs_pure h
        cases hpassed

end Host

section

variable (hprepare : s.options.prepareAnswers = false)

include hprepare

theorem Scene.intact (scene : Scene H s) (hkept : scene.kept = some kept) :
    H.Calm scene.after ∧ H.digest? scene.after kept.path = some kept.digest := by
  have hruns := scene.runs
  rw [hkept] at hruns
  obtain ⟨c, loaded, -, h⟩ := Host.runs_bind hruns
  cases loaded with
  | error e =>
    have hfailed := scene.passed
    rw [(Host.runs_pure h).1] at hfailed
    cases hfailed
  | ok m => exact Host.tryFrom_runs hprepare h scene.passed

namespace Chapter

variable (chapter : Chapter H s)

/-- **While a round is opened nothing changes**, and each reference is sealed as it is. -/
theorem opening (hcalm : H.Calm chapter.start) :
    H.Calm chapter.opened ∧ H.content chapter.opened = H.content chapter.start ∧
    ∀ scene ∈ chapter.scenes, ∃ digest, scene.kept = some ⟨scene.case.reference, digest⟩ ∧
      H.digest? chapter.start scene.case.reference = some digest := by
  obtain ⟨index, announced, hbanner, hprepared⟩ := chapter.opens
  obtain ⟨hcalm₁, hsame₁⟩ := hbanner.calm hcalm (Program.meets_printLine _)
  obtain ⟨hcalm₂, hsame₂, T, hmakes, hread⟩ := hprepared.quiet hcalm₁ Runner.prepareRound_meets
  refine ⟨hcalm₂, hsame₂.trans hsame₁, fun scene hscene => ?_⟩
  obtain ⟨sealed, hsealed, hkept⟩ := Runner.prepareRound_yields hprepare hmakes _
    (mem_map_of_mem hscene)
  refine ⟨Digest.ofBytes sealed, hkept, ?_⟩
  rw [← Host.digest?_congr hsame₁, Host.digest?, ← hread _ _ hsealed]
  rfl

/-- **After its own test a reference is as at the beginning of the round.** -/
theorem own_reference (hcalm : H.Calm chapter.start) {scene : Scene H s}
    (hscene : scene ∈ chapter.scenes) :
    H.Calm scene.after ∧ H.digest? scene.after scene.case.reference =
      H.digest? chapter.start scene.case.reference := by
  obtain ⟨-, -, hsealed⟩ := chapter.opening hprepare hcalm
  obtain ⟨digest, hkept, hdigest⟩ := hsealed scene hscene
  obtain ⟨hend, hintact⟩ := scene.intact hprepare hkept
  exact ⟨hend, hintact.trans hdigest.symm⟩

theorem calm_finish (hcalm : H.Calm chapter.start) : H.Calm chapter.finish :=
  (chapter.joined.preserves (chapter.opening hprepare hcalm).1 fun _ hscene _ =>
    (chapter.own_reference hprepare hcalm hscene).1).1

/-- **A file that a round spares** has at its end the digest that it had at its beginning. -/
theorem digest_finish (hcalm : H.Calm chapter.start) {p : Path} (hspares : chapter.Spares p) :
    H.digest? chapter.finish p = H.digest? chapter.start p := by
  obtain ⟨earlier, later, hscenes, hown, hlater⟩ := hspares
  have hjoined := chapter.joined
  rw [hscenes] at hjoined
  obtain ⟨c, hearlier, hrest⟩ := joined_append hjoined
  -- up to `c` the reference is what its own test left, which is what was sealed
  have hmiddle : H.digest? c p = H.digest? chapter.start p := by
    cases hlast : earlier.getLast? with
    | none =>
      obtain rfl := getLast?_eq_none_iff.mp hlast
      obtain rfl : chapter.opened = c := hearlier
      exact Host.digest?_congr (chapter.opening hprepare hcalm).2.1 p
    | some scene =>
      obtain ⟨init, rfl⟩ := getLast?_eq_some_iff.mp hlast
      obtain ⟨d, -, -, rfl⟩ := joined_append hearlier
      obtain rfl := hown scene hlast
      exact (chapter.own_reference hprepare hcalm (by simp [hscenes])).2
  refine (hrest.preserves (P := fun d => H.digest? d p = H.digest? chapter.start p) hmiddle
    fun scene hscene hbefore => ?_).1
  exact (hlater scene hscene).trans hbefore

end Chapter

end

/-- **What a passing suite leaves as it was.**  The suite falls into rounds.  After each test of a
round its reference has the digest that it had at the beginning of that round.  A file that every
round spares has at the end the digest that it had at first. -/
theorem Host.passing_suite_keeps_own_references (hprepare : s.options.prepareAnswers = false)
    (hcalm : H.Calm a) {report : Report} (h : H.Runs s.runSuite a (.ok (), report) b) :
    ∃ (chapters : List (Chapter H s)) (c : σ), chapters.length = max s.options.retests 1 ∧
      Joined Chapter.start Chapter.finish a chapters c ∧ H.content b = H.content c ∧
      (∀ chapter ∈ chapters, ∀ scene ∈ chapter.scenes,
        H.digest? scene.after scene.case.reference =
          H.digest? chapter.start scene.case.reference) ∧
      ∀ p, (∀ chapter ∈ chapters, chapter.Spares p) → H.digest? b p = H.digest? a p := by
  obtain ⟨c, ⟨r, report₁⟩, hrounds, h⟩ := runs_bind h
  cases r with
  | error e => exact absurd (runs_pure h).1 nofun
  | ok u =>
    obtain ⟨chapters, hlength, hjoined⟩ := runRounds_chapters hrounds
    obtain ⟨hend, hstarts⟩ := hjoined.preserves hcalm fun chapter _ hstart =>
      chapter.calm_finish hprepare hstart
    obtain ⟨d, ⟨⟩, hline, hpure⟩ := runs_bind h
    obtain ⟨-, rfl⟩ := runs_pure hpure
    obtain ⟨-, hsame⟩ := hline.calm hend (Program.meets_printLine _)
    refine ⟨chapters, c, hlength, hjoined, hsame, fun chapter hchapter scene hscene => ?_,
      fun p hspares => ?_⟩
    · exact (chapter.own_reference hprepare (hstarts chapter hchapter) hscene).2
    · rw [digest?_congr hsame]
      refine (hjoined.preserves (P := fun d => H.digest? d p = H.digest? a p) rfl
        fun chapter hchapter hstart => ?_).1
      have hcalm := hstarts chapter hchapter
      exact (chapter.digest_finish hprepare hcalm (hspares chapter hchapter)).trans hstart

/-! Two tests, where the candidate of the second changes the reference of the first. -/

/-- A host on which the reference of the first test changes when the second process is started. -/
def crossingHost : Host Nat :=
  Host.prompt ["1", "2"] (fun n p =>
    if p.extension? = some Discovery.referenceExtension then
      some (utf8 (if p.stem? = some (utf8 "1") ∧ n = 2 then "1\n" else "0\n"))
    else none) "0\n" 0

/-- The tests of the suite. -/
def crossingCases : List TestCase :=
  [Discovery.testCase (.ofString "/p/tests/1.dat") (.ofString "/p/tests/1.dir"),
    Discovery.testCase (.ofString "/p/tests/2.dat") (.ofString "/p/tests/2.dir")]

/-- The inputs are found in their order. -/
theorem discover_crossingHost :
    crossingHost.Runs (discover plainSetup.cwd plainSetup.options.problemDir
      plainSetup.options.testsDir).run 0 (.ok crossingCases) 0 := by
  have hlist : crossingHost.Runs (Program.onFiles (.list (.ofString "/p/tests"))) 0
      (.ok [utf8 "1.dat", utf8 "2.dat"]) 0 := rfl
  have hinputs : crossingHost.Runs (Discovery.inputs (.ofString "/p/tests")
      [utf8 "1.dat", utf8 "2.dat"]) 0 (crossingCases.map TestCase.input) 0 := by decide +kernel
  have hshared : crossingHost.Runs (Program.isDir (.ofString "/p/static")) 0 false 0 := by
    decide +kernel
  have hsorted : Discovery.sortPaths (crossingCases.map TestCase.input) =
      crossingCases.map TestCase.input := by
    refine mergeSort_of_pairwise ?_
    decide +kernel
  have hresolved : crossingHost.Runs
      ((crossingCases.map TestCase.input).mapM (Discovery.resolve none)).run 0
      (.ok crossingCases) 0 := by decide +kernel
  refine Host.Runs.act_bind hlist.ofProgram ?_
  refine Host.Runs.act_bind hinputs.ofProgram (Host.Runs.act_bind hshared.ofProgram ?_)
  rw [hsorted]
  exact hresolved

def crossingTests : SealedTests :=
  crossingCases.map fun c => (c, some ⟨c.reference, Digest.ofBytes (utf8 "0\n")⟩)

theorem runs_crossingHost :
    ∃ report, crossingHost.Runs plainSetup.runSuite 0 (.ok (), report) 2 := by
  have hprepared : crossingHost.Runs (Runner.prepareRound plainSetup).run 0 (.ok crossingTests) 0 :=
    discover_crossingHost.act_bind (by decide +kernel)
  have hpassed : ((Runner.runTests plainSetup crossingTests {}).run crossingHost.answer 0).map
      (fun r => (r.1.1, r.2)) = some (.ok (), 2) := by
    decide +kernel
  obtain ⟨⟨⟨r, report⟩, n⟩, htests, heq⟩ := Option.map_eq_some_iff.mp hpassed
  obtain ⟨rfl, rfl⟩ := Prod.mk.inj heq
  have hbanner : crossingHost.Runs (Program.printLine ("Trying tests #" ++ toString 0)) 0 () 0 := by
    decide +kernel
  have hclosing : crossingHost.Runs (Program.printLine "All tests passed") 2 () 2 := by
    decide +kernel
  have hround : crossingHost.Runs (Runner.runRound plainSetup {}) 0 (.ok (), report) 2 :=
    hprepared.bind htests
  have hrounds : crossingHost.Runs (Runner.runRounds plainSetup 0 1 {}) 0 (.ok (), report) 2 :=
    hbanner.bind (hround.bind rfl)
  exact ⟨_, hrounds.bind (hclosing.bind rfl)⟩

/-- The suite passes, and the first reference is not what it was. -/
theorem crossing_suite_passes :
    ∃ report, crossingHost.Runs plainSetup.runSuite 0 (.ok (), report) 2 ∧
      plainSetup.options.prepareAnswers = false ∧
      crossingHost.digest? 2 (.ofString "/p/tests/1.ans") ≠
        crossingHost.digest? 0 (.ofString "/p/tests/1.ans") := by
  obtain ⟨report, hrun⟩ := runs_crossingHost
  exact ⟨report, hrun, rfl, by decide +kernel⟩

theorem crossing_suite_keeps_second :
    ∃ chapters : List (Chapter crossingHost plainSetup), chapters.length = 1 ∧
      (∀ chapter ∈ chapters, ∀ scene ∈ chapter.scenes,
        crossingHost.digest? scene.after scene.case.reference =
          crossingHost.digest? chapter.start scene.case.reference) ∧
      crossingHost.digest? 2 (.ofString "/p/tests/2.ans") =
        crossingHost.digest? 0 (.ofString "/p/tests/2.ans") := by
  obtain ⟨report, hrun⟩ := runs_crossingHost
  obtain ⟨chapters, -, hlength, -, -, hown, hspared⟩ :=
    Host.passing_suite_keeps_own_references rfl trivial hrun
  refine ⟨chapters, hlength, hown, hspared _ fun chapter _ => ⟨[], chapter.scenes, rfl, ?_, ?_⟩⟩
  · exact fun scene hscene => absurd hscene nofun
  · have hother : (Path.ofString "/p/tests/2.ans").stem? ≠ some (utf8 "1") := by decide +kernel
    simp [crossingHost, Host.digest?, Host.prompt, hother]

end Judge
