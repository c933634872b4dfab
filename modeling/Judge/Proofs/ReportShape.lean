import Judge.Proofs.Retries

/-!
# Proofs/ReportShape — the report of a suite agrees with how it ended

    clean, clean, …, clean                    the suite passed, or failed outside of its tests
    clean, clean, …, clean, the error         it failed in the test that comes last

The report is filled test by test, across rounds, and the suite may end before, in or after each of
them.  What holds at every such end is an invariant of the visits (`Visited.course`), carried over
to the rounds (`Begun.course`) and to the suite (`Chronicle.reports_course`).

A round goes through the tests that were discovered for it (`Begun.inOrder`).  It is not ready to do
so if there are none, or if one of them has no reference and should have one; then it neither
reports nor starts anything (`Begun.idle_of_unready`).
-/

namespace Judge

open List

variable {s : Setup} {case : TestCase} {T : List Event}

/-! ## Entries -/

/-- **An entry without a failure.** -/
def TestReport.Clean (t : TestReport) : Prop :=
  (t.status = .passed ∨ t.status = .skipped) ∧ t.error = none

/-- **An entry that tells an error.** -/
def TestReport.Tells (t : TestReport) (e : JudgeError) : Prop :=
  t.status = .failed ∧ t.error = some e.text

theorem TestReport.Clean.not_failed {t : TestReport} (h : t.Clean) : t.status ≠ .failed := by
  rcases h.1 with hstatus | hstatus <;> simp [hstatus]

namespace Runner

/-- **A test is reported as it ended**: under its name, and clean unless it tells the error. -/
def Result.Reported (case : TestCase) (result : Result) : Prop :=
  result.report.name = case.name ∧
    (result.error = none ∧ result.report.Clean ∨
      ∃ e, result.error = some e ∧ result.report.Tells e)

theorem Concludes.reported {k : Nat} {outcome : Except JudgeError Attempt} {result : Result}
    (h : Concludes s case k outcome T result) : result.Reported case := by
  -- a success is `skipped` or `passed`, whichever its flag says
  have hclean (a : Attempt) : (if a.outcome.skipped then Status.skipped else .passed) = .passed ∨
      (if a.outcome.skipped then Status.skipped else .passed) = .skipped := by
    cases a.outcome.skipped <;> simp
  cases h with
  | failed e => exact ⟨rfl, .inr ⟨e, rfl, rfl, rfl⟩⟩
  | accepted a | recorded a => exact ⟨rfl, .inl ⟨rfl, hclean a, rfl⟩⟩
  | unrecorded a e => exact ⟨rfl, .inr ⟨_, rfl, rfl, rfl⟩⟩

theorem runTest_reported {kept : Option Seal} {result : Result}
    (hm : Program.Makes (runTest s case kept) T result) : result.Reported case := by
  obtain ⟨e, rfl⟩ | ⟨m, loading, lead, last, closing, k, -, -, -, hconcludes⟩ := runTest_ends hm
  · exact ⟨rfl, .inr ⟨e, rfl, rfl, rfl⟩⟩
  · exact hconcludes.reported

end Runner

namespace Visit

theorem name_eq (v : Visit s) : v.result.report.name = v.case.name :=
  (Runner.runTest_reported v.makes).1

theorem clean {v : Visit s} (h : v.result.error = none) : v.result.report.Clean := by
  rcases (Runner.runTest_reported v.makes).2 with ⟨-, hclean⟩ | ⟨e, herror, -⟩
  · exact hclean
  · rw [h] at herror
    cases herror

theorem tells {v : Visit s} {e : JudgeError} (h : v.result.error = some e) :
    v.result.report.Tells e := by
  rcases (Runner.runTest_reported v.makes).2 with ⟨hnone, -⟩ | ⟨e', herror, htells⟩
  · rw [h] at hnone
    cases hnone
  · rw [h] at herror
    cases herror
    exact htells

end Visit

/-! ## Rounds -/

/-- **How the visits end**: all tests were visited and none failed, or the last one visited is the
only one that failed. -/
theorem Visited.course {tests : SealedTests} {visits : List (Visit s)}
    {r : Except JudgeError Unit} (h : Visited tests visits r) :
    (r = .ok () ∧ visits.map (fun v => (v.case, v.kept)) = tests ∧
      ∀ v ∈ visits, v.result.error = none) ∨
    ∃ e lead last, r = .error e ∧ visits = lead ++ [last] ∧ last.result.error = some e ∧
      ∀ v ∈ lead, v.result.error = none := by
  induction h with
  | nil => exact .inl ⟨rfl, rfl, forall_mem_nil _⟩
  | @failed v rest e herror => exact .inr ⟨e, [], v, rfl, rfl, herror, forall_mem_nil _⟩
  | @passed v rest visits r hnone _ ih =>
    rcases ih with ⟨rfl, hall, hgood⟩ | ⟨e, lead, last, rfl, rfl, herror, hgood⟩
    · refine .inl ⟨rfl, ?_, forall_mem_cons.mpr ⟨hnone, hgood⟩⟩
      rw [map_cons, hall]
    · exact .inr ⟨e, v :: lead, last, rfl, rfl, herror, forall_mem_cons.mpr ⟨hnone, hgood⟩⟩

namespace Begun

variable {b : Begun s}

/-- **A test of the round raised the error.** -/
def Raises (b : Begun s) (e : JudgeError) : Prop :=
  ∃ v, b.visits.getLast? = some v ∧ v.result.error = some e

/-- **How a round ends**: with clean entries only, and then no test of it raised an error, or with
one entry more for the test that raised the error of the round. -/
theorem course (b : Begun s) :
    ∃ clean : List TestReport, (∀ t ∈ clean, t.Clean) ∧
      (b.reports = clean ∧ (∀ e, ¬ b.Raises e) ∨
        ∃ e t, b.reports = clean ++ [t] ∧ t.Tells e ∧ b.Raises e ∧ b.result = .error e) := by
  cases hprepared : b.prepared with
  | error e =>
    obtain ⟨hnone, -⟩ := visits_of_unprepared hprepared
    refine ⟨[], nofun, .inl ⟨by rw [reports, hnone]; rfl, fun e' hraises => ?_⟩⟩
    obtain ⟨v, hv, -⟩ := hraises
    rw [hnone] at hv
    cases hv
  | ok tests =>
    rcases (visited_of_prepared hprepared).course with
      ⟨-, -, hgood⟩ | ⟨e, lead, last, hr, hvisits, herror, hgood⟩
    · refine ⟨b.reports, fun t ht => ?_, .inl ⟨rfl, fun e hraises => ?_⟩⟩
      · obtain ⟨v, hv, rfl⟩ := mem_map.mp ht
        exact Visit.clean (hgood v hv)
      · obtain ⟨v, hv, herror⟩ := hraises
        rw [hgood v (mem_of_getLast? hv)] at herror
        cases herror
    · refine ⟨lead.map fun v => v.result.report, fun t ht => ?_, .inr
        ⟨e, last.result.report, ?_, Visit.tells herror, ⟨last, ?_, herror⟩, hr⟩⟩
      · obtain ⟨v, hv, rfl⟩ := mem_map.mp ht
        exact Visit.clean (hgood v hv)
      · rw [reports, hvisits, map_append, map_singleton]
      · rw [hvisits, getLast?_concat]

/-- The entries of a round that did not fail are clean. -/
theorem clean_of_passed (h : b.result = .ok ()) : ∀ t ∈ b.reports, t.Clean := by
  obtain ⟨clean, hclean, ⟨hreports, -⟩ | ⟨e, t, -, -, -, hr⟩⟩ := b.course
  · rw [hreports]
    exact hclean
  · rw [h] at hr
    cases hr

/-! ## Discovered tests -/

/-- **The tests that were discovered for a round**, before any reference was sealed. -/
def Discovers (b : Begun s) (looking : List Event) (found : List TestCase) (sealing : List Event) :
    Prop :=
  b.opening = looking ++ sealing ∧
    Act.Yields (discover s.cwd s.options.problemDir s.options.testsDir) looking found

/-- **The entries of a round**: the tests that were discovered, in order and without gaps, up to the
one that failed. -/
structure InOrder (b : Begun s) (found : List TestCase) : Prop where
  cases : b.visits.map Visit.case <+: found
  names : b.reports.map TestReport.name = b.visits.map fun v => v.case.name
  upToFailure : b.result = .ok () ∧ b.visits.map Visit.case = found ∨
    (∃ e, b.result = .error e ∧ b.Raises e) ∨ ∃ e, b.prepared = .error e ∧ b.visits = []

end Begun

namespace Runner

/-- **The preparation after the tests were discovered.** -/
theorem prepareRound_of_found {looking sealing : List Event} {found : List TestCase}
    {prepared : Except JudgeError SealedTests}
    (hfound : Act.Yields (discover s.cwd s.options.problemDir s.options.testsDir) looking found)
    (hm : Program.Makes (prepareRound s).run (looking ++ sealing) prepared) :
    (∃ e, prepared = .error e) ∨ found ≠ [] ∧ ∃ seals,
      Act.Yields (found.mapM (sealReference s)) sealing seals ∧
        prepared = .ok (found.zip seals) := by
  have hrest := hfound.of_bind hm
  split at hrest
  · rcases Act.makes_bind hrest with ⟨e, rfl, -⟩ | ⟨T₁, u, T₂, -, hthrow, -⟩
    · exact .inl ⟨e, rfl⟩
    · exact absurd hthrow Act.not_yields_throw
  · rename_i hne
    rcases Act.makes_bind hrest with ⟨e, rfl, -⟩ | ⟨T₁, seals, T₂, rfl, hseals, hpure⟩
    · exact .inl ⟨e, rfl⟩
    · obtain ⟨rfl, rfl⟩ := Program.makes_pure hpure
      refine .inr ⟨by simpa using hne, seals, ?_, rfl⟩
      rwa [append_nil]

/-- A reference is sealed without prepared answers only if there is a file. -/
theorem sealReference_isFile {kept : Option Seal} (hprepare : s.options.prepareAnswers = false)
    (hy : Act.Yields (sealReference s case) T kept) :
    ∃ k, Answered T (.file (.kind case.reference)) (.ok k) ∧ k.isFile = true := by
  obtain ⟨T₁, isFile, T₂, rfl, hkind, hif⟩ := Act.yields_bind hy
  obtain ⟨T₃, reply, T₄, rfl, hcall, hpure⟩ := Program.makes_bind (Act.yields_ofProgram hkind)
  have hanswered := Program.answered_of_perform hcall
  cases isFile with
  | true =>
    cases reply with
    | ok k =>
      obtain ⟨-, hfile⟩ := Program.makes_pure hpure
      exact ⟨k, hanswered.mono fun e he => by simp [he], hfile.symm⟩
    | error e => exact absurd (Program.makes_pure hpure).2 nofun
  | false =>
    simp only [hprepare] at hif
    exact absurd hif Act.not_yields_throw

end Runner

/-- **No answer says that there is a file** at `p`. -/
def Lacks (T : List Event) (p : Path) : Prop :=
  ∀ k, Answered T (.file (.kind p)) (.ok k) → k.isFile = false

namespace Begun

variable {b : Begun s} {looking sealing : List Event} {found : List TestCase}

/-- **A round goes through the tests that were discovered.** -/
theorem inOrder (h : b.Discovers looking found sealing) : b.InOrder found := by
  have hnames : b.reports.map TestReport.name = b.visits.map fun v => v.case.name := by
    rw [reports, map_map]
    exact map_congr_left fun v _ => v.name_eq
  cases hprepared : b.prepared with
  | error e =>
    obtain ⟨hnone, -⟩ := visits_of_unprepared hprepared
    refine ⟨?_, hnames, .inr (.inr ⟨e, hprepared, hnone⟩)⟩
    rw [hnone]
    exact nil_prefix
  | ok tests =>
    have hmakes := b.makes
    rw [h.1, hprepared] at hmakes
    obtain ⟨e, he⟩ | ⟨-, seals, hseals, htests⟩ := Runner.prepareRound_of_found h.2 hmakes
    · cases he
    -- the tests of the round are those that were discovered, each with its seal
    have hcases : tests.map Prod.fst = found := by
      rw [Except.ok.inj htests, map_fst_zip (Act.length_of_mapM hseals).ge]
    have hvisited := visited_of_prepared hprepared
    have hfirst : b.visits.map Visit.case =
        (b.visits.map fun v => (v.case, v.kept)).map Prod.fst := by
      rw [map_map]
      rfl
    refine ⟨?_, hnames, ?_⟩
    · rw [hfirst, ← hcases]
      exact hvisited.isPrefix.map Prod.fst
    · rcases hvisited.course with ⟨hr, hall, -⟩ | ⟨e, lead, last, hr, hvisits, herror, -⟩
      · exact .inl ⟨hr, by rw [hfirst, hall, hcases]⟩
      · refine .inr (.inl ⟨e, hr, last, ?_, herror⟩)
        rw [hvisits, getLast?_concat]

/-- **A round that comes to nothing**: it fails, and it neither reports nor starts anything. -/
def Idle (b : Begun s) : Prop :=
  (∃ e, b.result = .error e) ∧ b.reports = [] ∧ launches b.trace = []

theorem idle_of_unprepared {e : JudgeError} (hprepared : b.prepared = .error e) : b.Idle := by
  obtain ⟨hnone, hr⟩ := visits_of_unprepared hprepared
  obtain ⟨text, hbanner⟩ := b.announced
  have hbanner' := Program.Meets.launches_eq_nil (Program.meets_printLine text) hbanner
  have hopening := Program.Meets.launches_eq_nil Runner.prepareRound_meets b.makes
  refine ⟨⟨e, hr⟩, by rw [reports, hnone, map_nil], ?_⟩
  rw [trace, hnone, launches_append, launches_append, hbanner', hopening]
  rfl

/-- **The tests of a round are discovered**, or it comes to nothing. -/
theorem discovers_or_idle (b : Begun s) :
    (∃ looking found sealing, b.Discovers looking found sealing) ∨ b.Idle := by
  rcases Act.makes_bind b.makes with ⟨e, he, -⟩ | ⟨looking, found, sealing, hopening, hfound, -⟩
  · exact .inr (idle_of_unprepared he)
  · exact .inl ⟨looking, found, sealing, hopening, hfound⟩

/-- **A round is not ready**: there is no test, or one has no reference and should have one. -/
def Unready (s : Setup) (found : List TestCase) (sealing : List Event) : Prop :=
  found = [] ∨ s.options.prepareAnswers = false ∧ ∃ case ∈ found, Lacks sealing case.reference

theorem prepared_of_unready (h : b.Discovers looking found sealing)
    (hunready : Unready s found sealing) : ∃ e, b.prepared = .error e := by
  have hmakes := b.makes
  rw [h.1] at hmakes
  obtain hfailed | ⟨hne, seals, hseals, -⟩ := Runner.prepareRound_of_found h.2 hmakes
  · exact hfailed
  obtain hnil | ⟨hprepare, case, hcase, hlacks⟩ := hunready
  · exact absurd hnil hne
  -- all references were sealed, so that of the test was there
  obtain ⟨i, hi, rfl⟩ := mem_iff_getElem.mp hcase
  have hi' : i < (found.zip seals).length := by
    rw [length_zip, Act.length_of_mapM hseals]
    omega
  have hmem := getElem_mem hi'
  obtain ⟨T₁, hsub, hsealed⟩ := Act.yields_mapM hseals _ hmem
  rw [getElem_zip] at hsealed
  obtain ⟨k, hkind, hfile⟩ := Runner.sealReference_isFile hprepare hsealed
  rw [hlacks k (hkind.mono hsub)] at hfile
  cases hfile

/-- **A round that is not ready comes to nothing.** -/
theorem idle_of_unready (h : b.Discovers looking found sealing)
    (hunready : Unready s found sealing) : b.Idle := by
  obtain ⟨e, hprepared⟩ := prepared_of_unready h hunready
  exact idle_of_unprepared hprepared

end Begun

/-! ## The suite -/

/-- **The entries of a suite**: they are clean, but for one that tells the error if a test of the
last round raised it. -/
theorem Chronicle.reports_course (c : Chronicle s) :
    ∃ clean : List TestReport, (∀ t ∈ clean, t.Clean) ∧
      (c.reports = clean ∧ (∀ e, ¬ c.last.Raises e) ∨
        ∃ e t, c.reports = clean ++ [t] ∧ t.Tells e ∧ c.last.Raises e ∧
          c.last.result = .error e) := by
  have hsplit : c.reports = c.earlier.flatMap Begun.reports ++ c.last.reports := by
    rw [reports, rounds, flatMap_append, flatMap_singleton]
  have hearlier : ∀ t ∈ c.earlier.flatMap Begun.reports, t.Clean := by
    intro t ht
    obtain ⟨b, hb, ht⟩ := mem_flatMap.mp ht
    exact Begun.clean_of_passed (c.passed b hb) t ht
  obtain ⟨clean, hclean, hcourse⟩ := c.last.course
  refine ⟨c.earlier.flatMap Begun.reports ++ clean,
    forall_mem_append.mpr ⟨hearlier, hclean⟩, ?_⟩
  rcases hcourse with ⟨hreports, hnone⟩ | ⟨e, t, hreports, htells, hraises, hr⟩
  · exact .inl ⟨by rw [hsplit, hreports], hnone⟩
  · exact .inr ⟨e, t, by rw [hsplit, hreports, append_assoc], htells, hraises, hr⟩

/-- **Only the last entry may be a failure**, and it is one if a test of the last round raised the
error, which it then tells. -/
theorem Chronicle.last_entry (c : Chronicle s) :
    (∀ t ∈ c.reports.dropLast, t.Clean) ∧
    ((∃ t, c.reports.getLast? = some t ∧ t.status = .failed) ↔
      ∃ e, c.last.result = .error e ∧ c.last.Raises e) ∧
    ∀ t e, c.reports.getLast? = some t → t.status = .failed → c.last.result = .error e →
      t.error = some e.text := by
  obtain ⟨clean, hclean, hcourse⟩ := c.reports_course
  rcases hcourse with ⟨hreports, hnone⟩ | ⟨e, t, hreports, htells, hraises, herror⟩
  · -- no test raised an error, and the last entry is as clean as the others
    rw [hreports]
    have hlast (t : TestReport) (ht : clean.getLast? = some t) : t.status ≠ .failed :=
      (hclean t (mem_of_getLast? ht)).not_failed
    refine ⟨fun t ht => hclean t (dropLast_subset clean ht), ⟨?_, ?_⟩, ?_⟩
    · rintro ⟨t, ht, hfailed⟩
      exact absurd hfailed (hlast t ht)
    · rintro ⟨e, -, hraises⟩
      exact absurd hraises (hnone e)
    · intro t e ht hfailed
      exact absurd hfailed (hlast t ht)
  · rw [hreports, dropLast_concat, getLast?_concat, herror]
    refine ⟨hclean, ⟨fun _ => ⟨e, rfl, hraises⟩, fun _ => ⟨t, rfl, htells.1⟩⟩, ?_⟩
    rintro t' e' ⟨⟩ - ⟨⟩
    exact htells.2

/-- **The report of a suite agrees with how it ended**, whatever is answered.

The suite passed if and only if it ended without an error.  Every entry but the last is clean.  The
last one is a failure if and only if a test of the last round raised the error that the suite ended
with, and then it tells this error.  The entries are those of the rounds; in each round they are the
tests that were discovered for it, in order and without gaps, up to the one that failed.  A round
for which none could be discovered, or with a test whose reference is missing while answers are not
prepared, ends with an error, reports nothing and starts nothing. -/
theorem Setup.report_agrees (s : Setup) {T : List Event} {r : Except JudgeError Unit}
    {report : Report} (hm : Program.Makes s.runSuite T (r, report)) :
    (report.passed = true ↔ r = .ok ()) ∧ (∀ t ∈ report.tests.dropLast, t.Clean) ∧
    ∃ (c : Chronicle s) (closing : List Event),
      T = c.trace ++ closing ∧ launches closing = [] ∧ report.tests = c.reports ∧
      c.last.result = r ∧ c.rounds.length ≤ max s.options.retests 1 ∧
      (r = .ok () → c.rounds.length = max s.options.retests 1) ∧
      ((∃ t, report.tests.getLast? = some t ∧ t.status = .failed) ↔
        ∃ e, r = .error e ∧ c.last.Raises e) ∧
      (∀ t e, report.tests.getLast? = some t → t.status = .failed → r = .error e →
        t.error = some e.text) ∧
      ∀ b ∈ c.rounds,
        ((∃ looking found sealing, b.Discovers looking found sealing) ∨ b.Idle) ∧
        ∀ looking found sealing, b.Discovers looking found sealing →
          b.InOrder found ∧ (Begun.Unready s found sealing → b.Idle) := by
  obtain ⟨c, closing, hT, rfl, htests, hle, hcount, hclosing⟩ := Setup.runSuite_chronicle hm
  have hpassed : report.passed = true ↔ c.last.result = .ok () := by
    rcases hclosing with ⟨e, hr, -, hfalse⟩ | ⟨hr, -, htrue⟩
    · simp [hr, hfalse]
    · simp [hr, htrue]
  have hquiet : launches closing = [] := by
    rcases hclosing with ⟨e, -, rfl, -⟩ | ⟨-, hprint, -⟩
    · rfl
    · exact Program.Meets.launches_eq_nil (Program.meets_printLine _) hprint
  obtain ⟨hclean, hfailed, htext⟩ := c.last_entry
  rw [← htests] at hclean hfailed htext
  refine ⟨hpassed, hclean, c, closing, hT, hquiet, htests, rfl, hle, hcount, hfailed, htext, ?_⟩
  intro b _
  refine ⟨b.discovers_or_idle, fun looking found sealing hfound => ?_⟩
  exact ⟨Begun.inOrder hfound, Begun.idle_of_unready hfound⟩

/-! A candidate that answers right once, and wrong from then on, in a suite of two rounds. -/

/-- Two rounds of one attempt for each test. -/
def twoRounds : Setup := { plainSetup with options := { retests := 2 } }

/-- The machine whose first process answers right. -/
def onceRight : Program.Handler Nat
  | .drain .., n => some (.ok (utf8 (if n = 1 then "4\n" else "5\n")), n)
  | c, n => secondTry c n

theorem run_onceRight :
    ((twoRounds.runSuite.run onceRight 0).map fun r =>
      r.1.2.tests.map fun t => (t.name, t.status)) =
        some [("1", .passed), ("1", .failed)] := by
  decide +kernel

/-- The second round fails in its test, and the last entry tells how. -/
theorem second_round_tells :
    ∃ (T : List Event) (r : Except JudgeError Unit) (report : Report) (c : Chronicle twoRounds)
      (t₁ t₂ : TestReport) (e : JudgeError),
      Program.Makes twoRounds.runSuite T (r, report) ∧ report.tests = [t₁, t₂] ∧ t₁.Clean ∧
      c.rounds.length ≤ 2 ∧ r = .error e ∧ c.last.Raises e ∧ t₂.error = some e.text ∧
      report.passed = false := by
  obtain ⟨⟨⟨r, report⟩, n⟩, hrun, htests⟩ := Option.map_eq_some_iff.mp run_onceRight
  obtain ⟨T, hm⟩ := Program.exists_makes hrun
  obtain ⟨hpassed, hclean, c, closing, -, -, -, -, hle, -, hfailed, htext, -⟩ :=
    Setup.report_agrees twoRounds hm
  obtain ⟨t₁, rest, hrest, -, htail⟩ := List.map_eq_cons_iff.mp htests
  obtain ⟨t₂, rest', hrest', hstatus, htail'⟩ := List.map_eq_cons_iff.mp htail
  obtain rfl := List.map_eq_nil_iff.mp htail'
  subst hrest'
  rw [hrest] at hclean hfailed htext
  have hfailed₂ : t₂.status = .failed := (Prod.mk.inj hstatus).2
  obtain ⟨e, rfl, hraises⟩ := hfailed.mp ⟨t₂, rfl, hfailed₂⟩
  refine ⟨T, .error e, report, c, t₁, t₂, e, hm, hrest, hclean t₁ List.mem_cons_self, hle, rfl,
    hraises, htext t₂ e rfl hfailed₂ rfl, ?_⟩
  exact Bool.eq_false_iff.mpr fun htrue => nomatch hpassed.mp htrue

end Judge
