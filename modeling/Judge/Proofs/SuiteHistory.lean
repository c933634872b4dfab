import Judge.Proofs.Traces
import Judge.Suite.Runner

/-!
# Proofs/SuiteHistory — the rounds and tests of a suite

The trace of a suite falls into rounds.  A round begins with its preparation, in which the
references are sealed, and if that does not fail it goes on with a `Visit` to each of its tests, up
to the first that fails (`Visited`).  Only the last round of a suite may fail: the rounds are a
`Chronicle`, and `Setup.runSuite_chronicle` says that the tests of the report are its visits, in
their order.  `Setup.runSuite_history` tells the same of the rounds that were prepared.

The records hold the proof that their trace is one of their program, so what is proved of every
`Runner.runTest` holds of every visit.
-/

namespace Judge

open List
open Program (Makes makes_bind makes_pure printLine)

/-- **A test that was run** in a suite. -/
structure Visit (s : Setup) where
  case : TestCase
  kept : Option Seal
  own : List Event
  result : Runner.Result
  makes : Makes (Runner.runTest s case kept) own result

/-- **The visits to the tests of a round**, up to the first that fails, and how they end. -/
inductive Visited {s : Setup} : SealedTests → List (Visit s) → Except JudgeError Unit → Prop
  | nil : Visited [] [] (.ok ())
  | failed {v : Visit s} {rest : SealedTests} {e : JudgeError}
      (herror : v.result.error = some e) : Visited ((v.case, v.kept) :: rest) [v] (.error e)
  | passed {v : Visit s} {rest : SealedTests} {visits : List (Visit s)} {r : Except JudgeError Unit}
      (hnone : v.result.error = none) (hrest : Visited rest visits r) :
      Visited ((v.case, v.kept) :: rest) (v :: visits) r

variable {tests : SealedTests}

theorem Visited.isPrefix {s : Setup} {visits : List (Visit s)} {r : Except JudgeError Unit}
    (h : Visited tests visits r) : visits.map (fun v => (v.case, v.kept)) <+: tests := by
  induction h with
  | nil => exact nil_prefix
  | failed herror => exact cons_prefix_cons.mpr ⟨rfl, nil_prefix⟩
  | passed hnone _ ih => exact cons_prefix_cons.mpr ⟨rfl, ih⟩

/-! ## Rounds -/

/-- **A round of a suite**, with the tests that were run in it. -/
structure Round (s : Setup) where
  banner : List Event
  /-- The preparation, before the first test. -/
  opening : List Event
  tests : SealedTests
  prepared : Act.Yields (Runner.prepareRound s) opening tests
  visits : List (Visit s)
  visited : visits.map (fun v => (v.case, v.kept)) <+: tests

/-- How a round ends: no test is visited if it was not prepared. -/
inductive RoundEnds {s : Setup} : Except JudgeError SealedTests →
    List (Visit s) → Except JudgeError Unit → Prop
  | unprepared (e : JudgeError) : RoundEnds (.error e) [] (.error e)
  | visited {tests : SealedTests} {visits : List (Visit s)} {r : Except JudgeError Unit}
      (h : Visited tests visits r) : RoundEnds (.ok tests) visits r

theorem RoundEnds.of_error {s : Setup} {e : JudgeError} {visits : List (Visit s)}
    {r : Except JudgeError Unit} (h : RoundEnds (.error e) visits r) :
    visits = [] ∧ r = .error e := by
  cases h
  exact ⟨rfl, rfl⟩

theorem RoundEnds.of_ok {s : Setup} {visits : List (Visit s)} {r : Except JudgeError Unit}
    (h : RoundEnds (.ok tests) visits r) : Visited tests visits r := by
  cases h with
  | visited hvisited => exact hvisited

/-- **A round that was begun**, whether it could be prepared or not. -/
structure Begun (s : Setup) where
  banner : List Event
  announced : ∃ text, Makes (printLine text) banner ()
  opening : List Event
  prepared : Except JudgeError SealedTests
  makes : Makes (Runner.prepareRound s).run opening prepared
  visits : List (Visit s)
  result : Except JudgeError Unit
  ends : RoundEnds prepared visits result

variable {s : Setup}

namespace Round

def trace (r : Round s) : List Event := r.banner ++ r.opening ++ r.visits.flatMap Visit.own

def reports (r : Round s) : List TestReport := r.visits.map fun v => v.result.report

theorem mem_tests (r : Round s) {v : Visit s} (hv : v ∈ r.visits) : (v.case, v.kept) ∈ r.tests :=
  r.visited.subset (mem_map_of_mem hv)

end Round

namespace Begun

def trace (b : Begun s) : List Event := b.banner ++ b.opening ++ b.visits.flatMap Visit.own

def reports (b : Begun s) : List TestReport := b.visits.map fun v => v.result.report

theorem visits_of_unprepared {b : Begun s} {e : JudgeError} (h : b.prepared = .error e) :
    b.visits = [] ∧ b.result = .error e :=
  RoundEnds.of_error (h ▸ b.ends)

theorem visited_of_prepared {b : Begun s} (h : b.prepared = .ok tests) :
    Visited tests b.visits b.result :=
  RoundEnds.of_ok (h ▸ b.ends)

theorem exists_round {b : Begun s} (h : b.prepared = .ok tests) :
    ∃ round : Round s, round.trace = b.trace ∧ round.reports = b.reports := by
  have hyields : Act.Yields (Runner.prepareRound s) b.opening tests := by
    rw [Act.Yields, ← h]
    exact b.makes
  exact ⟨⟨b.banner, b.opening, tests, hyields, b.visits, (visited_of_prepared h).isPrefix⟩,
    rfl, rfl⟩

/-- The rounds that did not fail were prepared. -/
theorem exists_rounds {bs : List (Begun s)} (h : ∀ b ∈ bs, b.result = .ok ()) :
    ∃ rounds : List (Round s), rounds.flatMap Round.trace = bs.flatMap trace ∧
      rounds.flatMap Round.reports = bs.flatMap reports := by
  induction bs with
  | nil => exact ⟨[], rfl, rfl⟩
  | cons b bs ih =>
    obtain ⟨rounds, htrace, hreports⟩ := ih fun b' hb' => h b' (mem_cons_of_mem b hb')
    cases hprepared : b.prepared with
    | error e =>
      have hfailed := (visits_of_unprepared hprepared).2
      rw [h b mem_cons_self] at hfailed
      cases hfailed
    | ok tests =>
      obtain ⟨round, htrace', hreports'⟩ := exists_round hprepared
      refine ⟨round :: rounds, ?_, ?_⟩
      · rw [flatMap_cons, flatMap_cons, htrace, htrace']
      · rw [flatMap_cons, flatMap_cons, hreports, hreports']

end Begun

/-- **The rounds of a suite**: only the last one may fail. -/
structure Chronicle (s : Setup) where
  earlier : List (Begun s)
  last : Begun s
  passed : ∀ b ∈ earlier, b.result = .ok ()

namespace Chronicle

def rounds (c : Chronicle s) : List (Begun s) := c.earlier ++ [c.last]

def trace (c : Chronicle s) : List Event := c.rounds.flatMap Begun.trace

def reports (c : Chronicle s) : List TestReport := c.rounds.flatMap Begun.reports

/-- One round. -/
def single (b : Begun s) : Chronicle s where
  earlier := []
  last := b
  passed := nofun

/-- A round that did not fail, and then others. -/
def cons (b : Begun s) (hb : b.result = .ok ()) (c : Chronicle s) : Chronicle s where
  earlier := b :: c.earlier
  last := c.last
  passed := forall_mem_cons.mpr ⟨hb, c.passed⟩

variable {b : Begun s} {hb : b.result = .ok ()} {c : Chronicle s}

theorem trace_single : (single b).trace = b.trace := flatMap_singleton ..

theorem reports_single : (single b).reports = b.reports := flatMap_singleton ..

theorem trace_cons : (cons b hb c).trace = b.trace ++ c.trace := rfl

theorem reports_cons : (cons b hb c).reports = b.reports ++ c.reports := rfl

theorem length_cons : (cons b hb c).rounds.length = c.rounds.length + 1 := rfl

end Chronicle

namespace Runner

variable {T : List Event} {report report' : Report} {r : Except JudgeError Unit}

/-- **The tests of a round are visited in order**, up to the first that fails. -/
theorem runTests_history (hm : Makes (runTests s tests report) T (r, report')) :
    ∃ visits : List (Visit s), T = visits.flatMap Visit.own ∧
      report' = { report with tests := report.tests ++ visits.map fun v => v.result.report } ∧
      Visited tests visits r := by
  induction tests generalizing T report with
  | nil =>
    obtain ⟨rfl, heq⟩ := makes_pure hm
    cases heq
    exact ⟨[], rfl, by simp, .nil⟩
  | cons test tests ih =>
    obtain ⟨case, kept⟩ := test
    obtain ⟨T₁, result, T₂, rfl, htest, hrest⟩ := makes_bind hm
    split at hrest
    · rename_i herror
      obtain ⟨rfl, heq⟩ := makes_pure hrest
      cases heq
      let v : Visit s := ⟨case, kept, T₁, result, htest⟩
      exact ⟨[v], by simp [v], rfl, .failed (v := v) herror⟩
    · rename_i hnone
      obtain ⟨visits, rfl, rfl, hvisited⟩ := ih hrest
      let v : Visit s := ⟨case, kept, T₁, result, htest⟩
      exact ⟨v :: visits, by simp [v], by simp [v, record], .passed (v := v) hnone hvisited⟩

/-- **A round is begun**, and visits its tests if it can be prepared. -/
theorem runRound_begun {text : String} {banner : List Event}
    (hbanner : Makes (printLine text) banner ()) (hm : Makes (runRound s report) T (r, report')) :
    ∃ b : Begun s, b.trace = banner ++ T ∧ b.result = r ∧
      report' = { report with tests := report.tests ++ b.reports } := by
  obtain ⟨T₁, prepared, T₂, rfl, hprepare, hrest⟩ := makes_bind hm
  cases prepared with
  | error e =>
    obtain ⟨rfl, heq⟩ := makes_pure hrest
    cases heq
    exact ⟨⟨banner, ⟨text, hbanner⟩, T₁, .error e, hprepare, [], .error e, .unprepared e⟩,
      by simp [Begun.trace], rfl, by simp [Begun.reports]⟩
  | ok tests =>
    obtain ⟨visits, rfl, rfl, hvisited⟩ := runTests_history hrest
    exact ⟨⟨banner, ⟨text, hbanner⟩, T₁, .ok tests, hprepare, visits, r, .visited hvisited⟩,
      by simp [Begun.trace], rfl, rfl⟩

/-- **The rounds of a suite come one after the other**, as many as there are left unless one
fails. -/
theorem runRounds_chronicle {index left : Nat} (hleft : 0 < left)
    (hm : Makes (runRounds s index left report) T (r, report')) :
    ∃ c : Chronicle s, T = c.trace ∧ c.last.result = r ∧
      report' = { report with tests := report.tests ++ c.reports } ∧
      c.rounds.length ≤ left ∧ (r = .ok () → c.rounds.length = left) := by
  induction left generalizing index T report with
  | zero => exact absurd hleft (Nat.lt_irrefl 0)
  | succ left ih =>
    obtain ⟨T₁, ⟨⟩, T₂, rfl, hbanner, hround⟩ := makes_bind hm
    obtain ⟨T₃, ⟨result, report₁⟩, T₄, rfl, hone, hrest⟩ := makes_bind hround
    obtain ⟨b, htrace, hresult, rfl⟩ := runRound_begun hbanner hone
    cases result with
    | error e =>
      obtain ⟨rfl, heq⟩ := makes_pure hrest
      cases heq
      refine ⟨.single b, ?_, hresult, ?_, Nat.le_add_left 1 left, nofun⟩
      · rw [Chronicle.trace_single, htrace, append_nil]
      · rw [Chronicle.reports_single]
    | ok u =>
      cases left with
      | zero =>
        obtain ⟨rfl, heq⟩ := makes_pure hrest
        cases heq
        refine ⟨.single b, ?_, hresult, ?_, Nat.le_refl 1, fun _ => rfl⟩
        · rw [Chronicle.trace_single, htrace, append_nil]
        · rw [Chronicle.reports_single]
      | succ left =>
        obtain ⟨c, rfl, hr, rfl, hle, hcount⟩ := ih (Nat.succ_pos left) hrest
        refine ⟨c.cons b hresult, ?_, hr, ?_, ?_, ?_⟩
        · rw [Chronicle.trace_cons, htrace, append_assoc]
        · rw [Chronicle.reports_cons, append_assoc]
        · rw [Chronicle.length_cons]
          exact Nat.succ_le_succ hle
        · rw [Chronicle.length_cons]
          exact fun hok => congrArg Nat.succ (hcount hok)

end Runner

/-! ## The suite -/

variable {T : List Event} {r : Except JudgeError Unit} {report : Report}

/-- **The rounds of a suite and its report**, which passed if no round failed. -/
theorem Setup.runSuite_chronicle (hm : Makes s.runSuite T (r, report)) :
    ∃ (c : Chronicle s) (closing : List Event), T = c.trace ++ closing ∧ c.last.result = r ∧
      report.tests = c.reports ∧ c.rounds.length ≤ max s.options.retests 1 ∧
      (r = .ok () → c.rounds.length = max s.options.retests 1) ∧
      ((∃ e, r = .error e ∧ closing = [] ∧ report.passed = false) ∨
        r = .ok () ∧ Makes (printLine "All tests passed") closing () ∧
          report.passed = true) := by
  obtain ⟨T₁, ⟨result, report₁⟩, T₂, rfl, hrounds, hrest⟩ := makes_bind hm
  have hleft : 0 < max s.options.retests 1 := by omega
  obtain ⟨c, rfl, hr, rfl, hle, hcount⟩ := Runner.runRounds_chronicle hleft hrounds
  cases result with
  | error e =>
    obtain ⟨rfl, heq⟩ := makes_pure hrest
    cases heq
    exact ⟨c, [], rfl, hr, rfl, hle, hcount, .inl ⟨e, rfl, rfl, rfl⟩⟩
  | ok u =>
    obtain ⟨T₃, ⟨⟩, T₄, rfl, hprint, hpure⟩ := makes_bind hrest
    obtain ⟨rfl, heq⟩ := makes_pure hpure
    cases heq
    rw [append_nil]
    exact ⟨c, T₃, rfl, hr, rfl, hle, hcount, .inr ⟨rfl, hprint, rfl⟩⟩

/-- **The tests of a report are the tests that were run**, round by round and in order. -/
theorem Setup.runSuite_history (hm : Makes s.runSuite T (r, report)) :
    ∃ (rounds : List (Round s)) (closing : List Event),
      T = rounds.flatMap Round.trace ++ closing ∧
      report.tests = rounds.flatMap Round.reports := by
  obtain ⟨c, closing, rfl, -, htests, -⟩ := Setup.runSuite_chronicle hm
  obtain ⟨rounds, htrace, hreports⟩ := Begun.exists_rounds c.passed
  have hsplit : c.trace = rounds.flatMap Round.trace ++ c.last.trace := by
    simp [Chronicle.trace, Chronicle.rounds, htrace]
  have hjoin : report.tests = rounds.flatMap Round.reports ++ c.last.reports := by
    simp [htests, Chronicle.reports, Chronicle.rounds, hreports]
  cases hprepared : c.last.prepared with
  | error e =>
    obtain ⟨hnone, -⟩ := Begun.visits_of_unprepared hprepared
    refine ⟨rounds, c.last.trace ++ closing, by rw [hsplit, append_assoc], ?_⟩
    rw [hjoin, Begun.reports, hnone, map_nil, append_nil]
  | ok tests =>
    obtain ⟨round, htrace', hreports'⟩ := Begun.exists_round hprepared
    refine ⟨rounds ++ [round], closing, ?_, ?_⟩
    · rw [hsplit, flatMap_append, flatMap_singleton, htrace']
    · rw [hjoin, flatMap_append, flatMap_singleton, hreports']

end Judge
