import Judge.Proofs.Invocations
import Judge.Proofs.Launches

/-!
# Proofs/PassingRun — what a run that passes has seen

A run of a candidate may end early in a dozen ways.  `Sandbox.run_passing` says what is known when
it comes to its end without a failure that was looked away from: its trace falls into what was done
before the candidate was started, the phase of the candidate, and what was done after it; and the
answers in these parts are those of a candidate, an interactor and a checker with which everything
was well (`Passing`).

Whether it passes or not, a run that comes so far comes to what judging does (`Sandbox.run_makes`).
-/

namespace Judge

open Act (Yields makes_bind makes_ofProgram_bind not_yields_throw yields_bind yields_orElse
  yields_pure)
open Program (Makes answered_of_perform makes_pure)

/-! ## What there is to be seen -/

/-- **The candidate ran**: the phase begins with its start, and in it the candidate was waited for
and ended as `status` says. -/
structure CandidateRan (s : Setup) (m : Metadata) (v : Invocation)
    (phase : List Event) (started : Started) (status : WaitStatus) : Prop where
  begins : ∃ stdin rest,
    phase = ⟨.start (Sandbox.candidateLaunch s m v stdin), .ok started⟩ :: rest
  ended : Answered phase (.wait started.pid) (.ok status)

variable (s : Setup)

/-- **The interactor was content**: it was started, waited for, and ended with success. -/
def InteractorContent (m : Metadata) (v : Invocation)
    (phase : List Event) (interactor : Path) : Prop :=
  ∃ arguments fromCandidate toCandidate started status,
    Answered phase (.start (Sandbox.interactorLaunch m v
      (Path.absolute s.cwd (s.options.problemDir.join interactor)) arguments fromCandidate
      toCandidate)) (.ok started) ∧
    Answered phase (.wait started.pid) (.ok status) ∧ status.success = true

/-- **The interactor failed**: it was started, waited for, and did not end with success. -/
def InteractorFailed (m : Metadata) (v : Invocation) (T : List Event) (interactor : Path) : Prop :=
  ∃ arguments fromCandidate toCandidate started status,
    Answered T (.start (Sandbox.interactorLaunch m v
      (Path.absolute s.cwd (s.options.problemDir.join interactor)) arguments fromCandidate
      toCandidate)) (.ok started) ∧
    Answered T (.wait started.pid) (.ok status) ∧ status.success = false

/-- **What was captured**: the stream of the candidate, or the log of the interactor. -/
def Captured (v : Invocation)
    (phase after : List Event) (started : Started) (captured : Bytes) : Prop :=
  match s.options.interactor with
  | none =>
    Answered phase (.drain ((Sandbox.captured? started).getD 0) []) (.ok captured)
  | some _ => Answered after (.file (.read (v.runDir.child Sandbox.logName))) (.ok captured)

/-- **What was produced**: the output file if the judge reads one, with nothing captured beside it,
and otherwise what was captured. -/
def Produced (v : Invocation) (after : List Event) (captured answer : Bytes) : Prop :=
  match s.options.outputFile with
  | some name =>
    if s.checker.isExternal then answer = captured
    else captured = [] ∧ Answered after (.file (.read (v.runDir.child name))) (.ok answer)
  | none => answer = captured

/-- The file that an external checker was told of holds what was produced. -/
def Shown (v : Invocation) (after : List Event) (answer : Bytes) (file : String) : Prop :=
  match s.options.outputFile with
  | some name => file = name ∧ answer = []
  | none => file = Sandbox.capturedName ∧
    Answered after (.file (.write (v.runDir.child Sandbox.capturedName) answer)) (.ok ())

/-- What a reference is compared as. -/
def Setup.expand (raw : Bytes) : Bytes :=
  Checker.expandReference (Path.absolute s.cwd s.options.problemDir) raw

/-- **The checker accepted what was produced.**  A comparison was with what was read from the
reference; a program was started, waited for, and ended with success. -/
def Accepted (case : TestCase) (v : Invocation)
    (after : List Event) (exitCode : Int) (answer : Bytes) : Prop :=
  match s.checker with
  | .ignore => True
  | .external program =>
    ∃ file started status, Shown s v after answer file ∧
      Answered after (.start (Checker.externalLaunch s.inherited program
        (requestOf s case v exitCode file))) (.ok started) ∧
      Answered after (.wait started.pid) (.ok status) ∧ status.success = true
  | checker =>
    ∃ raw, Answered after (.file (.read v.reference)) (.ok raw) ∧
      checker.compare s.surroundings.eps answer (s.expand raw) = .ok ()

/-- **Everything was well** with a candidate, its interactor and its checker. -/
structure Passing (s : Setup) (m : Metadata) (case : TestCase)
    (v : Invocation) (phase after : List Event) (status : WaitStatus) (answer : Bytes) :
    Prop where
  candidate : ∃ started captured, CandidateRan s m v phase started status ∧
    Captured s v phase after started captured ∧ Produced s v after captured answer
  exitCode : s.checker = .ignore ∨ m.expectedExit.accepts status.code = true
  interactor : ∀ i, s.options.interactor = some i → InteractorContent s m v phase i
  accepted : Accepted s case v after status.code answer

variable {s : Setup} {m : Metadata} {case : TestCase} {v : Invocation}
  {T : List Event}

/-! What was seen is seen in a longer trace too. -/

section Mono

variable {phase after after' : List Event} {captured answer : Bytes}

theorem Captured.mono {started : Started} (hc : Captured s v phase after started captured)
    (hsub : after ⊆ after') : Captured s v phase after' started captured := by
  unfold Captured at hc ⊢
  split at hc
  · exact hc
  · exact Answered.mono hc hsub

theorem Produced.mono (hp : Produced s v after captured answer) (hsub : after ⊆ after') :
    Produced s v after' captured answer := by
  unfold Produced at hp ⊢
  split at hp
  · by_cases hexternal : s.checker.isExternal = true
    · rw [if_pos hexternal] at hp ⊢
      exact hp
    · rw [if_neg hexternal] at hp ⊢
      exact ⟨hp.1, hp.2.mono hsub⟩
  · exact hp

theorem Shown.mono {file : String} (hs : Shown s v after answer file) (hsub : after ⊆ after') :
    Shown s v after' answer file := by
  unfold Shown at hs ⊢
  split at hs
  · exact hs
  · exact ⟨hs.1, hs.2.mono hsub⟩

variable {exitCode : Int} {status : WaitStatus} {r : Except JudgeError Outcome} {o : Outcome}

theorem Accepted.mono (ha : Accepted s case v after exitCode answer) (hsub : after ⊆ after') :
    Accepted s case v after' exitCode answer := by
  unfold Accepted at ha ⊢
  split at ha
  · trivial
  · obtain ⟨file, started, status, hshown, hstart, hwait, hsuccess⟩ := ha
    exact ⟨file, started, status, hshown.mono hsub, hstart.mono hsub, hwait.mono hsub, hsuccess⟩
  · obtain ⟨raw, hread, heq⟩ := ha
    exact ⟨raw, hread.mono hsub, heq⟩

theorem Passing.mono (hp : Passing s m case v phase after status answer) (hsub : after ⊆ after') :
    Passing s m case v phase after' status answer := by
  obtain ⟨started, captured, hran, hcaptured, hproduced⟩ := hp.candidate
  exact ⟨⟨started, captured, hran, hcaptured.mono hsub, hproduced.mono hsub⟩, hp.exitCode,
    hp.interactor, hp.accepted.mono hsub⟩

end Mono

/-! ## The checker -/

namespace Checker

theorem runToEnd_yields {l : Launch} {tell : OsError → JudgeError}
    (hy : Yields (runToEnd l tell) T status) :
    ∃ started, Answered T (.start l) (.ok started) ∧
      Answered T (.wait started.pid) (.ok status) := by
  obtain ⟨T₁, started, T₂, rfl, hstart, hwait⟩ := yields_bind hy
  refine ⟨started, ?_, ?_⟩
  · exact (answered_of_perform (yields_orElse hstart)).mono
      (List.subset_append_left ..)
  · exact (answered_of_perform (yields_orElse hwait)).mono
      (List.subset_append_right ..)

theorem askExternal_yields {inherited : Vars} {program : Path} {request : CheckRequest}
    (hy : Yields (askExternal inherited program request) T ()) :
    ∃ started status, Answered T (.start (externalLaunch inherited program request)) (.ok started) ∧
      Answered T (.wait started.pid) (.ok status) ∧ status.success = true := by
  obtain ⟨T₁, -, T₂, rfl, -, hrun⟩ := yields_bind hy
  obtain ⟨T₃, status, T₄, rfl, hend, hif⟩ := yields_bind hrun
  obtain ⟨started, hstart, hwait⟩ := runToEnd_yields hend
  have hsub : T₃ ⊆ T₁ ++ (T₃ ++ T₄) := by simp
  split at hif
  · exact ⟨started, status, hstart.mono hsub, hwait.mono hsub, by assumption⟩
  · exact absurd hif not_yields_throw

theorem checkAgainst_yields {c : Checker} {request : CheckRequest} {produced reference : Bytes}
    (hy : Yields (c.checkAgainst request produced reference) T ()) :
    c.compare request.eps produced reference = .ok () := by
  unfold checkAgainst at hy
  split at hy
  · assumption
  · obtain ⟨T₁, -, T₂, -, -, hrest⟩ := yields_bind hy
    obtain ⟨T₃, -, T₄, -, -, hthrow⟩ := yields_bind hrest
    exact absurd hthrow not_yields_throw

theorem compare_yields {c : Checker} (request : CheckRequest) {produced : Bytes} (hy : Yields (do
      let reference ← loadReference request.reference request.problemDir
      c.checkAgainst request produced reference) T ()) :
    ∃ raw, Answered T (.file (.read request.reference)) (.ok raw) ∧
      c.compare request.eps produced (expandReference request.problemDir raw) = .ok () := by
  obtain ⟨T₁, reference, T₂, rfl, hload, hcheck⟩ := yields_bind hy
  obtain ⟨raw, rfl, hread⟩ := Act.yields_map hload
  refine ⟨raw, ?_, checkAgainst_yields hcheck⟩
  exact (answered_of_perform (yields_orElse hread)).mono (List.subset_append_left ..)

end Checker

namespace Sandbox

/-! ## The answer -/

theorem readAnswer_yields {p : Path} {test : String} {data : Bytes}
    (hy : Yields (readAnswer p test) T data) : Answered T (.file (.read p)) (.ok data) :=
  answered_of_perform (yields_orElse hy)

variable {captured answer : Bytes}

theorem produced_yields (hprepare : s.options.prepareAnswers = false)
    (hy : Yields (produced s case v captured) T answer) : Produced s v T captured answer := by
  unfold produced at hy
  unfold Produced
  cases hfile : s.options.outputFile with
  | none =>
    rw [hfile] at hy
    exact (yields_pure hy).2
  | some name =>
    rw [hfile] at hy
    cases hexternal : s.checker.isExternal with
    | true =>
      simp only [hexternal, hprepare] at hy
      exact (yields_pure hy).2
    | false =>
      simp only [hexternal] at hy
      cases captured with
      | nil => exact ⟨rfl, readAnswer_yields hy⟩
      | cons b rest => exact absurd hy not_yields_throw

theorem checkedFile_yields {file : String} (hexternal : s.checker.isExternal = true)
    (hy : Yields (checkedFile s case v answer) T file) : Shown s v T answer file := by
  unfold checkedFile at hy
  unfold Shown
  cases hfile : s.options.outputFile with
  | none =>
    simp only [hfile, hexternal] at hy
    obtain ⟨T₁, ⟨⟩, T₂, rfl, hstore, hpure⟩ := yields_bind hy
    refine ⟨(yields_pure hpure).2, ?_⟩
    exact (answered_of_perform (yields_orElse hstore)).mono
      (List.subset_append_left ..)
  | some name =>
    simp only [hfile, hexternal] at hy
    cases answer with
    | nil => exact ⟨(yields_pure hy).2, rfl⟩
    | cons b rest => exact absurd hy not_yields_throw

theorem checkAnswer_yields (hy : Yields (checkAnswer s case v exitCode answer) T false) :
    Accepted s case v T exitCode answer := by
  obtain ⟨T₁, file, T₂, rfl, hfile, hrest⟩ := yields_bind hy
  obtain ⟨T₃, result, T₄, rfl, hcheck, hmatch⟩ := yields_bind hrest
  have hcheck := Act.yields_ofProgram hcheck
  cases result with
  | error e =>
    dsimp only at hmatch
    split at hmatch
    · obtain ⟨T₅, -, T₆, -, -, hpure⟩ := yields_bind hmatch
      exact absurd (yields_pure hpure).2 nofun
    · exact absurd hmatch not_yields_throw
  | ok u =>
    have hfirst : T₁ ⊆ T₁ ++ (T₃ ++ T₄) := by simp
    have hsecond : T₃ ⊆ T₁ ++ (T₃ ++ T₄) := by simp
    have hcompare : ∀ c : Checker, Yields (do
        let reference ← Checker.loadReference v.reference (Path.absolute s.cwd s.options.problemDir)
        c.checkAgainst (requestOf s case v exitCode file) answer reference) T₃ () →
        ∃ raw, Answered (T₁ ++ (T₃ ++ T₄)) (.file (.read v.reference)) (.ok raw) ∧
          c.compare s.surroundings.eps answer (s.expand raw) = .ok () := by
      intro c hc
      obtain ⟨raw, hread, heq⟩ := Checker.compare_yields (requestOf s case v exitCode file) hc
      exact ⟨raw, hread.mono hsecond, heq⟩
    unfold Accepted
    cases hchecker : s.checker with
    | ignore => trivial
    | «external» program =>
      rw [hchecker] at hcheck
      obtain ⟨started, status, hstart, hwait, hsuccess⟩ := Checker.askExternal_yields hcheck
      have hshown := checkedFile_yields (by rw [hchecker]; rfl) hfile
      exact ⟨file, started, status, hshown.mono hfirst, hstart.mono hsecond, hwait.mono hsecond,
        hsuccess⟩
    | _ =>
      rw [hchecker] at hcheck
      exact hcompare _ hcheck

/-- **What follows from a run that has come to its end.** -/
inductive Concluded (s : Setup) (m : Metadata) (case : TestCase) (v : Invocation)
    (captured : Bytes) (exitCode : Int) (T : List Event) : Except JudgeError Outcome → Prop
  | wrongCode (hchecks : s.checker.checksExitCode = true)
      (hcode : m.expectedExit.accepts exitCode = false)
      (hmay : s.options.mayFail case.name = true) :
      Concluded s m case v captured exitCode T (.ok ⟨captured, exitCode, true⟩)
  | rejected {e : JudgeError} (hmay : s.options.mayFail case.name = false) :
      Concluded s m case v captured exitCode T (.error e)
  | mundane {e : JudgeError} (he : Mundane e) :
      Concluded s m case v captured exitCode T (.error e)
  | noAnswer {e : JudgeError}
      (hproduced : Makes (produced s case v captured).run T (.error e)) :
      Concluded s m case v captured exitCode T (.error e)
  | unchecked {T₁ T₂ : List Event} {answer : Bytes} {e : JudgeError}
      (hprepare : s.options.prepareAnswers = false)
      (hproduced : Yields (produced s case v captured) T₁ answer)
      (hcheck : Makes (checkAnswer s case v exitCode answer).run T₂ (.error e)) :
      Concluded s m case v captured exitCode T (.error e)
  | ended {T₁ T₂ : List Event} {answer : Bytes} {skipped : Bool} (hfirst : T₁ ⊆ T) (hsecond : T₂ ⊆ T)
      (hexit : s.checker = .ignore ∨ m.expectedExit.accepts exitCode = true)
      (hproduced : Yields (produced s case v captured) T₁ answer)
      (hcheck : if s.options.prepareAnswers then skipped = false
        else Yields (checkAnswer s case v exitCode answer) T₂ skipped) :
      Concluded s m case v captured exitCode T (.ok ⟨answer, exitCode, skipped⟩)

theorem removed_makes {name : Option String} (hm : Makes (do
      match name with
      | some name => removeIfPresent (v.runDir.child name)
      | none => pure ()
      return o : Act Outcome).run T r) : r = .ok o ∨ ∃ e, r = .error e ∧ Mundane e := by
  cases name with
  | none => exact .inl (makes_pure hm).2
  | some name =>
    rcases (removeIfPresent_meets (L := Any) _).makes_bind hm with hmundane | ⟨T₁, ⟨⟩, T₂, -, -, hpure⟩
    · exact .inr hmundane
    · exact .inl (makes_pure hpure).2

theorem conclude_makes (hm : Makes (conclude s m case v captured exitCode).run T r) :
    Concluded s m case v captured exitCode T r := by
  unfold conclude at hm
  split at hm
  · rename_i hcode
    rw [Bool.and_eq_true, Bool.not_eq_true'] at hcode
    split at hm
    · rename_i hmay
      obtain ⟨T₁, ⟨⟩, T₂, -, -, hm⟩ := makes_ofProgram_bind hm
      obtain ⟨T₃, ⟨⟩, T₄, -, -, hm⟩ := makes_ofProgram_bind hm
      obtain ⟨-, rfl⟩ := makes_pure hm
      exact .wrongCode hcode.1 hcode.2 hmay
    · rename_i hmay
      obtain ⟨T₁, ⟨⟩, T₂, -, -, hm⟩ := makes_ofProgram_bind hm
      obtain ⟨-, rfl⟩ := makes_pure hm
      exact .rejected (Bool.eq_false_iff.mpr hmay)
  · rename_i hcode
    have hexit : s.checker = .ignore ∨ m.expectedExit.accepts exitCode = true := by
      cases hchecker : s.checker <;> simp_all [Checker.checksExitCode]
    rcases makes_bind hm with ⟨e, rfl, hproduced⟩ | ⟨T₁, answer, T₂, rfl, hproduced, hrest⟩
    · exact .noAnswer hproduced
    have hended : ∀ {T₃ T₄ : List Event} {skipped : Bool}, T₃ ⊆ T₁ ++ T₂ →
        (if s.options.prepareAnswers then skipped = false
          else Yields (checkAnswer s case v exitCode answer) T₃ skipped) →
        Makes (do
          match s.options.outputFile with
          | some name => removeIfPresent (v.runDir.child name)
          | none => pure ()
          return { output := answer, exitCode, skipped } : Act Outcome).run T₄ r →
        Concluded s m case v captured exitCode (T₁ ++ T₂) r := by
      intro T₃ T₄ skipped hsub hcheck hrest
      rcases removed_makes hrest with rfl | ⟨e, rfl, he⟩
      · exact .ended (List.subset_append_left ..) hsub hexit hproduced hcheck
      · exact .mundane he
    dsimp only at hrest
    split at hrest
    · rename_i hprepare
      exact hended (List.nil_subset _) (by rw [if_pos hprepare]) hrest
    · rename_i hprepare
      rcases makes_bind hrest with ⟨e, rfl, hcheck⟩ | ⟨T₃, skipped, T₄, rfl, hcheck, hrest⟩
      · exact .unchecked (Bool.eq_false_iff.mpr hprepare) hproduced hcheck
      · refine hended ?_ (by rwa [if_neg hprepare]) hrest
        exact fun e he => by simp [he]

/-- If no failure was looked away from, the answer was accepted. -/
theorem conclude_yields (hprepare : s.options.prepareAnswers = false) (hskipped : o.skipped = false)
    (hy : Yields (conclude s m case v captured exitCode) T o) :
    (s.checker = .ignore ∨ m.expectedExit.accepts exitCode = true) ∧
    ∃ answer, Produced s v T captured answer ∧ Accepted s case v T exitCode answer := by
  cases conclude_makes hy with
  | wrongCode hchecks hcode hmay => cases hskipped
  | @ended T₁ T₂ answer skipped hfirst hsecond hexit hproduced hcheck =>
    rw [if_neg (Bool.eq_false_iff.mp hprepare)] at hcheck
    obtain rfl : skipped = false := hskipped
    exact ⟨hexit, answer, (produced_yields hprepare hproduced).mono hfirst,
      (checkAnswer_yields hcheck).mono hsecond⟩

/-! ## The candidate and the interactor -/

theorem startCandidate_yields {stdin : Wiring} {started : Started}
    (hy : Yields (startCandidate s m v stdin) T started) :
    T = [⟨.start (candidateLaunch s m v stdin), .ok started⟩] :=
  Program.makes_perform (yields_orElse hy)

theorem runPlain_yields (hy : Yields (runPlain s m v) T (captured, status)) :
    ∃ before phase started, T = before ++ phase ∧ CandidateRan s m v phase started status ∧
      Answered phase (.drain ((captured? started).getD 0) []) (.ok captured) := by
  obtain ⟨T₁, input, T₂, rfl, -, hy⟩ := yields_bind hy
  obtain ⟨T₃, started, T₄, rfl, hstart, hy⟩ := yields_bind hy
  obtain ⟨T₅, output, T₆, rfl, hdrain, hy⟩ := yields_bind hy
  obtain ⟨T₇, ⟨⟩, T₈, rfl, -, hy⟩ := yields_bind hy
  obtain ⟨T₉, ended, T₁₀, rfl, hwait, hy⟩ := yields_bind hy
  obtain ⟨rfl, hpair⟩ := yields_pure hy
  cases hpair
  obtain rfl := startCandidate_yields hstart
  have hdrained := answered_of_perform (yields_orElse hdrain)
  have hended := answered_of_perform (yields_orElse hwait)
  exact ⟨T₁, _, started, rfl,
    ⟨⟨_, _, rfl⟩, hended.mono fun e he => by simp [he]⟩,
    hdrained.mono fun e he => by simp [he]⟩

theorem runPlain_error {e : JudgeError} (hm : Makes (runPlain s m v).run T (.error e)) :
    Mundane e ∨ ∃ part stdin, part ⊆ T ∧
      Makes (startCandidate s m v stdin).run part (.error e) := by
  have hopen : Act.Meets Any Mundane Any (Act.orElse (Program.openFile v.input .read) fun e =>
      .config ("Failed to open input " ++ v.input.display ++ ": " ++ e.text)) :=
    Act.meets_orElse (Program.meets_one trivial) fun _ => trivial
  rcases hopen.makes_bind hm with ⟨_, he, hmundane⟩ | ⟨T₁, input, T₂, rfl, -, hm⟩
  · cases he
    exact .inl hmundane
  rcases makes_bind hm with ⟨_, he, hstart⟩ | ⟨T₃, started, T₄, rfl, -, hm⟩
  · cases he
    exact .inr ⟨_, _, List.subset_append_right .., hstart⟩
  · exact .inl ((collect_meets (L := Any) _ started.pid).error hm)

theorem startInteractor_yields {l : Launch} {candidate : Pid} {started : Started}
    (hy : Yields (startInteractor l candidate) T started) :
    Answered T (.start l) (.ok started) := by
  obtain ⟨T₁, result, T₂, rfl, hstart, hmatch⟩ := yields_bind hy
  have hstart := answered_of_perform (Act.yields_ofProgram hstart)
  cases result with
  | ok other =>
    obtain ⟨rfl, rfl⟩ := yields_pure hmatch
    exact hstart.mono fun e he => by simp [he]
  | error e =>
    obtain ⟨T₃, -, T₄, -, -, hthrow⟩ := yields_bind hmatch
    exact absurd hthrow not_yields_throw

/-- **A dialogue**: the candidate and the interactor were started and waited for. -/
structure Dialogued (s : Setup) (m : Metadata) (v : Invocation) (T : List Event) (i : Path)
    (candidate interactor : WaitStatus) : Prop where
  candidate : ∃ started, CandidateRan s m v T started candidate
  interactor : ∃ arguments fromCandidate toCandidate started,
    Answered T (.start (interactorLaunch m v (Path.absolute s.cwd (s.options.problemDir.join i))
      arguments fromCandidate toCandidate)) (.ok started) ∧
    Answered T (.wait started.pid) (.ok interactor)

/-- **An interactive run comes to its end**, unless something mundane fails or the candidate is not
started. -/
theorem runInteractive_makes {i : Path} {r : Except JudgeError Dialogue}
    (hm : Makes (runInteractive s m case v i).run T r) :
    (∃ e, r = .error e ∧
      (Mundane e ∨ Makes (startCandidate s m v .pipe).run T (.error e))) ∨
    ∃ phase after candidate interactor, T = phase ++ after ∧
      Dialogued s m v phase i candidate interactor ∧
      Makes (concludeDialogue s case v candidate interactor).run after r := by
  rcases makes_bind hm with ⟨e, rfl, hname⟩ | ⟨T₁, name, T₂, rfl, hname, h₁⟩
  · exact .inl ⟨e, rfl, .inl (Invocation.seenFrom_error (makes_pure hname).2.symm)⟩
  obtain ⟨rfl, -⟩ := Act.yields_ofExcept hname
  rcases makes_bind h₁ with ⟨e, rfl, hstart⟩ | ⟨T₃, started, T₄, rfl, hstart, h₂⟩
  · exact .inl ⟨e, rfl, .inr hstart⟩
  obtain rfl := startCandidate_yields hstart
  rcases (target_meets (L := Any) started.pid).makes_bind h₂ with
    ⟨e, rfl, he⟩ | ⟨T₅, pid, T₆, rfl, -, h₃⟩
  · exact .inl ⟨e, rfl, .inl he⟩
  rcases (pipeEnd_meets (L := Any) ..).makes_bind h₃ with
    ⟨e, rfl, he⟩ | ⟨A, fromCandidate, A', rfl, -, h₃⟩
  · exact .inl ⟨e, rfl, .inl he⟩
  rcases (pipeEnd_meets (L := Any) ..).makes_bind h₃ with
    ⟨e, rfl, he⟩ | ⟨B, toCandidate, B', rfl, -, h₃⟩
  · exact .inl ⟨e, rfl, .inl he⟩
  obtain ⟨T₇, hasInfo, T₈, rfl, -, h₄⟩ := makes_ofProgram_bind h₃
  rcases (Act.meets_say (Q := Any) (E := Mundane) _).makes_bind h₄ with
    ⟨e, rfl, he⟩ | ⟨T₉, ⟨⟩, T₁₀, rfl, -, h₅⟩
  · exact .inl ⟨e, rfl, .inl he⟩
  rcases (startInteractor_meets (L := Any) trivial started.pid).makes_bind h₅ with
    ⟨e, rfl, he⟩ | ⟨T₁₁, other, T₁₂, rfl, hother, h₆⟩
  · exact .inl ⟨e, rfl, .inl he⟩
  rcases (Act.meets_wait (L := Any) _).makes_bind h₆ with
    ⟨e, rfl, he⟩ | ⟨T₁₃, ended, T₁₄, rfl, hwait, h₇⟩
  · exact .inl ⟨e, rfl, .inl he⟩
  rcases (Act.meets_wait (L := Any) _).makes_bind h₇ with
    ⟨e, rfl, he⟩ | ⟨T₁₅, otherEnded, T₁₆, rfl, hotherWait, h₈⟩
  · exact .inl ⟨e, rfl, .inl he⟩
  have hother := startInteractor_yields hother
  have hended := answered_of_perform (yields_orElse hwait)
  have hotherEnded := answered_of_perform (yields_orElse hotherWait)
  refine .inr ⟨⟨.start (candidateLaunch s m v .pipe), .ok started⟩ ::
    (T₅ ++ A ++ B ++ T₇ ++ T₉ ++ T₁₁ ++ T₁₃ ++ T₁₅), T₁₆, ended, otherEnded, by simp, ⟨?_, ?_⟩, h₈⟩
  · exact ⟨started, ⟨_, _, rfl⟩, hended.mono fun e he => by simp [he]⟩
  · exact ⟨_, _, _, other, hother.mono fun e he => by simp [he],
      hotherEnded.mono fun e he => by simp [he]⟩

/-- **What follows from the way in which the interactor ended.** -/
theorem concludeDialogue_makes {candidate interactor : WaitStatus} {r : Except JudgeError Dialogue}
    (hm : Makes (concludeDialogue s case v candidate interactor).run T r) :
    (interactor.success = true ∧
      ((∃ log, r = .ok (.finished log candidate) ∧
          Answered T (.file (.read (v.runDir.child logName))) (.ok log)) ∨
        ∃ e, r = .error e ∧
          Makes (readAnswer (v.runDir.child logName) case.name).run T (.error e))) ∨
    (interactor.success = false ∧ s.options.mayFail case.name = true ∧
      ∃ log, r = .ok (.tolerated (log.toOption.getD []) candidate) ∧
        Answered T (.file (.read (v.runDir.child logName))) log) ∨
    (interactor.success = false ∧ s.options.mayFail case.name = false ∧ ∃ e, r = .error e) := by
  unfold concludeDialogue at hm
  split at hm
  · rename_i hsuccess
    refine .inl ⟨hsuccess, ?_⟩
    rcases makes_bind hm with ⟨e, rfl, hread⟩ | ⟨T₁, log, T₂, rfl, hread, hpure⟩
    · exact .inr ⟨e, rfl, hread⟩
    · obtain ⟨rfl, rfl⟩ := makes_pure hpure
      exact .inl ⟨log, rfl, (readAnswer_yields hread).mono (List.subset_append_left ..)⟩
  · rename_i hfailed
    have hfailed := Bool.eq_false_iff.mpr hfailed
    split at hm
    · rename_i hmay
      obtain ⟨T₁, ⟨⟩, T₂, rfl, -, hm⟩ := makes_ofProgram_bind hm
      obtain ⟨T₃, ⟨⟩, T₄, rfl, -, hm⟩ := makes_ofProgram_bind hm
      obtain ⟨T₅, log, T₆, rfl, hread, hpure⟩ := makes_ofProgram_bind hm
      obtain ⟨rfl, rfl⟩ := makes_pure hpure
      exact .inr (.inl ⟨hfailed, hmay, log, rfl,
        (answered_of_perform hread).mono fun e he => by simp [he]⟩)
    · rename_i hmay
      refine .inr (.inr ⟨hfailed, Bool.eq_false_iff.mpr hmay, ?_⟩)
      obtain ⟨T₁, kept, T₂, -, -, hm⟩ := makes_ofProgram_bind hm
      cases kept with
      | ok data =>
        obtain ⟨T₃, ⟨⟩, T₄, -, -, hm⟩ := makes_ofProgram_bind hm
        obtain ⟨T₅, ⟨⟩, T₆, -, -, hm⟩ := makes_ofProgram_bind hm
        exact ⟨_, (makes_pure hm).2⟩
      | error e => exact ⟨_, (makes_pure hm).2⟩

/-! ## The whole run -/

/-- **How judging goes.**  The candidate may not come so far that its run is concluded; the
interactor may fail; and otherwise the end of the run decides. -/
inductive Judged (s : Setup) (m : Metadata) (case : TestCase) (v : Invocation) (T : List Event) :
    Except JudgeError Outcome → Prop
  | mundane {e : JudgeError} (he : Mundane e) : Judged s m case v T (.error e)
  | notStarted {stdin : Wiring} {part : List Event} {e : JudgeError} (hpart : part ⊆ T)
      (hstart : Makes (startCandidate s m v stdin).run part (.error e)) :
      Judged s m case v T (.error e)
  | noLog {part : List Event} {e : JudgeError} (hi : s.options.interactor.isSome = true)
      (hpart : part ⊆ T)
      (hread : Makes (readAnswer (v.runDir.child logName) case.name).run part (.error e)) :
      Judged s m case v T (.error e)
  | failed {e : JudgeError} (hmay : s.options.mayFail case.name = false) :
      Judged s m case v T (.error e)
  | tolerated {i : Path} {log : Except OsError Bytes} {status : WaitStatus}
      (hi : s.options.interactor = some i) (hfailed : InteractorFailed s m v T i)
      (hmay : s.options.mayFail case.name = true)
      (hlog : Answered T (.file (.read (v.runDir.child logName))) log) :
      Judged s m case v T (.ok ⟨log.toOption.getD [], status.code, true⟩)
  | ran {before phase after last : List Event} {started : Started} {status : WaitStatus}
      {captured : Bytes} {r : Except JudgeError Outcome}
      (hcut : T = before ++ phase ++ (after ++ last)) (hran : CandidateRan s m v phase started status)
      (hcaptured : Captured s v phase after started captured)
      (hcontent : ∀ i, s.options.interactor = some i → InteractorContent s m v phase i)
      (hconclude : Makes (conclude s m case v captured status.code).run last r) :
      Judged s m case v T r

theorem judge_makes (hm : Makes (judge s m case v).run T r) : Judged s m case v T r := by
  unfold judge at hm
  split at hm
  · rename_i i hi
    have hsome : s.options.interactor.isSome = true := by rw [hi]; rfl
    rcases makes_bind hm with ⟨e, rfl, hdialogue⟩ | ⟨T₁, dialogue, T₂, rfl, hdialogue, hend⟩
    · rcases runInteractive_makes hdialogue with ⟨_, he, hmundane | hstart⟩ |
        ⟨phase, after, candidate, interactor, rfl, -, hconclude⟩
      · cases he
        exact .mundane hmundane
      · cases he
        exact .notStarted (List.Subset.refl _) hstart
      · rcases concludeDialogue_makes hconclude with ⟨-, ⟨_, he, -⟩ | ⟨_, he, hread⟩⟩ |
          ⟨-, -, _, he, -⟩ | ⟨-, hmay, -⟩
        · cases he
        · cases he
          exact .noLog hsome (List.subset_append_right ..) hread
        · cases he
        · exact .failed hmay
    · rcases runInteractive_makes hdialogue with ⟨_, he, -⟩ |
        ⟨phase, after, candidate, interactor, rfl, ⟨⟨started, hran⟩, arguments, fd, fd', other, hother,
          hwait⟩, hconclude⟩
      · cases he
      rcases concludeDialogue_makes hconclude with ⟨hsuccess, ⟨log, he, hlog⟩ | ⟨_, he, -⟩⟩ |
        ⟨hfailed, hmay, log, he, hlog⟩ | ⟨-, -, _, he⟩
      · cases he
        have hcut : phase ++ after ++ T₂ = [] ++ phase ++ (after ++ T₂) := by simp
        refine .ran hcut hran ?_ (fun i' hi' => ?_) hend
        · simpa [Captured, hi] using hlog
        · cases hi.symm.trans hi'
          exact ⟨arguments, fd, fd', other, interactor, hother, hwait, hsuccess⟩
      · cases he
      · cases he
        obtain ⟨rfl, rfl⟩ := makes_pure hend
        have hsub : phase ⊆ phase ++ after ++ [] := fun e he => by simp [he]
        refine .tolerated hi ⟨arguments, fd, fd', other, interactor, hother.mono hsub,
          hwait.mono hsub, hfailed⟩ hmay (hlog.mono fun e he => by simp [he])
      · cases he
  · rename_i hnone
    rcases makes_bind hm with
      ⟨e, rfl, hplain⟩ | ⟨T₁, ⟨captured, status⟩, T₂, rfl, hplain, hconclude⟩
    · rcases runPlain_error hplain with hmundane | ⟨part, stdin, hpart, hstart⟩
      · exact .mundane hmundane
      · exact .notStarted hpart hstart
    · obtain ⟨before, phase, started, rfl, hran, hdrained⟩ := runPlain_yields hplain
      have hcut : before ++ phase ++ T₂ = before ++ phase ++ ([] ++ T₂) := by simp
      refine .ran hcut hran ?_ (by simp [hnone]) hconclude
      simpa [Captured, hnone] using hdrained

theorem judge_yields (hprepare : s.options.prepareAnswers = false) (hskipped : o.skipped = false)
    (hy : Yields (judge s m case v) T o) :
    ∃ before phase after status answer, T = before ++ phase ++ after ∧
      Passing s m case v phase after status answer := by
  cases judge_makes hy with
  | tolerated hi hfailed hmay hlog => cases hskipped
  | @ran before phase after last started status captured r hcut hran hcaptured hcontent hconclude =>
    obtain ⟨hexit, answer, hproduced, haccepted⟩ := conclude_yields hprepare hskipped hconclude
    have hsub : last ⊆ after ++ last := List.subset_append_right ..
    refine ⟨before, phase, after ++ last, status, answer, hcut, ⟨?_, hexit, hcontent, ?_⟩⟩
    · exact ⟨started, captured, hran, hcaptured.mono (List.subset_append_left ..),
        hproduced.mono hsub⟩
    · exact haccepted.mono hsub

end Sandbox

/-- **The parts of what is done around a body**: the helper is not acquired, or the body comes to
the result and the helper is released after it. -/
theorem Helper.around_parts {α : Type} {h : Helper} {tillEnd : Bool} {body : Act α}
    {r : Except JudgeError α} (hm : Makes (h.around tillEnd body).run T r) :
    (∃ e, r = .error e ∧ Makes (h.acquire tillEnd).run T (.error e)) ∨
    ∃ hold T₁ T₂ T₃ released, T = T₁ ++ T₂ ++ T₃ ∧ Yields (h.acquire tillEnd) T₁ hold ∧
      Makes body.run T₂ r ∧ Makes (h.release hold).run T₃ released := by
  rcases makes_bind hm with hmissed | ⟨T₁, hold, T₂, rfl, hacquire, hrest⟩
  · exact .inl hmissed
  obtain ⟨T₃, result, T₄, rfl, hbody, hrest⟩ := makes_ofProgram_bind hrest
  obtain ⟨T₅, released, T₆, rfl, hrelease, hresult⟩ := makes_ofProgram_bind hrest
  obtain ⟨rfl, rfl⟩ := makes_pure hresult
  exact .inr ⟨hold, T₁, T₃, T₅, released, by simp, hacquire, hbody, hrelease⟩

theorem Invocation.build_reference {cwd runDir : Path} {inherited : Vars} {options : Options}
    (hbuild : Invocation.build cwd inherited options m case runDir = .ok v) :
    v.reference = case.reference := by
  obtain ⟨own, argv, -, -, rfl⟩ := Invocation.build_eq_ok hbuild
  rfl

/-- **A run comes to what judging comes to**, unless something mundane failed before. -/
theorem Sandbox.run_makes (hm : Makes (Sandbox.run s m case).run T r) :
    (∃ e, r = .error e ∧ Mundane e) ∨
    ∃ runDir v before body after, T = before ++ body ++ after ∧
      Invocation.build s.cwd s.inherited s.options m case runDir = .ok v ∧
      Makes (judge s m case v).run body r := by
  rcases (RunDirectory.build_meets (L := Any) ..).makes_bind hm with
    hfailed | ⟨T₁, runDir, T₂, rfl, -, hrest⟩
  · exact .inl hfailed
  rcases makes_bind hrest with ⟨e, rfl, hbuild⟩ | ⟨T₃, v, T₄, rfl, hbuild, hrest⟩
  · exact .inl ⟨e, rfl, Invocation.build_error (makes_pure hbuild).2.symm⟩
  have hbuilt := (Act.yields_ofExcept hbuild).2
  obtain ⟨T₅, ⟨⟩, T₆, rfl, -, hrest⟩ := makes_ofProgram_bind hrest
  split at hrest
  · exact .inr ⟨runDir, v, T₁ ++ T₃ ++ T₅, T₆, [], by simp, hbuilt, hrest⟩
  rcases makes_bind hrest with ⟨e, rfl, hhelper⟩ | ⟨T₇, h, T₈, rfl, -, haround⟩
  · exact .inl ⟨e, rfl, Helper.ofCommand_error (makes_pure hhelper).2.symm⟩
  obtain ⟨e, rfl, hmissed⟩ | ⟨hold, T₉, body, after, -, rfl, -, hbody, -⟩ :=
    Helper.around_parts haround
  · have hacquire := Helper.acquire_meets (h := h) (L := Any) (fun _ => trivial)
      s.options.initializerRunTillEnd
    exact .inl ⟨e, rfl, hacquire.error hmissed⟩
  · exact .inr ⟨runDir, v, T₁ ++ T₃ ++ T₅ ++ T₇ ++ T₉, body, after, by simp, hbuilt, hbody⟩

/-- **A run without a failure, seen or looked away from, is a passing one.** -/
theorem Sandbox.run_passing (hprepare : s.options.prepareAnswers = false)
    (hskipped : o.skipped = false) (hy : Yields (Sandbox.run s m case) T o) :
    ∃ runDir v before phase after status answer,
      Invocation.build s.cwd s.inherited s.options m case runDir = .ok v ∧
      T = before ++ phase ++ after ∧ Passing s m case v phase after status answer := by
  obtain ⟨e, he, -⟩ | ⟨runDir, v, T₁, body, T₂, rfl, hbuilt, hjudge⟩ := run_makes hy
  · cases he
  obtain ⟨before, phase, after, status, answer, rfl, hpassing⟩ :=
    judge_yields hprepare hskipped hjudge
  exact ⟨runDir, v, T₁ ++ before, phase, after ++ T₂, status, answer, hbuilt, by simp,
    hpassing.mono (List.subset_append_left ..)⟩

end Judge
