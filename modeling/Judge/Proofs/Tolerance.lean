import Judge.Proofs.Hosts
import Judge.Proofs.PassingRun

/-!
# Proofs/Tolerance — which failures of a candidate are looked away from

A test that may fail is skipped, and not failed, when the exit code is wrong, the interactor fails
or the checker finds the answer wrong (`Forgiven`).  A candidate can fail in three more ways: it
cannot be started, it does not write the file that is read, or it writes where nothing is expected.
These are errors for every test (`Unforgiven`).  `Sandbox.tolerance_of_failures` says that there is
no third kind.
-/

namespace Judge

open Program (Makes makes_pure)

/-! ## Failures of a candidate -/

/-- **A failure that can be looked away from**: the exit code was wrong, the interactor failed, or
the checker ended with an error about the candidate. -/
inductive Forgiven (s : Setup) (m : Metadata) (case : TestCase) (v : Invocation)
    (T : List Event) : Prop
  | exitCode {phase : List Event} {started : Started} {status : WaitStatus} (hpart : phase ⊆ T)
      (hran : CandidateRan s m v phase started status) (hchecks : s.checker.checksExitCode = true)
      (hcode : m.expectedExit.accepts status.code = false)
  | interactor {i : Path} (hi : s.options.interactor = some i)
      (hfailed : InteractorFailed s m v T i)
  | checker {part : List Event} {exitCode : Int} {file : String} {answer : Bytes}
      {message : String} (hpart : part ⊆ T)
      (hcheck : Makes (s.checker.check s.inherited (requestOf s case v exitCode file)
        answer).run part (.error (.candidate message)))

/-- A file in the run directory that the judge reads: the log of the interactor, or the file that
the candidate is to write. -/
def Setup.Awaits (s : Setup) (name : String) : Prop :=
  s.options.outputFile = some name ∨ s.options.interactor.isSome = true ∧ name = Sandbox.logName

/-- **A failure that is an error for every test**: the candidate was not started, a file that is
read was not there, or something was captured where a file was to be written. -/
inductive Unforgiven (s : Setup) (m : Metadata) (case : TestCase) (v : Invocation)
    (T : List Event) : JudgeError → Prop
  | notStarted {stdin : Wiring} {e : OsError}
      (hstart : Answered T (.start (Sandbox.candidateLaunch s m v stdin)) (.error e)) :
      Unforgiven s m case v T
        (.candidate ("Failed to start " ++ v.executable.display ++ ": " ++ e.text))
  | noAnswer {name : String} {e : OsError} (hname : s.Awaits name)
      (hread : Answered T (.file (.read (v.runDir.child name))) (.error e)) :
      Unforgiven s m case v T (.candidate ("No output " ++ (v.runDir.child name).display ++
        " on test " ++ case.name ++ ": " ++ e.text))
  | unexpected {phase after : List Event} {started : Started} {status : WaitStatus}
      {captured : Bytes} (hphase : phase ⊆ T) (hafter : after ⊆ T)
      (hran : CandidateRan s m v phase started status)
      (hcaptured : Captured s v phase after started captured) (hsome : captured ≠ [])
      (hfile : s.options.outputFile.isSome = true) :
      Unforgiven s m case v T (Sandbox.unexpectedOutput case)

/-- An error that no tolerance covers. -/
def Uncovered (s : Setup) (m : Metadata) (case : TestCase) (v : Invocation) (T : List Event)
    (e : JudgeError) : Prop :=
  Mundane e ∨ Unforgiven s m case v T e

variable {s : Setup} {m : Metadata} {case : TestCase} {v : Invocation} {T T' : List Event}

theorem Forgiven.mono (h : Forgiven s m case v T) (hsub : T ⊆ T') : Forgiven s m case v T' := by
  cases h with
  | exitCode hpart hran hchecks hcode =>
    exact .exitCode (List.Subset.trans hpart hsub) hran hchecks hcode
  | interactor hi hfailed =>
    obtain ⟨arguments, fd, fd', started, status, hstart, hwait, hfailed⟩ := hfailed
    exact .interactor hi
      ⟨arguments, fd, fd', started, status, hstart.mono hsub, hwait.mono hsub, hfailed⟩
  | checker hpart hcheck => exact .checker (List.Subset.trans hpart hsub) hcheck

theorem Unforgiven.mono {e : JudgeError} (h : Unforgiven s m case v T e) (hsub : T ⊆ T') :
    Unforgiven s m case v T' e := by
  cases h with
  | notStarted hstart => exact .notStarted (hstart.mono hsub)
  | noAnswer hname hread => exact .noAnswer hname (hread.mono hsub)
  | unexpected hphase hafter hran hcaptured hsome hfile =>
    exact .unexpected (List.Subset.trans hphase hsub) (List.Subset.trans hafter hsub) hran hcaptured
      hsome hfile

theorem Uncovered.mono {e : JudgeError} (h : Uncovered s m case v T e) (hsub : T ⊆ T') :
    Uncovered s m case v T' e :=
  h.imp_right fun hu => hu.mono hsub

namespace Sandbox

variable {r : Except JudgeError Outcome} {e : JudgeError}

/-! ## The candidate and the interactor -/

theorem startCandidate_error {stdin : Wiring}
    (hm : Makes (startCandidate s m v stdin).run T (.error e)) : Unforgiven s m case v T e := by
  obtain ⟨cause, hstart, rfl⟩ := Act.fails_orElse hm
  exact .notStarted (Program.answered_of_perform hstart)

theorem readAnswer_error {name : String} (hname : s.Awaits name)
    (hm : Makes (readAnswer (v.runDir.child name) case.name).run T (.error e)) :
    Unforgiven s m case v T e := by
  obtain ⟨cause, hread, rfl⟩ := Act.fails_orElse hm
  exact .noAnswer hname (Program.answered_of_perform hread)

/-! ## The answer -/

/-- Something was captured where a file was to be written. -/
structure Misplaced (s : Setup) (case : TestCase) (captured : Bytes) (e : JudgeError) : Prop where
  error : e = unexpectedOutput case
  captured : captured ≠ []
  file : s.options.outputFile.isSome = true

theorem produced_error {captured : Bytes}
    (hm : Makes (produced s case v captured).run T (.error e)) :
    Unforgiven s m case v T e ∨ Misplaced s case captured e := by
  unfold produced at hm
  split at hm
  · rename_i name hfile
    split at hm
    · split at hm
      · rename_i hsome
        obtain ⟨-, he⟩ := makes_pure hm
        cases he
        exact .inr ⟨rfl, by rintro rfl; simp at hsome, by rw [hfile]; rfl⟩
      · exact .inl (readAnswer_error (.inl hfile) hm)
    · cases (makes_pure hm).2
  · cases (makes_pure hm).2

theorem checkedFile_error {answer : Bytes}
    (hm : Makes (checkedFile s case v answer).run T (.error e)) :
    Mundane e ∨ s.checker.isExternal = true ∧ Misplaced s case answer e := by
  unfold checkedFile at hm
  split at hm
  · rename_i name hfile
    split at hm
    · rename_i hsome
      obtain ⟨-, he⟩ := makes_pure hm
      cases he
      rw [Bool.and_eq_true] at hsome
      exact .inr ⟨hsome.1, rfl, by rintro rfl; simp at hsome, by rw [hfile]; rfl⟩
    · cases (makes_pure hm).2
  · refine .inl (Act.Meets.error (Q := Any) (R := Any) ?_ hm)
    split
    · exact Act.Meets.bind (Act.meets_ofSystem (Program.meets_one trivial)) fun _ _ => .done trivial
    · exact .done trivial

variable {exitCode : Int}

/-- **A wrong answer is looked away from** only where the test may fail. -/
theorem checkAnswer_true {answer : Bytes}
    (hy : Act.Yields (checkAnswer s case v exitCode answer) T true) :
    s.options.mayFail case.name = true ∧ ∃ part file message, part ⊆ T ∧
      Makes (s.checker.check s.inherited (requestOf s case v exitCode file) answer).run part
        (.error (.candidate message)) := by
  obtain ⟨T₁, file, T₂, rfl, -, hrest⟩ := Act.yields_bind hy
  obtain ⟨T₃, result, T₄, rfl, hcheck, hmatch⟩ := Act.yields_bind hrest
  have hcheck := Act.yields_ofProgram hcheck
  cases result with
  | ok u => cases (Act.yields_pure hmatch).2
  | error e =>
    dsimp only at hmatch
    split at hmatch
    · rename_i hskip
      obtain ⟨hskippable, hmay⟩ := Bool.and_eq_true_iff.mp hskip
      refine ⟨hmay, T₃, file, ?_⟩
      cases e with
      | candidate message => exact ⟨message, fun e he => by simp [he], hcheck⟩
      | _ => cases hskippable
    · exact absurd hmatch Act.not_yields_throw

/-- Where the test may fail, checking is an error only if nothing was to be captured. -/
theorem checkAnswer_error {answer : Bytes} (hmay : s.options.mayFail case.name = true)
    (hm : Makes (checkAnswer s case v exitCode answer).run T (.error e)) :
    Mundane e ∨ s.checker.isExternal = true ∧ Misplaced s case answer e := by
  rcases Act.makes_bind hm with ⟨_, he, hfile⟩ | ⟨T₁, file, T₂, rfl, -, hrest⟩
  · cases he
    exact checkedFile_error hfile
  obtain ⟨T₃, result, T₄, rfl, hcheck, hmatch⟩ := Act.makes_ofProgram_bind hrest
  cases result with
  | ok u => cases (makes_pure hmatch).2
  | error cause =>
    have hofRun := (Checker.check_meets (s := s) (m := {}) (v := v) ..).error hcheck
    simp only [hmay, Bool.and_true] at hmatch
    split at hmatch
    · exact (Act.Meets.error (Q := Any) (E := fun _ => False) (R := Any)
        (Act.Meets.bind (Act.meets_say _) fun _ _ => Act.meets_pure trivial) hmatch).elim
    · rename_i hskippable
      obtain ⟨-, he⟩ := makes_pure hmatch
      cases he
      cases e with
      | candidate message => exact absurd rfl hskippable
      | _ => exact .inl hofRun

/-- **What is looked away from at the end of a run**: a wrong exit code, or a wrong answer. -/
theorem conclude_skipped {captured : Bytes} {o : Outcome} (hskipped : o.skipped = true)
    (hy : Act.Yields (conclude s m case v captured exitCode) T o) :
    s.options.mayFail case.name = true ∧
    (s.checker.checksExitCode = true ∧ m.expectedExit.accepts exitCode = false ∨
      ∃ part file answer message, part ⊆ T ∧
        Makes (s.checker.check s.inherited (requestOf s case v exitCode file) answer).run
          part (.error (.candidate message))) := by
  cases conclude_makes hy with
  | wrongCode hchecks hcode hmay => exact ⟨hmay, .inl ⟨hchecks, hcode⟩⟩
  | @ended T₁ T₂ answer skipped hfirst hsecond hexit hproduced hcheck =>
    obtain rfl : skipped = true := hskipped
    split at hcheck
    · cases hcheck
    · obtain ⟨hmay, part, file, message, hpart, hcheck⟩ := checkAnswer_true hcheck
      exact ⟨hmay, .inr ⟨part, file, answer, message, List.Subset.trans hpart hsecond, hcheck⟩⟩

/-- **Where the test may fail, the end of a run is an error** only if something mundane failed, the
answer is not there, or something was captured where a file was to be written. -/
theorem conclude_error {captured : Bytes} (hmay : s.options.mayFail case.name = true)
    (hm : Makes (conclude s m case v captured exitCode).run T (.error e)) :
    Uncovered s m case v T e ∨ Misplaced s case captured e := by
  cases conclude_makes hm with
  | rejected hnot => cases hmay.symm.trans hnot
  | mundane he => exact .inl (.inl he)
  | noAnswer hproduced => exact (produced_error hproduced).imp_left .inr
  | @unchecked T₁ T₂ answer e hprepare hproduced hcheck =>
    rcases checkAnswer_error hmay hcheck with hmundane | ⟨hexternal, hmisplaced⟩
    · exact .inl (.inl hmundane)
    · -- with an external checker the answer is what was captured
      have hproduced := produced_yields hprepare hproduced
      have hsame : answer = captured := by
        unfold Produced at hproduced
        split at hproduced
        · rwa [if_pos hexternal] at hproduced
        · exact hproduced
      exact .inr (hsame ▸ hmisplaced)

/-! ## The whole run -/

theorem judge_skipped {o : Outcome} (hskipped : o.skipped = true)
    (hy : Act.Yields (judge s m case v) T o) :
    s.options.mayFail case.name = true ∧ Forgiven s m case v T := by
  cases judge_makes hy with
  | tolerated hi hfailed hmay hlog => exact ⟨hmay, .interactor hi hfailed⟩
  | @ran before phase after last started status captured r hcut hran hcaptured hcontent hconclude =>
    subst hcut
    obtain ⟨hmay, ⟨hchecks, hcode⟩ | ⟨part, file, answer, message, hpart, hcheck⟩⟩ :=
      conclude_skipped hskipped hconclude
    · exact ⟨hmay, .exitCode (fun e he => by simp [he]) hran hchecks hcode⟩
    · exact ⟨hmay, .checker (List.Subset.trans hpart fun e he => by simp [he]) hcheck⟩

theorem judge_error (hmay : s.options.mayFail case.name = true)
    (hm : Makes (judge s m case v).run T (.error e)) : Uncovered s m case v T e := by
  cases judge_makes hm with
  | mundane he => exact .inl he
  | notStarted hpart hstart => exact .inr ((startCandidate_error hstart).mono hpart)
  | noLog hi hpart hread => exact .inr ((readAnswer_error (.inr ⟨hi, rfl⟩) hread).mono hpart)
  | failed hnot => cases hmay.symm.trans hnot
  | @ran before phase after last started status captured r hcut hran hcaptured hcontent hconclude =>
    subst hcut
    rcases conclude_error hmay hconclude with huncovered | ⟨rfl, hsome, hfile⟩
    · exact huncovered.mono fun e he => by simp [he]
    · exact .inr (.unexpected (fun e he => by simp [he]) (fun e he => by simp [he]) hran hcaptured
        hsome hfile)

/-- **A run that looks away from a failure** is one of a test that may fail. -/
theorem run_skipped {o : Outcome} (hskipped : o.skipped = true)
    (hy : Act.Yields (run s m case) T o) :
    s.options.mayFail case.name = true ∧ ∃ runDir v,
      Invocation.build s.cwd s.inherited s.options m case runDir = .ok v ∧
      Forgiven s m case v T := by
  obtain ⟨e, he, -⟩ | ⟨runDir, v, before, body, after, rfl, hbuilt, hjudge⟩ := run_makes hy
  · cases he
  obtain ⟨hmay, hforgiven⟩ := judge_skipped hskipped hjudge
  exact ⟨hmay, runDir, v, hbuilt, hforgiven.mono fun e he => by simp [he]⟩

/-- **A run of a test that may fail ends with an error** only if something mundane failed, or the
candidate failed in a way that is an error for every test. -/
theorem run_error (hmay : s.options.mayFail case.name = true)
    (hm : Makes (run s m case).run T (.error e)) :
    Mundane e ∨ ∃ runDir v, Invocation.build s.cwd s.inherited s.options m case runDir = .ok v ∧
      Unforgiven s m case v T e := by
  obtain ⟨_, he, hmundane⟩ | ⟨runDir, v, before, body, after, rfl, hbuilt, hjudge⟩ := run_makes hm
  · cases he
    exact .inl hmundane
  refine (judge_error hmay hjudge).imp_right fun hunforgiven => ⟨runDir, v, hbuilt, ?_⟩
  exact hunforgiven.mono fun e he => by simp [he]

/-- **Which failures are looked away from.**  A run of a test that may fail ends in one of three
ways.  It fails because of something mundane, or because the candidate was not started, its answer
was not there, or it wrote where nothing was expected; it looks away from a wrong exit code, a
failed interactor or a wrong answer; or everything was well. -/
theorem tolerance_of_failures {r : Except JudgeError Outcome}
    (hmay : s.options.mayFail case.name = true) (hm : Program.Makes (run s m case).run T r) :
    (∀ e, r = .error e → Mundane e ∨ ∃ runDir v,
      Invocation.build s.cwd s.inherited s.options m case runDir = .ok v ∧
      Unforgiven s m case v T e) ∧
    (∀ o, r = .ok o → o.skipped = true → ∃ runDir v,
      Invocation.build s.cwd s.inherited s.options m case runDir = .ok v ∧
      Forgiven s m case v T) ∧
    (∀ o, r = .ok o → o.skipped = false → s.options.prepareAnswers = false →
      ∃ runDir v before phase after status answer,
        Invocation.build s.cwd s.inherited s.options m case runDir = .ok v ∧
        T = before ++ phase ++ after ∧ Passing s m case v phase after status answer) := by
  refine ⟨?_, ?_, ?_⟩
  · rintro e rfl
    exact run_error hmay hm
  · rintro o rfl hskipped
    exact (run_skipped hskipped hm).2
  · rintro o rfl hskipped hprepare
    exact run_passing hprepare hskipped hm

end Sandbox

/-! A candidate of a test that may fail, which writes the right answer to its file and a line beside
it. -/

/-- A setup outside a pipeline, with a file to write. -/
def noisySetup : Setup :=
  { plainSetup with options := { outputFile := some "out.txt", mayFailLocal := ["001"] } }

/-- A host with the answer in the file, whose candidate writes a line and ends with success. -/
def noisyHost : Host Nat :=
  Host.prompt ["001"] (fun _ p =>
    if p = .ofString "/p/run/out.txt" then some (utf8 "42\n") else none) "noise\n" 0

theorem run_noisyHost :
    ((Sandbox.run noisySetup {} Host.promptCase).run.run noisyHost.answer 0).map (·.1) =
      some (.error (Sandbox.unexpectedOutput Host.promptCase)) := by
  decide +kernel

/-- The line beside the answer is an error, though the test may fail. -/
theorem noise_fails_tolerated_test :
    noisySetup.surroundings.pipeline = false ∧
      noisySetup.options.mayFail Host.promptCase.name = true ∧
      ∃ T, Program.Makes (Sandbox.run noisySetup {} Host.promptCase).run T
        (.error (.candidate "Unexpected output on test 001")) := by
  obtain ⟨⟨r, n⟩, hrun, rfl⟩ := Option.map_eq_some_iff.mp run_noisyHost
  exact ⟨rfl, by decide, Program.exists_makes hrun⟩

/-- The error is one of those that no tolerance covers. -/
theorem noise_is_unforgiven :
    ∃ T runDir v, Invocation.build noisySetup.cwd noisySetup.inherited noisySetup.options {}
        Host.promptCase runDir = .ok v ∧
      Unforgiven noisySetup {} Host.promptCase v T
        (.candidate "Unexpected output on test 001") := by
  obtain ⟨⟨r, n⟩, hrun, rfl⟩ := Option.map_eq_some_iff.mp run_noisyHost
  obtain ⟨T, hm⟩ := Program.exists_makes hrun
  rcases (Sandbox.tolerance_of_failures (by decide) hm).1 _ rfl with hmundane | hunforgiven
  · exact hmundane.elim
  · exact ⟨T, hunforgiven⟩

end Judge
