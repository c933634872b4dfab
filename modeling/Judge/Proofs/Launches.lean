import Judge.Proofs.Basic
import Judge.Proofs.Contracts
import Judge.Suite.Runner

/-!
# Proofs/Launches — what a suite starts, and how its parts fail

Every process that a suite starts is a candidate, or one that helps the judge: an interactor, a
helper, or a checker (`Launched`).  The parts of a suite fail in few ways: apart from the check of
the time, the look for processes left behind and the look at a seal, they fail with what the
candidate did wrong or with something that has nothing to do with it (`Mundane`).  Both are
contracts, proved for each program along its text, up to the whole suite (`runSuite_meets`).  The
same contracts say that nothing is stored in the course of a run while answers are prepared
(`Sandbox.run_spares`): only a checker needs files of its own.
-/

namespace Judge

open Call (StartsOnly Gentle Spares Mild Builds)

variable {L : Launch → Prop} {Q : Call → Prop}

/-- An error that is not about the candidate: an operation, a setting or the judge itself failed. -/
def Mundane : JudgeError → Prop
  | .io _ | .system _ | .config _ | .internal _ => True
  | _ => False

/-- An error of a run: about the candidate, or mundane. -/
def OfRun : JudgeError → Prop
  | .candidate _ => True
  | e => Mundane e

theorem ofRun_of_mundane {e : JudgeError} (h : Mundane e) : OfRun e := by
  cases e <;> trivial

/-- What fails in a mundane way only fails as a run may. -/
theorem ends_of_mundane {α : Type} {r : Except JudgeError α}
    (h : ∀ {e}, r = .error e → Mundane e) : Ends OfRun (r = .ok ·) r := by
  cases r with
  | ok a => exact rfl
  | error e => exact ofRun_of_mundane (h rfl)

theorem Act.meets_ofSystem {α : Type} {p : Program (Except OsError α)} (hp : p.Meets Q Any) :
    Act.Meets Q Mundane Any (Act.ofSystem p) :=
  Act.meets_orElse hp fun _ => trivial

theorem Act.Meets.ofRun {α : Type} {x : Act α} {R : α → Prop} (hx : Act.Meets Q Mundane R x) :
    Act.Meets Q OfRun R x :=
  hx.mono (fun _ => ofRun_of_mundane) fun _ h => h

variable [Call.Allows Q]

/-! ## Files and lines -/

namespace Program

theorem meets_writePieces (fd fuel : Nat) (data : Bytes) :
    (writePieces fd fuel data).Meets Q Any := by
  induction fuel generalizing data with
  | zero => exact .done trivial
  | succ fuel ih =>
    unfold writePieces
    split
    · exact .done trivial
    · refine Meets.bind (meets_harmless trivial) fun r _ => ?_
      cases r with
      | ok n => exact ih _
      | error e => exact .done trivial

theorem meets_printLine (text : String) : (printLine text).Meets Q Any :=
  (meets_writePieces ..).bind fun _ _ => .done trivial

variable (p : Path)

theorem meets_isFile : (isFile p).Meets Q Any :=
  Meets.bind (meets_harmless trivial) fun r _ => by cases r <;> exact .done trivial

theorem meets_isDir : (isDir p).Meets Q Any :=
  Meets.bind (meets_harmless trivial) fun r _ => by cases r <;> exact .done trivial

theorem meets_exists : (Program.exists p).Meets Q Any :=
  Meets.bind (meets_harmless trivial) fun r _ => by cases r <;> exact .done trivial

theorem meets_ensureDir : (ensureDir p).Meets (Builds) Any := by
  refine Meets.bind (meets_one trivial) fun r _ => ?_
  cases r with
  | ok u => exact .done trivial
  | error e => exact (meets_isDir p).bind fun b _ => by cases b <;> exact .done trivial

theorem meets_makeDirs (fuel : Nat) (p : Path) : (makeDirs fuel p).Meets (Builds) Any := by
  induction fuel generalizing p with
  | zero =>
    unfold makeDirs
    split
    · exact .done trivial
    · exact meets_ensureDir p
  | succ fuel ih =>
    unfold makeDirs
    split
    · exact .done trivial
    · refine Meets.bind (meets_one trivial) fun r _ => ?_
      cases r with
      | ok u => exact .done trivial
      | error e =>
        dsimp only
        split
        · cases p.parent? with
          | none => exact .done trivial
          | some above =>
            refine (ih above).bind fun r _ => ?_
            cases r with
            | ok u => exact meets_ensureDir p
            | error e => exact .done trivial
        · exact (meets_isDir p).bind fun b _ => by cases b <;> exact .done trivial

end Program

namespace Act

variable {E : JudgeError → Prop} {α : Type}

theorem meets_say (text : String) : Meets Q E Any (say text) :=
  meets_ofProgram (Program.meets_printLine text)

theorem meets_wait (pid : Pid) : Meets (Mild L) Mundane Any (ofSystem (Program.wait pid)) :=
  meets_ofSystem (Program.meets_one trivial)

omit [Call.Allows Q] in
theorem meets_sparing {spared : OsError} {p : Program (Except OsError Unit)}
    {tell : OsError → JudgeError} (hp : p.Meets Q Any) (htell : ∀ e, E (tell e)) :
    Meets Q E Any (sparing spared p tell) := by
  refine Meets.bind (meets_ofProgram hp) fun r _ => ?_
  cases r with
  | ok u => exact .done trivial
  | error e =>
    dsimp only
    split
    · exact .done trivial
    · exact .done (htell e)

omit [Call.Allows Q] in
theorem meets_signal {pid : Int} {s : Signal} (hs : Q (.kill pid s)) :
    Meets Q Mundane Any (signal pid s) :=
  meets_sparing (Program.meets_one hs) fun _ => trivial

end Act

open Program (meets_harmless meets_isFile meets_makeDirs meets_one meets_printLine meets_pure)
open Act (Meets meets_ofExcept meets_ofProgram meets_ofSystem meets_orElse meets_say meets_throw
  meets_wait ofSystem)

/-! ## The run directory -/

namespace RunDirectory

theorem clear_meets (dst : Path) : Meets (Mild L) Mundane Any (clear dst) :=
  Act.meets_sparing (meets_one trivial) fun _ => trivial

theorem linkAll_meets (fixture dst : Path) (names : List Bytes) :
    Meets Builds Mundane Any (linkAll fixture dst names) := by
  induction names with
  | nil => exact .done trivial
  | cons name names ih =>
    exact .ask_bind trivial fun _ => ih

theorem overlayLinks_meets (cwd fixture dst : Path) :
    Meets Builds Mundane Any (overlayLinks cwd fixture dst) := by
  refine (meets_ofSystem (meets_makeDirs ..)).bind fun _ _ => ?_
  exact .ask_bind trivial fun _ => linkAll_meets ..

theorem copyFile_meets (p target : Path) : Meets Builds Mundane Any (copyFile p target) := by
  refine (meets_ofProgram (meets_isFile p)).bind fun b _ => ?_
  cases b with
  | true => exact meets_ofSystem (meets_one trivial)
  | false =>
    exact .ask_bind trivial fun _ => .done trivial

theorem copyAll_meets {copy : Path → Path → Act Unit}
    (hcopy : ∀ p target, Meets Builds Mundane Any (copy p target)) (p target : Path)
    (names : List Bytes) : Meets Builds Mundane Any (copyAll copy p target names) := by
  induction names with
  | nil => exact .done trivial
  | cons name names ih => exact (hcopy ..).bind fun _ _ => ih

theorem copyEntry_meets (fixture : Path) (depth : Nat) (ancestors : List (Path × Place))
    (p target : Path) : Meets Builds Mundane Any (copyEntry fixture depth ancestors p target) := by
  induction depth generalizing ancestors p target with
  | zero =>
    rw [copyEntry]
    exact .done trivial
  | succ depth ih =>
    rw [copyEntry]
    refine .ask_bind trivial fun own => ?_
    refine .ask_bind trivial fun kind => ?_
    split
    · refine .ask_bind trivial fun place => ?_
      have hrest : Meets Builds Mundane Any (do
          ofSystem (Program.makeDirAll target)
          let names ← Act.orElse (Program.onFiles (.list p)) (walkRefusal fixture p)
          copyAll (copyEntry fixture depth ((p, place) :: ancestors)) p target names) := by
        refine (meets_ofSystem (meets_makeDirs ..)).bind fun _ _ => ?_
        exact .ask_bind trivial fun names => copyAll_meets (ih _) ..
      split
      · refine Act.Meets.bind (S := Any) ?_ fun _ _ => hrest
        unfold checkLoop
        split <;> exact .done trivial
      · exact hrest
    · exact copyFile_meets p target

theorem fill_meets (cwd fixture : Path) (mode : Overlay) (dst : Path) :
    Meets Builds Mundane Any (fill cwd fixture mode dst) := by
  refine (meets_ofProgram (Program.meets_exists fixture)).bind fun b _ => ?_
  cases b with
  | false => exact meets_ofSystem (meets_makeDirs ..)
  | true =>
    cases mode with
    | links => exact overlayLinks_meets ..
    | copy => exact copyEntry_meets ..

theorem build_meets (cwd fixture : Path) (mode : Overlay) (dst : Path) :
    Meets (Mild L) Mundane Any (build cwd fixture mode dst) := by
  refine (clear_meets dst).bind fun _ _ => ?_
  exact ((fill_meets ..).weaken fun _ hc => hc.mild).bind fun _ _ => .done trivial

end RunDirectory

/-! ## The process table -/

namespace ProcessTable

theorem readEntry_meets (root : Path) (pid : Int) :
    Meets (Mild L) Mundane Any (readEntry root pid) := by
  refine .ask_bind trivial fun stat => ?_
  split
  · exact .done trivial
  · refine Act.Meets.bind (meets_ofProgram (R := Any) ?_) fun _ _ => .done trivial
    exact Program.Meets.bind (meets_one trivial)
      fun r _ => by cases r <;> exact .done trivial

theorem childrenAmong_meets (root : Path) (parent : Int) (pids : List Int) :
    (childrenAmong root parent pids).Meets (Mild L) Any := by
  induction pids with
  | nil => exact .done trivial
  | cons pid pids ih =>
    refine Program.Meets.bind (readEntry_meets root pid) fun entry _ => ?_
    refine ih.bind fun others _ => ?_
    cases entry <;> exact .done trivial

theorem childrenOf_meets (root : Path) (parent : Int) :
    Meets (Mild L) Mundane Any (childrenOf root parent) := by
  refine .ask_bind trivial fun names => ?_
  exact (meets_ofProgram (childrenAmong_meets ..)).bind fun _ _ => .done trivial

theorem waitForChild_meets (root : Path) (parent : Int) (delay : Span) (attempts : Nat) :
    Meets (Mild L) Mundane Any (waitForChild root parent delay attempts) := by
  induction attempts with
  | zero => exact .done trivial
  | succ attempts ih =>
    refine (childrenOf_meets root parent).bind fun children _ => ?_
    split
    · exact .done trivial
    · exact .call_bind trivial fun _ => ih

end ProcessTable

/-! ## Starting processes -/

/-- **A process that helps the judge**: the interactor, the helper or the checker of a setup. -/
inductive Assists (s : Setup) : Launch → Prop
  | interactor {i : Path} (hi : s.options.interactor = some i) (m : Metadata) (v : Invocation)
      (arguments : List String) (fromCandidate toCandidate : Descriptor) :
      Assists s (Sandbox.interactorLaunch m v
        (Path.absolute s.cwd (s.options.problemDir.join i)) arguments fromCandidate toCandidate)
  | helper {command : String} {v : Invocation} {h : Helper}
      (hi : s.options.initializer = some command)
      (hh : Helper.ofCommand s.cwd s.options.problemDir command v = .ok h) (verb : String) :
      Assists s (h.launch verb)
  | checker {program : Path} (hc : s.checker = .external program) (request : CheckRequest) :
      Assists s (Checker.externalLaunch s.inherited program request)

/-- **A process that a suite starts**: a candidate, with its invocation, or one that helps. -/
inductive Launched (s : Setup) : Launch → Prop
  | candidate {m : Metadata} {case : TestCase} {runDir : Path} {v : Invocation}
      (hv : Invocation.build s.cwd s.inherited s.options m case runDir = .ok v) (stdin : Wiring) :
      Launched s (Sandbox.candidateLaunch s m v stdin)
  | assistant {l : Launch} (hl : Assists s l) : Launched s l

/-- **A process that a run judges with**: the candidate, its interactor or the checker. -/
inductive Worker (s : Setup) (m : Metadata) (v : Invocation) : Launch → Prop
  | candidate (stdin : Wiring) : Worker s m v (Sandbox.candidateLaunch s m v stdin)
  | interactor {i : Path} (hi : s.options.interactor = some i) (arguments : List String)
      (fromCandidate toCandidate : Descriptor) :
      Worker s m v (Sandbox.interactorLaunch m v
        (Path.absolute s.cwd (s.options.problemDir.join i)) arguments fromCandidate toCandidate)
  | checker {program : Path} (hc : s.checker = .external program) (request : CheckRequest) :
      Worker s m v (Checker.externalLaunch s.inherited program request)

variable {s : Setup} {m : Metadata} {case : TestCase} {runDir : Path} {v : Invocation}

theorem Worker.launched (hv : Invocation.build s.cwd s.inherited s.options m case runDir = .ok v)
    {l : Launch} (h : Worker s m v l) : Launched s l := by
  cases h with
  | candidate stdin => exact .candidate hv stdin
  | interactor hi => exact .assistant (.interactor hi ..)
  | checker hc request => exact .assistant (.checker hc request)

namespace Checker

theorem runToEnd_meets {l : Launch} {tell : OsError → JudgeError} (hl : L l)
    (htell : ∀ e, Mundane (tell e)) : Meets (Mild L) Mundane Any (runToEnd l tell) := by
  exact Act.Meets.bind (meets_orElse (meets_one hl) htell) fun _ _ => meets_wait _

theorem askExternal_meets {program : Path} (hc : s.checker = .external program)
    (request : CheckRequest) :
    Meets (Mild (Worker s m v)) OfRun Any (askExternal s.inherited program request) := by
  refine (meets_say _).bind fun _ _ => ?_
  refine Act.Meets.bind (Act.Meets.ofRun (runToEnd_meets (.checker hc request)
    fun _ => trivial)) fun status _ => ?_
  split <;> exact .done trivial

theorem checkAgainst_meets (c : Checker) (request : CheckRequest) (produced reference : Bytes) :
    Meets (Gentle L) OfRun Any (c.checkAgainst request produced reference) := by
  unfold checkAgainst
  split
  · exact .done trivial
  · refine (meets_ofProgram (R := Any) ?_).bind fun _ _ => ?_
    · exact (Program.meets_writePieces ..).bind fun _ _ => .done trivial
    · exact .ask_bind trivial fun _ => .done trivial

theorem check_meets (request : CheckRequest) (produced : Bytes) :
    Meets (Gentle (Worker s m v)) OfRun Any (s.checker.check s.inherited request produced) := by
  have hcompare : ∀ c : Checker, Meets (Gentle (Worker s m v)) OfRun Any (do
      let reference ← loadReference request.reference request.problemDir
      c.checkAgainst request produced reference) := by
    intro c
    refine Act.Meets.bind (S := Any) ?_ fun _ _ => checkAgainst_meets ..
    exact Act.Meets.map (meets_orElse (meets_one trivial) fun _ => trivial) fun _ h => h
  cases hc : s.checker with
  | ignore => exact .done trivial
  | «external» program => exact (askExternal_meets hc request).gentle
  | _ => exact hcompare _

end Checker

namespace Helper

theorem launch_assists {command : String} {h : Helper} (hi : s.options.initializer = some command)
    (hh : Helper.ofCommand s.cwd s.options.problemDir command v = .ok h) (verb : String) :
    Launched s (h.launch verb) := .assistant (.helper hi hh verb)

theorem acquire_meets {h : Helper} (hlaunch : ∀ verb, L (h.launch verb)) (tillEnd : Bool) :
    Meets (Mild L) Mundane Any (h.acquire tillEnd) := by
  refine .ask_bind (hlaunch _) fun _ => ?_
  cases tillEnd with
  | true =>
    exact .call_bind trivial fun _ => .done trivial
  | false =>
    refine (meets_wait _).bind fun status _ => ?_
    split <;> exact .done trivial

omit [Call.Allows Q] in
theorem release_meets {h : Helper} (hmild : ∀ c, c.Mild L → Q c)
    (hinterrupt : ∀ pid, Q (.kill pid Signal.int)) (hlaunch : ∀ verb, L (h.launch verb))
    (hold : Hold) : Meets Q Mundane Any (h.release hold) := by
  cases hold with
  | living pid =>
    refine Act.Meets.bind (Act.meets_signal (hinterrupt pid)) fun _ _ => ?_
    exact Act.Meets.bind ((meets_wait pid).weaken hmild) fun _ _ => .done trivial
  | done =>
    have hrefusal (e : OsError) : Mundane (h.refusal e) := trivial
    have hstop := Checker.runToEnd_meets (hlaunch "stop") hrefusal
    exact Act.Meets.bind (hstop.weaken hmild) fun _ _ => .done trivial

omit [Call.Allows Q] in
theorem around_meets {α : Type} {h : Helper} {tillEnd : Bool} {body : Act α}
    (hmild : ∀ c, c.Mild L → Q c) (hinterrupt : ∀ pid, Q (.kill pid Signal.int))
    (hlaunch : ∀ verb, L (h.launch verb)) (hbody : Meets Q OfRun Any body) :
    Meets Q OfRun Any (h.around tillEnd body) := by
  refine Act.Meets.bind ((acquire_meets hlaunch tillEnd).ofRun.weaken hmild) fun hold _ => ?_
  refine (meets_ofProgram hbody).bind fun result hresult => ?_
  refine (meets_ofProgram (release_meets hmild hinterrupt hlaunch hold)).bind fun _ _ => ?_
  exact meets_ofExcept hresult

end Helper

/-! ## Invocations -/

namespace Invocation

variable {cwd problemDir : Path} {e : JudgeError}

theorem seenFrom_error {target : Path} (h : seenFrom cwd runDir target = .error e) : Mundane e := by
  unfold seenFrom at h
  split at h
  · cases h
  · obtain rfl := Except.error.inj h
    rename_i cause _
    cases cause <;> trivial

theorem splitWords_error {text : String} (h : splitWords text = .error e) : Mundane e := by
  unfold splitWords at h
  split at h
  · cases h
  · obtain rfl := Except.error.inj h
    trivial

theorem expandWord_error {params : List String} {word : String}
    (h : expandWord cwd runDir problemDir params word = .error e) : Mundane e := by
  unfold expandWord at h
  split at h
  · exact seenFrom_error (error_of_map h)
  · split at h <;> cases h

theorem expandWords_error {cmd params : List String}
    (h : expandWords cwd runDir problemDir cmd params = .error e) : Mundane e := by
  rcases error_of_bind h with h | ⟨words, -, h⟩
  · obtain ⟨word, hword⟩ := error_of_mapM h
    exact expandWord_error hword
  · cases h

theorem arguments_error {dropFirst : Bool} {words : List String}
    (h : arguments dropFirst words = .error e) : Mundane e := by
  unfold arguments at h
  split at h
  · obtain rfl := Except.error.inj h
    trivial
  · split at h
    · split at h
      · obtain rfl := Except.error.inj h
        trivial
      · cases h
    · cases h

theorem ownWords_error {options : Options}
    (h : ownWords cwd options m case runDir = .error e) : Mundane e := by
  rcases error_of_bind h with h | ⟨_, -, h⟩
  · exact seenFrom_error h
  rcases error_of_bind h with h | ⟨_, -, h⟩
  · exact splitWords_error h
  rcases error_of_bind h with h | ⟨_, -, h⟩
  · exact splitWords_error h
  exact expandWords_error h

/-- That an invocation cannot be built has nothing to do with what the candidate does. -/
theorem build_error {inherited : Vars} {options : Options}
    (h : build cwd inherited options m case runDir = .error e) : Mundane e := by
  rcases error_of_bind h with h | ⟨_, -, h⟩
  · exact ownWords_error h
  rcases error_of_bind h with h | ⟨_, -, h⟩
  · exact arguments_error h
  cases h

end Invocation

theorem Helper.ofCommand_error {cwd problemDir : Path} {command : String} {e : JudgeError}
    (h : Helper.ofCommand cwd problemDir command v = .error e) : Mundane e := by
  rcases error_of_bind h with h | ⟨words, -, h⟩
  · exact Invocation.splitWords_error h
  · split at h
    · obtain rfl := Except.error.inj h
      trivial
    · cases h

/-! ## One run -/

namespace Sandbox

theorem readAnswer_meets (p : Path) (test : String) :
    Meets (Mild L) OfRun Any (readAnswer p test) :=
  meets_orElse (meets_one trivial) fun _ => trivial

theorem removeIfPresent_meets (p : Path) : Meets (Mild L) Mundane Any (removeIfPresent p) :=
  Act.meets_sparing (meets_one trivial) fun _ => trivial

theorem startCandidate_meets (stdin : Wiring) :
    Meets (Mild (Worker s m v)) OfRun Any (startCandidate s m v stdin) :=
  meets_orElse (meets_one (.candidate stdin)) fun _ => trivial

/-- What follows the start of a candidate without an interactor. -/
theorem collect_meets (fd : Descriptor) (pid : Pid) : Meets (Mild L) Mundane Any (do
    let output ← ofSystem (Program.drain fd)
    Act.ofProgram (Program.close fd)
    let status ← ofSystem (Program.wait pid) return (output, status)) := by
  refine .ask_bind trivial fun output => ?_
  refine .call_bind trivial fun _ => ?_
  exact (meets_wait pid).bind fun status _ => .done trivial

theorem runPlain_meets : Meets (Mild (Worker s m v)) OfRun Any (runPlain s m v) := by
  refine .ask_bind trivial fun input => ?_
  refine (startCandidate_meets (.given input)).bind fun started _ => ?_
  exact (collect_meets _ started.pid).ofRun

theorem giveUp_meets (pid : Pid) (ended : Option WaitStatus) :
    Meets (Mild L) Mundane Any (giveUp pid ended) := by
  refine Act.Meets.bind (Act.meets_signal (Call.mild_kill pid)) fun _ _ => ?_
  split
  · exact (meets_wait pid).bind fun _ _ => .done trivial
  · exact .done trivial

theorem target_meets (pid : Pid) : Meets (Mild L) Mundane Any (target s pid) := by
  unfold target
  split
  · exact .done trivial
  · refine (meets_ofProgram (ProcessTable.waitForChild_meets ..)).bind fun r hr => ?_
    cases r with
    | ok child => exact .done trivial
    | error e =>
      refine .call_bind trivial fun ended => ?_
      refine (meets_say _).bind fun _ _ => ?_
      exact (giveUp_meets pid ended).bind fun _ _ => meets_throw hr

theorem startInteractor_meets {l : Launch} (hl : L l) (candidate : Pid) :
    Meets (Mild L) Mundane Any (startInteractor l candidate) := by
  refine .call_bind hl fun r => ?_
  cases r with
  | ok started => exact .done trivial
  | error e => exact (giveUp_meets candidate none).bind fun _ _ => .done trivial

theorem pipeEnd_meets (name : String) (fd? : Option Descriptor) :
    Meets (Mild L) Mundane Any (pipeEnd name fd?) := by
  cases fd? <;> exact .done trivial

theorem concludeDialogue_meets (candidate interactor : WaitStatus) :
    Meets (Mild L) OfRun Any (concludeDialogue s case v candidate interactor) := by
  unfold concludeDialogue
  split
  · exact (readAnswer_meets ..).bind fun _ _ => .done trivial
  · split
    · refine (meets_say _).bind fun _ _ => (meets_say _).bind fun _ _ => ?_
      exact .call_bind trivial fun _ => .done trivial
    · refine .call_bind trivial fun kept => ?_
      split
      · refine Act.Meets.bind (meets_say _) fun _ _ => ?_
        exact Act.Meets.bind (meets_say _) fun _ _ => .done trivial
      · exact .done trivial

theorem runInteractive_meets {i : Path} (hi : s.options.interactor = some i) :
    Meets (Mild (Worker s m v)) OfRun Any (runInteractive s m case v i) := by
  refine (meets_ofExcept (ends_of_mundane Invocation.seenFrom_error)).bind fun name _ => ?_
  refine (startCandidate_meets .pipe).bind fun started _ => ?_
  refine (target_meets started.pid).ofRun.bind fun pid _ => ?_
  refine (pipeEnd_meets ..).ofRun.bind fun fromCandidate _ => ?_
  refine (pipeEnd_meets ..).ofRun.bind fun toCandidate _ => ?_
  refine (meets_ofProgram (meets_isFile _)).bind fun hasInfo _ => ?_
  refine Act.Meets.bind (meets_say _) fun _ _ => ?_
  refine Act.Meets.bind (startInteractor_meets (.interactor hi ..) started.pid).ofRun
    fun other _ => ?_
  refine (meets_wait started.pid).ofRun.bind fun candidateStatus _ => ?_
  exact (meets_wait other.pid).ofRun.bind fun interactorStatus _ => concludeDialogue_meets ..

theorem produced_meets (captured : Bytes) :
    Meets (Mild L) OfRun Any (produced s case v captured) := by
  unfold produced
  split
  · split
    · split
      · exact .done trivial
      · exact readAnswer_meets ..
    · exact .done trivial
  · exact .done trivial

theorem checkAnswer_meets (exitCode : Int) (answer : Bytes) :
    Meets (Gentle (Worker s m v)) OfRun Any (checkAnswer s case v exitCode answer) := by
  refine Act.Meets.bind (S := Any) ?_ fun file _ => ?_
  · unfold checkedFile
    split
    · split <;> exact .done trivial
    · split
      · exact .ask_bind trivial fun _ => .done trivial
      · exact .done trivial
  · refine (meets_ofProgram (Checker.check_meets ..)).bind fun r hr => ?_
    cases r with
    | ok u => exact .done trivial
    | error e =>
      dsimp only
      split
      · exact (meets_say _).bind fun _ _ => .done trivial
      · exact meets_throw hr

/-- What the end of a run does, if it is known what the check of the answer does. -/
theorem conclude_meets_of (hmild : ∀ c, c.Mild (Worker s m v) → Q c)
    (hcheck : s.options.prepareAnswers = false → ∀ exitCode answer,
      Meets Q OfRun Any (checkAnswer s case v exitCode answer)) (captured : Bytes)
    (exitCode : Int) : Meets Q OfRun Any (conclude s m case v captured exitCode) := by
  unfold conclude
  split
  · split
    · refine Act.Meets.bind (meets_say _) fun _ _ => ?_
      exact Act.Meets.bind (meets_say _) fun _ _ => .done trivial
    · exact Act.Meets.bind (meets_say _) fun _ _ => .done trivial
  · refine ((produced_meets captured).weaken hmild).bind fun answer _ => ?_
    have hremove (name : String) (o : Outcome) : Meets Q OfRun Any
        (removeIfPresent (v.runDir.child name) >>= fun _ => pure o) :=
      ((removeIfPresent_meets _).ofRun.weaken hmild).bind fun _ _ => .done trivial
    dsimp only
    split
    · split
      · exact hremove ..
      · exact .done trivial
    · rename_i hprepare
      refine (hcheck (Bool.eq_false_iff.mpr hprepare) ..).bind fun skipped _ => ?_
      split
      · exact hremove ..
      · exact .done trivial

theorem judge_meets_of (hmild : ∀ c, c.Mild (Worker s m v) → Q c)
    (hcheck : s.options.prepareAnswers = false → ∀ exitCode answer,
      Meets Q OfRun Any (checkAnswer s case v exitCode answer)) :
    Meets Q OfRun Any (judge s m case v) := by
  unfold judge
  split
  · rename_i i hi
    refine ((runInteractive_meets hi).weaken hmild).bind fun dialogue _ => ?_
    cases dialogue with
    | finished log status => exact conclude_meets_of hmild hcheck ..
    | tolerated log status => exact .done trivial
  · exact (runPlain_meets.weaken hmild).bind fun _ _ => conclude_meets_of hmild hcheck ..

theorem judge_meets : Meets (Gentle (Worker s m v)) OfRun Any (judge s m case v) :=
  judge_meets_of (fun _ hc => hc.gentle) fun _ => checkAnswer_meets

/-- What a run does, if it is known what judging does. -/
theorem run_meets_of (hmild : ∀ c, c.Mild (Launched s) → Q c)
    (hinterrupt : ∀ pid, Q (.kill pid Signal.int))
    (hjudge : ∀ {runDir v}, Invocation.build s.cwd s.inherited s.options m case runDir = .ok v →
      Meets Q OfRun Any (judge s m case v)) : Meets Q OfRun Any (run s m case) := by
  refine Act.Meets.bind ((RunDirectory.build_meets ..).ofRun.weaken hmild) fun runDir _ => ?_
  refine (meets_ofExcept (ends_of_mundane Invocation.build_error)).bind fun v hv => ?_
  refine (meets_say _).bind fun _ _ => ?_
  split
  · exact hjudge hv
  · rename_i command hi
    refine (meets_ofExcept (ends_of_mundane Helper.ofCommand_error)).bind fun h hh => ?_
    exact Helper.around_meets hmild hinterrupt (Helper.launch_assists hi hh) (hjudge hv)

end Sandbox

/-- **A run starts only what a suite starts**, and fails only with an error of a run. -/
theorem Sandbox.run_meets : Meets (StartsOnly (Launched s)) OfRun Any (Sandbox.run s m case) :=
  run_meets_of (fun _ hc => hc.gentle.startsOnly fun _ h => h) (fun _ => trivial)
    fun hv => judge_meets.startsOnly fun _ hl => hl.launched hv

/-- **While answers are prepared, a run stores nothing.** -/
theorem Sandbox.run_spares (hprepare : s.options.prepareAnswers = true) :
    Meets Spares OfRun Any (Sandbox.run s m case) := by
  refine run_meets_of (fun _ hc => hc.spares) (fun _ => trivial) fun _ => ?_
  refine judge_meets_of (fun _ hc => hc.spares) fun hfalse => ?_
  rw [hprepare] at hfalse
  cases hfalse

/-! ## Seals and tests -/

namespace Seal

theorem digestOf_meets (p : Path) : Meets Q Mundane Any (digestOf p) := by
  refine Act.Meets.map (meets_orElse (meets_harmless trivial) fun e => ?_) fun _ h => h
  split <;> trivial

theorem take_meets (p : Path) : Meets Q Mundane Any (take p) :=
  (digestOf_meets p).map fun _ h => h

theorem verify_meets (kept : Seal) : Meets Q (· = .tampered kept.path) Any kept.verify := by
  have hintact : kept.intact.Meets Q Any :=
    Program.Meets.bind (digestOf_meets kept.path) fun r _ => by cases r <;> exact .done trivial
  refine (meets_ofProgram hintact).bind fun b _ => ?_
  cases b with
  | true => exact .done trivial
  | false => exact meets_throw rfl

end Seal

namespace Discovery

theorem isInput_meets (p : Path) : (isInput p).Meets Q Any := by
  unfold isInput
  split
  · exact meets_isFile p
  · exact .done trivial

theorem resolve_meets (shared : Option Path) (input : Path) :
    Meets Q Mundane Any (resolve shared input) := by
  cases shared with
  | none => exact .done trivial
  | some dir =>
    refine (meets_ofProgram (Program.meets_isDir _)).bind fun b _ => ?_
    cases b <;> exact .done trivial

theorem ofNames_meets (dir static : Path) (names : List Bytes) :
    Meets Q Mundane Any (ofNames dir static names) := by
  refine (meets_ofProgram (Program.meets_filterM isInput_meets _)).bind fun found _ => ?_
  refine (meets_ofProgram (Program.meets_isDir static)).bind fun shared _ => ?_
  exact Act.meets_mapM (resolve_meets _) _

end Discovery

theorem discover_meets (cwd problemDir testsDir : Path) :
    Meets Q Mundane Any (discover cwd problemDir testsDir) := by
  refine Act.Meets.bind (meets_ofProgram (meets_harmless trivial)) fun r _ => ?_
  cases r with
  | ok names => exact Discovery.ofNames_meets ..
  | error e =>
    dsimp only
    split <;> exact .done trivial

/-! ## Attempts and rounds -/

/-- An error of the look for processes left behind: there are some, or the look failed. -/
def OfCensus : JudgeError → Prop
  | .orphans .. => True
  | e => Mundane e

/-- An error about the time only in a pipeline. -/
def Timely (s : Setup) : JudgeError → Prop
  | .timeLimit _ => s.surroundings.pipeline = true
  | _ => True

theorem timely_of_mundane {e : JudgeError} (h : Mundane e) : Timely s e := by
  cases e <;> trivial

theorem timely_of_ofRun {e : JudgeError} (h : OfRun e) : Timely s e := by
  cases e <;> trivial

theorem timely_of_ofCensus {e : JudgeError} (h : OfCensus e) : Timely s e := by
  cases e <;> trivial

namespace Runner

theorem living_meets (entries : List ProcessEntry) : (living entries).Meets (Mild L) Any := by
  induction entries with
  | nil => exact .done trivial
  | cons e entries ih =>
    unfold living
    split
    · exact Program.Meets.bind (meets_one trivial) fun _ _ => ih
    · exact ih.bind fun _ _ => .done trivial

theorem killAll_meets (entries : List ProcessEntry) : (killAll entries).Meets (Mild L) Any := by
  induction entries with
  | nil => exact .done trivial
  | cons e entries ih =>
    refine Program.Meets.bind (meets_one (Call.mild_kill e.pid)) fun _ _ => ?_
    exact Program.Meets.bind (meets_one trivial) fun _ _ => ih

theorem verifyNoOrphans_meets : Meets (Mild L) OfCensus Any verifyNoOrphans := by
  refine .call_bind trivial fun pid => ?_
  refine Act.Meets.bind (S := Any) ((ProcessTable.childrenOf_meets ..).mono (fun e h => ?_)
    fun _ h => h) fun children _ => ?_
  · cases e <;> trivial
  refine (meets_ofProgram (living_meets children)).bind fun orphans _ => ?_
  split
  · exact .done trivial
  · exact (meets_ofProgram (killAll_meets orphans)).bind fun _ _ => meets_throw trivial

theorem childTime_meets {E : JudgeError → Prop} (hE : ∀ e, E (.system e)) :
    Meets Q E Any childTime :=
  Act.Meets.bind (meets_orElse (meets_harmless trivial) hE) fun _ _ => .done trivial

theorem checkTime_meets (used limit : Span) :
    Meets Q (Timely s) Any (checkTime s.surroundings.pipeline used limit) := by
  unfold checkTime
  split
  · exact .done trivial
  · split
    · rename_i h
      exact meets_throw h
    · exact meets_say _

/-- How an attempt ends: the time that it took is looked at. -/
def timing (s : Setup) (m : Metadata) (before : Span) (o : Outcome) : Act Attempt := do
  let after ← childTime
  let used : Span := ⟨after.nanos - before.nanos⟩
  checkTime s.surroundings.pipeline used (m.timeLimitOr s.surroundings.defaultTimeLimit)
  return { outcome := o, time := used }

theorem timing_meets (before : Span) (o : Outcome) : Meets Q (Timely s) Any (timing s m before o) :=
  (childTime_meets fun _ => trivial).bind fun _ _ => (checkTime_meets ..).bind fun _ _ => .done trivial

/-- The look at the seal, if there is one, and the end of an attempt. -/
theorem epilogue_meets (kept : Option Seal) (before : Span) (o : Outcome) :
    Meets Q (Timely s) Any (do
      match kept with
      | some kept => kept.verify
      | none => pure ()
      timing s m before o) := by
  cases kept with
  | none => exact timing_meets before o
  | some kept =>
    refine Act.Meets.bind ((Seal.verify_meets kept).mono (fun e he => ?_) fun _ h => h)
      fun _ _ => timing_meets before o
    subst he
    trivial

/-- What an attempt does, if it is known what its run does. -/
theorem attempt_meets_of (hmild : ∀ c, c.Mild (Launched s) → Q c)
    (hrun : Meets Q OfRun Any (Sandbox.run s m case)) (kept : Option Seal) :
    Meets Q (Timely s) Any (attempt s m case kept) := by
  refine (childTime_meets fun _ => trivial).bind fun before _ => ?_
  refine (meets_ofProgram hrun).bind fun result hresult => ?_
  have hcensus : Meets Q (Timely s) Any verifyNoOrphans :=
    (verifyNoOrphans_meets.weaken hmild).mono (fun _ => timely_of_ofCensus) fun _ h => h
  refine hcensus.bind fun _ _ => ?_
  have hended : Ends (Timely s) Any result := by
    cases result with
    | ok outcome => trivial
    | error e => exact timely_of_ofRun hresult
  exact (meets_ofExcept hended).bind fun outcome _ => epilogue_meets kept before outcome

theorem attempt_meets (kept : Option Seal) :
    Meets (StartsOnly (Launched s)) (Timely s) Any (attempt s m case kept) :=
  attempt_meets_of (fun _ hc => hc.gentle.startsOnly fun _ h => h) Sandbox.run_meets kept

theorem attempt_spares (hprepare : s.options.prepareAnswers = true) (kept : Option Seal) :
    Meets Spares (Timely s) Any (attempt s m case kept) :=
  attempt_meets_of (fun _ hc => hc.spares) (Sandbox.run_spares hprepare) kept

/-- The error of a result, if there is one, is about the time only in a pipeline. -/
def Result.Timely (s : Setup) (r : Result) : Prop := ∀ e, r.error = some e → Judge.Timely s e

theorem failedResult_timely {name : String} {attempts : Nat} {e : JudgeError} {time : Binary64}
    (he : Judge.Timely s e) : (failedResult name attempts e time).Timely s := by
  intro e' h
  obtain rfl := Option.some.inj h
  exact he

theorem accept_meets (attempts : Nat) (a : Attempt) :
    (accept s case attempts a).Meets (StartsOnly L) (Result.Timely s) := by
  unfold accept
  dsimp only
  split
  · refine Program.Meets.bind (meets_one trivial) fun r _ => ?_
    cases r with
    | ok u => exact meets_pure nofun
    | error e => exact meets_pure (failedResult_timely trivial)
  · exact meets_pure nofun

theorem tryFrom_meets (kept : Option Seal) (index left : Nat) :
    (tryFrom s m case kept index left).Meets (StartsOnly (Launched s)) (Result.Timely s) := by
  induction left generalizing index with
  | zero => exact meets_pure (failedResult_timely trivial)
  | succ left ih =>
    refine Program.Meets.bind (attempt_meets kept) fun r hr => ?_
    cases r with
    | ok a => exact accept_meets ..
    | error e =>
      refine (meets_printLine _).bind fun _ _ => ?_
      split
      · exact ih _
      · exact meets_pure (failedResult_timely hr)

theorem loadMetadata_meets (path : Path) : Meets Q Mundane Any (loadMetadata path) := by
  refine (meets_ofProgram (meets_isFile path)).bind fun b _ => ?_
  cases b with
  | false => exact .done trivial
  | true =>
    refine Act.Meets.bind (meets_ofSystem (meets_harmless trivial)) fun raw _ => ?_
    split
    · exact .done trivial
    · rename_i text _
      refine meets_ofExcept ?_
      cases Metadata.read text with
      | ok m => trivial
      | error e => cases e <;> trivial

theorem runTest_meets (kept : Option Seal) :
    (runTest s case kept).Meets (StartsOnly (Launched s)) (Result.Timely s) := by
  refine Program.Meets.bind (loadMetadata_meets case.info) fun r hr => ?_
  cases r with
  | ok m => exact tryFrom_meets ..
  | error e => exact meets_pure (failedResult_timely (timely_of_mundane hr))

theorem sealReference_meets (case : TestCase) : Meets Q Mundane Any (sealReference s case) := by
  refine (meets_ofProgram (meets_isFile _)).bind fun b _ => ?_
  split
  · exact (Seal.take_meets _).bind fun _ _ => .done trivial
  · split <;> exact .done trivial

theorem prepareRound_meets : Meets Q Mundane Any (prepareRound s) := by
  refine (discover_meets ..).bind fun cases _ => ?_
  split
  · exact .done trivial
  · exact (Act.meets_mapM sealReference_meets cases).bind fun _ _ => .done trivial

theorem runTests_meets (tests : SealedTests) (report : Report) :
    (runTests s tests report).Meets (StartsOnly (Launched s)) (Ends (Timely s) Any ·.1) := by
  induction tests generalizing report with
  | nil => exact meets_pure trivial
  | cons test tests ih =>
    refine (runTest_meets test.2).bind fun r hr => ?_
    split
    · rename_i e he
      exact meets_pure (hr e he)
    · exact ih _

theorem runRound_meets (report : Report) :
    (runRound s report).Meets (StartsOnly (Launched s)) (Ends (Timely s) Any ·.1) := by
  refine Program.Meets.bind prepareRound_meets fun r hr => ?_
  cases r with
  | ok tests => exact runTests_meets ..
  | error e => exact meets_pure (timely_of_mundane hr)

theorem runRounds_meets (index left : Nat) (report : Report) :
    (runRounds s index left report).Meets (StartsOnly (Launched s)) (Ends (Timely s) Any ·.1) := by
  induction left generalizing index report with
  | zero => exact meets_pure trivial
  | succ left ih =>
    refine (meets_printLine _).bind fun _ _ => ?_
    refine (runRound_meets report).bind fun p hp => ?_
    obtain ⟨r, report'⟩ := p
    cases r with
    | ok u => exact ih ..
    | error e => exact meets_pure hp

end Runner

/-- **A suite starts only candidates and what helps to judge them**, and it ends with an error about
the time only in a pipeline. -/
theorem Setup.runSuite_meets :
    s.runSuite.Meets (StartsOnly (Launched s)) (Ends (Timely s) Any ·.1) := by
  refine (Runner.runRounds_meets ..).bind fun p hp => ?_
  obtain ⟨r, report⟩ := p
  cases r with
  | ok u => exact (meets_printLine _).bind fun _ _ => meets_pure trivial
  | error e => exact meets_pure hp

/-- A setup with nothing special. -/
def plainSetup : Setup where
  cwd := .ofString "/p"
  inherited := .empty
  options := {}
  surroundings := {}
  checker := .exact

end Judge
