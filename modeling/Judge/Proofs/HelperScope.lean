import Judge.Proofs.Tampering

/-!
# Proofs/HelperScope — a helper is released exactly when it was acquired

    before ++ acquisition                        the helper was not acquired, and the run fails
    before ++ acquisition ++ body ++ release     it was, and `body` is all that the run judges with

These are the traces of a run with a helper, once the run has come to it (`Sandbox.run_scoped`).
The helper's own calls are known one by one (`Acquires`, `Misses`, `Releases`), and `body` is a
trace of `Sandbox.judge`, which starts the candidate, the interactor and the checker and interrupts
nobody.  So what a run starts, and whom it interrupts, can be read off: the start of the helper
comes first and once, and its release comes last and once if there is something to release.  How
that comes out is not part of the result (`Held.indifferent`).
-/

namespace Judge

open List
open Program (Makes makes_bind makes_perform makes_pure)

variable {s : Setup} {m : Metadata} {case : TestCase} {v : Invocation} {T : List Event}

/-! ## Interrupts -/

/-- The process that a call interrupts. -/
def Call.interrupt? : Call → Option Int
  | .kill pid signal => if signal = Signal.int then some pid else none
  | _ => none

/-- **The processes that a trace interrupts**, in order. -/
def interrupts (T : List Event) : List Int := T.filterMap fun e => e.call.interrupt?

@[simp] theorem interrupts_append (T T' : List Event) :
    interrupts (T ++ T') = interrupts T ++ interrupts T' :=
  filterMap_append

theorem Call.Gentle.interrupt?_eq_none {L : Launch → Prop} {c : Call} (hc : c.Gentle L) :
    c.interrupt? = none := by
  cases c with
  | kill pid signal => exact if_neg hc
  | _ => rfl

theorem Program.Meets.interrupts_eq_nil {α : Type} {p : Program α} {L : Launch → Prop}
    {R : α → Prop} (hp : p.Meets (Call.Gentle L) R) {a : α} (hm : Makes p T a) :
    interrupts T = [] := by
  refine filterMap_eq_nil_iff.mpr fun e he => ?_
  exact ((hp.makes hm).2 e.call e.reply he).interrupt?_eq_none

/-- The process that a call waits for. -/
def Call.awaited? : Call → Option Pid
  | .wait pid => some pid
  | _ => none

/-- **The processes that a trace waits for**, in order. -/
def awaited (T : List Event) : List Pid := T.filterMap fun e => e.call.awaited?

/-- An interrupt of a process is refused, and not because the process is gone. -/
def Unheard (pid : Pid) (T : List Event) : Prop :=
  ∃ e : OsError, e ≠ .noProcess ∧ ⟨.kill pid Signal.int, .error e⟩ ∈ T

/-- **Nobody is started and nobody is interrupted.** -/
structure Quiet (T : List Event) : Prop where
  launches : launches T = []
  interrupts : interrupts T = []

theorem Quiet.append {T' : List Event} (h : Quiet T) (h' : Quiet T') : Quiet (T ++ T') := by
  constructor
  · rw [launches_append, h.launches, h'.launches, append_nil]
  · rw [interrupts_append, h.interrupts, h'.interrupts, append_nil]

theorem Program.Meets.quiet {α : Type} {p : Program α} {R : α → Prop}
    (hp : p.Meets (Call.Gentle fun _ => False) R) {a : α} (hm : Makes p T a) : Quiet T where
  launches := (hp.weaken fun _ hc => hc.startsOnly fun _ h => h).launches_eq_nil hm
  interrupts := hp.interrupts_eq_nil hm

/-! ## The calls of a helper -/

namespace Helper

variable {h : Helper} {tillEnd : Bool} {hold : Hold}

/-- **The helper is acquired**: it was started and lives on, or it was started and came to an end
without a failure. -/
inductive Acquires (h : Helper) : Bool → List Event → Hold → Prop
  | living (started : Started) :
    Acquires h true
      [⟨.start (h.launch "start"), .ok started⟩, ⟨.sleep settleDelay, ()⟩] (.living started.pid)
  | done (started : Started) (status : WaitStatus) (hsuccess : status.success = true) :
    Acquires h false
      [⟨.start (h.launch "start"), .ok started⟩, ⟨.wait started.pid, .ok status⟩] .done

/-- **The helper is not acquired**: its start was refused or came to an end with a failure, which is
an error of the configuration, or the end could not be waited for. -/
inductive Misses (h : Helper) : Bool → List Event → JudgeError → Prop
  | refused (tillEnd : Bool) (e : OsError) :
    Misses h tillEnd [⟨.start (h.launch "start"), .error e⟩]
      (.config ("Failed to start initializer " ++ h.program.display ++ ": " ++ e.text))
  | failed (started : Started) (status : WaitStatus) (hfailed : status.success = false) :
    Misses h false
      [⟨.start (h.launch "start"), .ok started⟩, ⟨.wait started.pid, .ok status⟩]
      (.config ("Failed to run initializer start " ++ status.text))
  | lost (started : Started) (e : OsError) :
    Misses h false
      [⟨.start (h.launch "start"), .ok started⟩, ⟨.wait started.pid, .error e⟩] (.io (.os e))

/-- **The helper is released**: it is interrupted and waited for, unless it cannot be interrupted,
or it is started once more to stop and waited for, unless it cannot be started. -/
inductive Releases (h : Helper) : Hold → List Event → Prop
  | interrupted (pid : Pid) (waited : Except OsError WaitStatus) :
    Releases h (.living pid) [⟨.kill pid Signal.int, .ok ()⟩, ⟨.wait pid, waited⟩]
  | gone (pid : Pid) (waited : Except OsError WaitStatus) :
    Releases h (.living pid) [⟨.kill pid Signal.int, .error .noProcess⟩, ⟨.wait pid, waited⟩]
  | unheard (pid : Pid) (e : OsError) (he : e ≠ .noProcess) :
    Releases h (.living pid) [⟨.kill pid Signal.int, .error e⟩]
  | stopped (started : Started) (waited : Except OsError WaitStatus) :
    Releases h .done [⟨.start (h.launch "stop"), .ok started⟩, ⟨.wait started.pid, waited⟩]
  | refused (e : OsError) : Releases h .done [⟨.start (h.launch "stop"), .error e⟩]

/-- What a release starts. -/
def Hold.stops (h : Helper) : Hold → List Launch
  | .done => [h.launch "stop"]
  | .living _ => []

/-- Whom a release interrupts. -/
def Hold.interrupted : Hold → List Int
  | .done => []
  | .living pid => [(pid : Int)]

theorem Acquires.launches (ha : h.Acquires tillEnd T hold) :
    launches T = [h.launch "start"] ∧ interrupts T = [] := by
  cases ha <;> exact ⟨rfl, rfl⟩

theorem Misses.launches {e : JudgeError} (hm : h.Misses tillEnd T e) :
    launches T = [h.launch "start"] ∧ interrupts T = [] := by
  cases hm <;> exact ⟨rfl, rfl⟩

theorem Releases.launches (hr : h.Releases hold T) :
    launches T = hold.stops h ∧ interrupts T = hold.interrupted := by
  cases hr <;> exact ⟨rfl, rfl⟩

/-- **A helper that lives on is waited for once**, unless its interrupt is refused. -/
theorem Releases.awaited {pid : Pid} (hr : h.Releases (.living pid) T) :
    (Unheard pid T ∧ awaited T = []) ∨ (¬ Unheard pid T ∧ awaited T = [pid]) := by
  cases hr with
  | interrupted _ waited =>
    refine .inr ⟨?_, rfl⟩
    rintro ⟨e, -, he⟩
    obtain he | he := by simpa using he
    · cases he
    · cases he
  | gone _ waited =>
    refine .inr ⟨?_, rfl⟩
    rintro ⟨e, hne, he⟩
    obtain he | he := by simpa using he
    · cases he
      exact hne rfl
    · cases he
  | unheard _ e he => exact .inl ⟨⟨e, he, mem_singleton_self _⟩, rfl⟩

/-- A helper is missed through an error of the configuration, unless its end could not be waited
for. -/
theorem Misses.kind {e : JudgeError} (hm : h.Misses tillEnd T e) :
    (∃ message, e = .config message) ∨ tillEnd = false ∧ ∃ started code,
      T = [⟨.start (h.launch "start"), .ok started⟩, ⟨.wait started.pid, .error code⟩] ∧
      e = .io (.os code) := by
  cases hm with
  | refused | failed => exact .inl ⟨_, rfl⟩
  | lost started code => exact .inr ⟨rfl, started, code, rfl, rfl⟩

theorem Misses.not_retryable {e : JudgeError} (hm : h.Misses tillEnd T e) :
    e.retryable = false := by
  cases hm <;> rfl

/-- **To acquire a helper** comes to one of two ends. -/
theorem acquire_makes {r : Except JudgeError Hold} (hm : Makes (h.acquire tillEnd).run T r) :
    (∃ hold, r = .ok hold ∧ h.Acquires tillEnd T hold) ∨
      ∃ e, r = .error e ∧ h.Misses tillEnd T e := by
  rcases Act.makes_bind hm with ⟨e, rfl, hstart⟩ | ⟨T₁, started, T₂, rfl, hstart, hrest⟩
  · obtain ⟨code, hcall, rfl⟩ := Act.fails_orElse hstart
    obtain rfl := makes_perform hcall
    exact .inr ⟨_, rfl, .refused tillEnd code⟩
  obtain rfl := makes_perform (Act.yields_orElse hstart)
  cases tillEnd with
  | true =>
    obtain ⟨T₃, ⟨⟩, T₄, rfl, hsleep, hpure⟩ := Act.makes_ofProgram_bind hrest
    obtain rfl := makes_perform hsleep
    obtain ⟨rfl, rfl⟩ := makes_pure hpure
    exact .inl ⟨_, rfl, .living started⟩
  | false =>
    rcases Act.makes_bind hrest with ⟨e, rfl, hwait⟩ | ⟨T₃, status, T₄, rfl, hwait, hif⟩
    · obtain ⟨code, hcall, rfl⟩ := Act.fails_orElse hwait
      obtain rfl := makes_perform hcall
      exact .inr ⟨_, rfl, .lost started code⟩
    obtain rfl := makes_perform (Act.yields_orElse hwait)
    cases hsuccess : status.success with
    | true =>
      rw [if_pos hsuccess] at hif
      obtain ⟨rfl, rfl⟩ := makes_pure hif
      exact .inl ⟨_, rfl, .done started status hsuccess⟩
    | false =>
      rw [if_neg (Bool.eq_false_iff.mp hsuccess)] at hif
      obtain ⟨rfl, rfl⟩ := makes_pure hif
      exact .inr ⟨_, rfl, .failed started status hsuccess⟩

/-- **To release a helper** is one of its releases. -/
theorem release_makes {r : Except JudgeError Unit}
    (hm : Makes (h.release hold).run T r) : h.Releases hold T := by
  cases hold with
  | living pid =>
    obtain ⟨T₁, sent, T₂, rfl, hsignal, hrest⟩ := makes_bind hm
    obtain ⟨T₃, reply, T₄, rfl, hkill, hreply⟩ := Act.makes_ofProgram_bind hsignal
    obtain rfl := makes_perform hkill
    have hwaits (hsent : sent = .ok ()) : ∃ waited, T₂ = [⟨.wait pid, waited⟩] := by
      subst hsent
      obtain ⟨T₅, waited, T₆, rfl, hwait, hpure⟩ := makes_bind hrest
      obtain ⟨answer, hcall, -⟩ := Act.makes_orElse hwait
      obtain rfl := makes_perform hcall
      cases waited <;> cases hpure <;> exact ⟨answer, rfl⟩
    cases reply with
    | ok u =>
      obtain ⟨rfl, rfl⟩ := makes_pure hreply
      obtain ⟨waited, rfl⟩ := hwaits rfl
      exact .interrupted pid waited
    | error e =>
      dsimp only at hreply
      split at hreply
      · rename_i he
        subst he
        obtain ⟨rfl, rfl⟩ := makes_pure hreply
        obtain ⟨waited, rfl⟩ := hwaits rfl
        exact .gone pid waited
      · rename_i he
        obtain ⟨rfl, rfl⟩ := makes_pure hreply
        cases hrest
        exact .unheard pid e he
  | done =>
    obtain ⟨T₁, ran, T₂, rfl, hrun, hrest⟩ := makes_bind hm
    have hend : T₂ = [] := by cases ran <;> cases hrest <;> rfl
    subst hend
    rcases Act.makes_bind hrun with ⟨e, rfl, hstart⟩ | ⟨T₃, started, T₄, rfl, hstart, hwait⟩
    · obtain ⟨code, hcall, -⟩ := Act.fails_orElse hstart
      obtain rfl := makes_perform hcall
      exact .refused code
    · obtain rfl := makes_perform (Act.yields_orElse hstart)
      obtain ⟨waited, hcall, -⟩ := Act.makes_orElse hwait
      obtain rfl := makes_perform hcall
      exact .stopped started waited

theorem Releases.makes (hr : h.Releases hold T) : ∃ r, Makes (h.release hold).run T r := by
  cases hr with
  | interrupted pid waited =>
    cases waited <;>
      exact ⟨_, .call (c := .kill pid Signal.int) (.ok ()) (.call (c := .wait pid) _ .done)⟩
  | gone pid waited =>
    cases waited <;>
      exact ⟨_, .call (c := .kill pid Signal.int) (.error .noProcess)
        (.call (c := .wait pid) _ .done)⟩
  | unheard pid e he =>
    have hsignal : Makes (Act.signal pid Signal.int).run
        [⟨.kill pid Signal.int, .error e⟩] (.error (.system e)) := by
      refine .call (c := .kill pid Signal.int) (.error e) ?_
      change Makes
        (if e = .noProcess then pure () else throw (.system e) : Act Unit).run _ _
      rw [if_neg he]
      exact .done
    exact ⟨_, hsignal.bind .done⟩
  | stopped started waited =>
    cases waited <;>
      exact ⟨_, .call (c := .start (h.launch "stop")) (.ok started)
        (.call (c := .wait started.pid) _ .done)⟩
  | refused e => exact ⟨_, .call (c := .start (h.launch "stop")) (.error e) .done⟩

theorem launch_start_ne_stop (h : Helper) : h.launch "start" ≠ h.launch "stop" := by
  intro heq
  have hargv := congrArg Launch.argv heq
  have hdistinct : utf8 "start" ≠ utf8 "stop" := by decide
  simp [launch, hdistinct] at hargv

end Helper

theorem Worker.ne_launch {l : Launch} (hl : Worker s m v l) (h : Helper) (verb : String) :
    l ≠ h.launch verb := by
  intro heq
  cases hl with
  | candidate stdin => exact absurd (congrArg Launch.ownGroup heq) nofun
  | interactor hi => exact absurd (congrArg Launch.stdin heq) nofun
  | checker hc request => exact absurd (congrArg Launch.stdin heq) nofun

/-! ## The scope of a helper -/

namespace Sandbox

/-- **The helper of a run** with the invocation `v`. -/
def Serves (s : Setup) (m : Metadata) (case : TestCase) (command : String) (v : Invocation)
    (h : Helper) : Prop :=
  (∃ runDir, Invocation.build s.cwd s.inherited s.options m case runDir = .ok v) ∧
    Helper.ofCommand s.cwd s.options.problemDir command v = .ok h

/-- **A run whose helper was not acquired.**  It ends there, with the error of the helper. -/
structure Missed (s : Setup) (h : Helper) (before acquisition T : List Event)
    (result : Except JudgeError Outcome) : Prop where
  split : T = before ++ acquisition
  quiet : Quiet before
  missed : ∃ e, result = .error e ∧ e.retryable = false ∧
    h.Misses s.options.initializerRunTillEnd acquisition e
  config : (∃ message, result = .error (.config message)) ∨
    s.options.initializerRunTillEnd = false ∧ ∃ started code,
      acquisition = [⟨.start (h.launch "start"), .ok started⟩, ⟨.wait started.pid, .error code⟩] ∧
      result = .error (.io (.os code))
  starts : launches T = [h.launch "start"]
  interrupts : interrupts T = []

/-- **A run whose helper was acquired.**  It is released after all that the run judges with; and the
result is that of judging, whatever becomes of the release. -/
structure Held (s : Setup) (m : Metadata) (case : TestCase) (v : Invocation) (h : Helper)
    (hold : Helper.Hold) (before acquisition body release T : List Event)
    (result : Except JudgeError Outcome) : Prop where
  split : T = before ++ acquisition ++ body ++ release
  quiet : Quiet before
  acquired : h.Acquires s.options.initializerRunTillEnd acquisition hold
  judged : Makes (judge s m case v).run body result
  released : h.Releases hold release
  starts : launches T = h.launch "start" :: (launches body ++ hold.stops h)
  workers : ∀ l ∈ launches body, Worker s m v l
  interrupts : interrupts T = hold.interrupted
  awaited : ∀ pid, hold = .living pid →
    (Unheard pid release ∧ awaited release = []) ∨
      (¬ Unheard pid release ∧ awaited release = [pid])
  indifferent : ∀ release', h.Releases hold release' →
    Makes (run s m case).run (before ++ acquisition ++ body ++ release') result

/-- **The scope of the helper of a run.**  The run does not come to its helper; or it starts it
once, and either misses it and does not start it again, or holds it and starts it again to stop if
it came to its end. -/
def Scoped (s : Setup) (m : Metadata) (case : TestCase) (command : String) (T : List Event)
    (result : Except JudgeError Outcome) : Prop :=
  (Quiet T ∧ ∃ e, result = .error e ∧ e.retryable = false) ∨
    ∃ v h before acquisition, Serves s m case command v h ∧
      (launches T).count (h.launch "start") = 1 ∧
      (Missed s h before acquisition T result ∧ (launches T).count (h.launch "stop") = 0 ∨
        ∃ hold body release, Held s m case v h hold before acquisition body release T result ∧
          (launches T).count (h.launch "stop") = if hold = .done then 1 else 0)

end Sandbox

/-- **What is done around a body.** -/
theorem Helper.around_scope {α : Type} {h : Helper} {tillEnd : Bool} {body : Act α}
    {r : Except JudgeError α} (hm : Makes (h.around tillEnd body).run T r) :
    (∃ e, r = .error e ∧ h.Misses tillEnd T e) ∨
    ∃ hold acquisition inner release, T = acquisition ++ inner ++ release ∧
      h.Acquires tillEnd acquisition hold ∧ Makes body.run inner r ∧
      h.Releases hold release ∧ ∀ release', h.Releases hold release' →
        Makes (h.around tillEnd body).run (acquisition ++ inner ++ release') r := by
  obtain ⟨e, rfl, hmissed⟩ | ⟨hold, acquisition, inner, release, _, rfl, hacquire, hbody,
    hrelease⟩ := around_parts hm
  · obtain ⟨hold, he, -⟩ | ⟨e', he, hmisses⟩ := acquire_makes hmissed
    · cases he
    · cases he
      exact .inl ⟨e, rfl, hmisses⟩
  obtain ⟨hold', he, hacquires⟩ | ⟨e, he, -⟩ := acquire_makes hacquire
  · cases he
    refine .inr ⟨hold, acquisition, inner, release, rfl, hacquires, hbody,
      release_makes hrelease, fun release' hreleases => ?_⟩
    -- the same calls, with another release at their end
    obtain ⟨released', hrelease'⟩ := hreleases.makes
    rw [append_assoc, ← append_nil release']
    refine Act.Yields.bind hacquire (Act.Yields.bind (Act.Yields.ofProgram hbody) ?_)
    exact Act.Yields.bind (Act.Yields.ofProgram hrelease') .done
  · cases he

theorem Mundane.not_retryable {e : JudgeError} (h : Mundane e) : e.retryable = false := by
  cases e with
  | candidate | timeLimit => exact h.elim
  | _ => rfl

namespace Sandbox

variable {command : String} {r : Except JudgeError Outcome}

/-- **A run up to its helper**: it does not come to it, or the rest of it is what is done around the
judging. -/
theorem run_approach (hinit : s.options.initializer = some command)
    (hm : Makes (run s m case).run T r) :
    (Quiet T ∧ ∃ e, r = .error e ∧ e.retryable = false) ∨
    ∃ v h before rest, T = before ++ rest ∧ Quiet before ∧ Serves s m case command v h ∧
      Makes (h.around s.options.initializerRunTillEnd (judge s m case v)).run rest r ∧
      ∀ rest', Makes (h.around s.options.initializerRunTillEnd (judge s m case v)).run rest' r →
        Makes (run s m case).run (before ++ rest') r := by
  rcases Act.makes_bind hm with ⟨e, rfl, hdir⟩ | ⟨T₁, runDir, T₂, rfl, hdir, h₁⟩
  · have hmundane := (RunDirectory.build_meets (L := Any) ..).error hdir
    exact .inl ⟨Program.Meets.quiet (RunDirectory.build_meets ..).gentle hdir, e, rfl,
      hmundane.not_retryable⟩
  have hquiet := Program.Meets.quiet (RunDirectory.build_meets ..).gentle hdir
  rcases Act.makes_bind h₁ with ⟨e, rfl, hbuild⟩ | ⟨T₃, v, T₄, rfl, hbuild, h₂⟩
  · obtain ⟨rfl, he⟩ := makes_pure hbuild
    rw [append_nil]
    exact .inl ⟨hquiet, e, rfl, (Invocation.build_error he.symm).not_retryable⟩
  obtain ⟨rfl, hv⟩ := Act.yields_ofExcept hbuild
  obtain ⟨T₅, ⟨⟩, T₆, rfl, hsay, h₃⟩ := Act.makes_ofProgram_bind h₂
  have hquiet := hquiet.append (Program.Meets.quiet (Program.meets_printLine v.display) hsay)
  simp only [hinit] at h₃
  rcases Act.makes_bind h₃ with ⟨e, rfl, hcommand⟩ | ⟨T₇, h, T₈, rfl, hcommand, haround⟩
  · obtain ⟨rfl, he⟩ := makes_pure hcommand
    rw [nil_append, append_nil]
    exact .inl ⟨hquiet, e, rfl, (Helper.ofCommand_error he.symm).not_retryable⟩
  obtain ⟨rfl, hh⟩ := Act.yields_ofExcept hcommand
  refine .inr ⟨v, h, T₁ ++ T₅, T₈, by simp, hquiet, ⟨⟨runDir, hv⟩, hh⟩, haround,
    fun rest' haround' => ?_⟩
  rw [append_assoc]
  change Makes (run s m case).run (T₁ ++ ([] ++ (T₅ ++ ([] ++ rest')))) r
  refine Act.Yields.bind hdir (Act.Yields.bind hbuild ?_)
  refine Act.Yields.bind (Act.Yields.ofProgram hsay) ?_
  simp only [hinit]
  exact Act.Yields.bind hcommand haround'

/-! ### How often -/

variable {h : Helper} {hold : Helper.Hold} {before acquisition body release : List Event}

/-- What a run judges with is started no more often because of its helper. -/
theorem count_workers {L : List Launch} (hworkers : ∀ l ∈ L, Worker s m v l) (h : Helper)
    (verb : String) : L.count (h.launch verb) = 0 :=
  count_eq_zero.mpr fun hmem => (hworkers _ hmem).ne_launch h verb rfl

theorem Missed.counts (hmissed : Missed s h before acquisition T r) :
    (launches T).count (h.launch "start") = 1 ∧ (launches T).count (h.launch "stop") = 0 := by
  rw [hmissed.starts]
  refine ⟨count_singleton_self, count_eq_zero.mpr fun hmem => ?_⟩
  exact h.launch_start_ne_stop (mem_singleton.mp hmem).symm

theorem Held.counts (hheld : Held s m case v h hold before acquisition body release T r) :
    (launches T).count (h.launch "start") = 1 ∧
      (launches T).count (h.launch "stop") = if hold = .done then 1 else 0 := by
  have hne := h.launch_start_ne_stop
  have hnone := count_workers hheld.workers h
  rw [hheld.starts, count_cons_self, count_cons_of_ne hne, count_append,
    count_append, hnone, hnone]
  cases hold with
  | done =>
    have hstart : [h.launch "stop"].count (h.launch "start") = 0 :=
      count_eq_zero.mpr fun hmem => hne (mem_singleton.mp hmem)
    simp [Helper.Hold.stops, hstart]
  | living pid => simp [Helper.Hold.stops]

/-- **Every run with a helper has this scope.** -/
theorem run_scoped (hinit : s.options.initializer = some command)
    (hm : Makes (run s m case).run T r) : Scoped s m case command T r := by
  obtain hunreached | ⟨v, h, before, rest, rfl, hquiet, hserves, haround, hsame⟩ :=
    run_approach hinit hm
  · exact .inl hunreached
  refine .inr ?_
  obtain ⟨e, rfl, hmisses⟩ | ⟨hold, acquisition, body, release, rfl, hacquires, hbody, hreleases,
    hindifferent⟩ := Helper.around_scope haround
  · have hmissed : Missed s h before rest (before ++ rest) (.error e) := by
      refine ⟨rfl, hquiet, ⟨e, rfl, hmisses.not_retryable, hmisses⟩, ?_, ?_, ?_⟩
      · simpa using hmisses.kind
      · rw [launches_append, hquiet.launches, hmisses.launches.1, nil_append]
      · rw [interrupts_append, hquiet.interrupts, hmisses.launches.2, nil_append]
    exact ⟨v, h, before, rest, hserves, hmissed.counts.1, .inl ⟨hmissed, hmissed.counts.2⟩⟩
  · have hgentle : Act.Meets (Call.Gentle (Worker s m v)) OfRun Any (judge s m case v) :=
      judge_meets
    have hworkers : ∀ l ∈ launches body, Worker s m v l :=
      Program.Meets.launches (Act.Meets.startsOnly hgentle fun _ h => h) hbody
    have hspared : Judge.interrupts body = [] := Program.Meets.interrupts_eq_nil hgentle hbody
    have hheld : Held s m case v h hold before acquisition body release
        (before ++ (acquisition ++ body ++ release)) r := by
      refine ⟨by simp, hquiet, hacquires, hbody, hreleases, ?_, hworkers, ?_, ?_, ?_⟩
      · simp [hquiet.launches, hacquires.launches.1, hreleases.launches.1]
      · simp [hquiet.interrupts, hacquires.launches.2, hreleases.launches.2, hspared]
      · rintro pid rfl
        exact hreleases.awaited
      · intro release' hrelease'
        have hscope := hsame _ (hindifferent release' hrelease')
        rwa [← append_assoc, ← append_assoc] at hscope
    exact ⟨v, h, before, acquisition, hserves, hheld.counts.1,
      .inr ⟨hold, body, release, hheld, hheld.counts.2⟩⟩

/-- A run that did not fail, or in a way that may be tried again, held its helper. -/
theorem Scoped.held (h : Scoped s m case command T r)
    (hfine : ∀ e, r = .error e → e.retryable = true) :
    ∃ v h hold before acquisition body release,
      Held s m case v h hold before acquisition body release T r ∧
      (launches T).count (h.launch "start") = 1 ∧
      (launches T).count (h.launch "stop") = if hold = .done then 1 else 0 := by
  have hnot : ∀ e, r = .error e → e.retryable ≠ false := fun e he hretry =>
    absurd (hretry.symm.trans (hfine e he)) nofun
  obtain ⟨-, e, he, hretry⟩ | ⟨v, h, before, acquisition, -, hstart, ⟨hmissed, -⟩ |
    ⟨hold, body, release, hheld, hstop⟩⟩ := h
  · exact absurd hretry (hnot e he)
  · obtain ⟨e, he, hretry, -⟩ := hmissed.missed
    exact absurd hretry (hnot e he)
  · exact ⟨v, h, hold, before, acquisition, body, release, hheld, hstart, hstop⟩

end Sandbox

/-! ## Attempts -/

namespace Runner

variable {kept : Option Seal} {r : Except JudgeError Attempt}

/-- **The parts of an attempt**: the run, and then the look for processes left behind, unless the
time cannot be told at first.  An error of the run that is not worth another attempt leads to one of
the attempt that is not. -/
theorem attempt_parts (hm : Makes (attempt s m case kept).run T r) :
    (Quiet T ∧ ∃ e, r = .error (.system e)) ∨
    ∃ timing ran census rest result counted, T = timing ++ ran ++ census ++ rest ∧
      Quiet timing ∧ Quiet census ∧ Quiet rest ∧
      Makes (Sandbox.run s m case).run ran result ∧
      Makes verifyNoOrphans.run census counted ∧
      ∀ e, result = .error e → e.retryable = false →
        ∃ e', r = .error e' ∧ e'.retryable = false := by
  have htold {T : List Event} {r : Except JudgeError Span} (hm : Makes childTime.run T r) :
      Quiet T := Program.Meets.quiet (childTime_meets (E := Any) fun _ => trivial) hm
  rcases Act.makes_bind hm with ⟨e, rfl, htime⟩ | ⟨timing, time, T₁, rfl, htime, h₁⟩
  · obtain ⟨code, rfl⟩ := Act.Meets.error (Q := Any) (E := fun e => ∃ code, e = .system code)
      (childTime_meets fun code => ⟨code, rfl⟩) htime
    exact .inl ⟨htold htime, code, rfl⟩
  refine .inr ?_
  obtain ⟨ran, result, T₂, rfl, hrun, h₂⟩ := Act.makes_ofProgram_bind h₁
  rcases Act.makes_bind h₂ with ⟨e, rfl, hcensus⟩ | ⟨census, ⟨⟩, rest, rfl, hcensus, h₃⟩
  · refine ⟨timing, ran, T₂, [], result, .error e, by simp, htold htime,
      Program.Meets.quiet verifyNoOrphans_meets.gentle hcensus, ⟨rfl, rfl⟩, hrun, hcensus, ?_⟩
    have hkind := OfCensus.kind ((verifyNoOrphans_meets (L := Any)).error hcensus)
    exact fun _ _ _ => ⟨e, rfl, hkind.2⟩
  have hquiet := Program.Meets.quiet verifyNoOrphans_meets.gentle hcensus
  cases result with
  | error e =>
    obtain ⟨rfl, rfl⟩ := makes_pure h₃
    refine ⟨timing, ran, census, [], .error e, .ok (), by simp, htold htime, hquiet, ⟨rfl, rfl⟩,
      hrun, hcensus, ?_⟩
    rintro _ ⟨⟩ hretry
    exact ⟨e, rfl, hretry⟩
  | ok o =>
    exact ⟨timing, ran, census, rest, .ok o, .ok (), by simp, htold htime, hquiet,
      Program.Meets.quiet (epilogue_meets kept time o) h₃, hrun, hcensus, nofun⟩

/-- The run of an attempt that succeeds has not failed for good. -/
theorem retryable_of_ok {result : Except JudgeError Outcome} {a : Attempt}
    (h : ∀ e, result = .error e → e.retryable = false →
      ∃ e', (.ok a : Except JudgeError Attempt) = .error e' ∧ e'.retryable = false) :
    ∀ e, result = .error e → e.retryable = true := by
  intro e he
  by_contra hretry
  obtain ⟨e', hok, -⟩ := h e he (Bool.eq_false_iff.mpr hretry)
  cases hok

/-- **A helper is released exactly when it was acquired**, in every attempt with a helper and
whatever is answered.

An attempt is a run and then the look for processes left behind, unless the time cannot be told at
first; only the run starts or interrupts anybody.  A run that comes to its helper starts it once,
before all else that it starts.  If the helper is not acquired, the run fails there, with an error
of the configuration unless the end of the helper cannot be waited for, and no other attempt is
made; nothing is released.  If it is acquired, then after all that the run judges with it is
released: one that came to its end is started once more to stop; and one that lives on is
interrupted once, and waited for once unless the interrupt is refused for another reason than that
the process is gone.  The result of the run is that of judging, whatever becomes of the release. -/
theorem helper_released (s : Setup) (m : Metadata) (case : TestCase) (kept : Option Seal)
    {command : String} (hinit : s.options.initializer = some command) {T : List Event}
    {r : Except JudgeError Attempt} (hm : Program.Makes (attempt s m case kept).run T r) :
    (Quiet T ∧ ∃ e, r = .error (.system e)) ∨
    ∃ timing ran census rest result counted, T = timing ++ ran ++ census ++ rest ∧
      Quiet timing ∧ Quiet census ∧ Quiet rest ∧
      Program.Makes (Sandbox.run s m case).run ran result ∧
      Program.Makes verifyNoOrphans.run census counted ∧
      (∀ e, result = .error e → e.retryable = false →
        ∃ e', r = .error e' ∧ e'.retryable = false) ∧
      Sandbox.Scoped s m case command ran result := by
  obtain huntold | ⟨timing, ran, census, rest, result, counted, hT, htiming, hquiet, hrest, hrun,
    hcensus, herror⟩ := attempt_parts hm
  · exact .inl huntold
  · exact .inr ⟨timing, ran, census, rest, result, counted, hT, htiming, hquiet, hrest, hrun,
      hcensus, herror, Sandbox.run_scoped hinit hrun⟩

end Runner

/-! A helper that does its work or lives on, on a host on which every process ends alike. -/

/-- A setup with a helper. -/
def helpedSetup (tillEnd : Bool) : Setup :=
  { plainSetup with
    options := { initializer := some "init", initializerRunTillEnd := tillEnd } }

/-- A host on which every process writes what the reference holds and ends with `code`. -/
def helpedHost (code : Nat) : Host Nat :=
  Host.prompt ["001"]
    (fun _ p => if p = Host.promptCase.reference then some (utf8 "0\n") else none) "0\n" code

/-- What is told of a test whose candidate is to end with `code`. -/
def expecting (code : Nat) : Metadata := { exitCode := some (.exactly code) }

/-- Whether an attempt succeeds where every process ends with the code that is expected of the
candidate, and how many processes it starts. -/
def helpedEnd (tillEnd : Bool) (code : Nat) : Option (Bool × Nat) :=
  ((Runner.attempt (helpedSetup tillEnd) (expecting code) Host.promptCase none).run.run
    (helpedHost code).answer 0).map fun r => (r.1.toOption.isSome, r.2)

/-- Of the processes that are started one is the candidate, and the others are the helper: one that
lives on, or one that is started again to stop. -/
theorem helpedEnd_zero (tillEnd : Bool) :
    helpedEnd tillEnd 0 = some (true, if tillEnd then 2 else 3) := by
  cases tillEnd <;> decide +kernel

theorem not_unheard_helpedHost {code : Nat} {pid : Pid} {T : List Event}
    (h : ∀ e ∈ T, ∃ n n', (helpedHost code).answer e.call n = some (e.reply, n')) :
    ¬ Unheard pid T := by
  rintro ⟨e, -, he⟩
  obtain ⟨n, n', hanswer⟩ := h _ he
  cases hanswer

theorem exists_helped_attempt (tillEnd : Bool) : ∃ T a,
    Makes (Runner.attempt (helpedSetup tillEnd) (expecting 0) Host.promptCase none).run T (.ok a) ∧
    ∀ e ∈ T, ∃ n n', (helpedHost 0).answer e.call n = some (e.reply, n') := by
  obtain ⟨⟨r, n⟩, hrun, hended⟩ := Option.map_eq_some_iff.mp (helpedEnd_zero tillEnd)
  obtain ⟨T, hm, hanswered⟩ := Program.exists_makes_answered hrun
  cases r with
  | error e => exact absurd (Prod.mk.inj hended).1 nofun
  | ok a => exact ⟨T, a, hm, hanswered⟩

/-- A helper that came to its end is started again to stop, and one that lives on is interrupted and
waited for. -/
theorem helped_attempts_release :
    (∃ T a ran result v h before acquisition body release,
      (helpedSetup false).options.initializer = some "init" ∧
      Program.Makes (Runner.attempt (helpedSetup false) (expecting 0) Host.promptCase none).run T
        (.ok a) ∧
      Sandbox.Held (helpedSetup false) (expecting 0) Host.promptCase v h .done before acquisition
        body release ran result ∧
      (launches ran).count (h.launch "start") = 1 ∧ (launches ran).count (h.launch "stop") = 1) ∧
    ∃ T a ran result v h pid before acquisition body release,
      (helpedSetup true).options.initializer = some "init" ∧
      Program.Makes (Runner.attempt (helpedSetup true) (expecting 0) Host.promptCase none).run T
        (.ok a) ∧
      Sandbox.Held (helpedSetup true) (expecting 0) Host.promptCase v h (.living pid) before
        acquisition body release ran result ∧
      (launches ran).count (h.launch "start") = 1 ∧ (launches ran).count (h.launch "stop") = 0 ∧
      interrupts ran = [(pid : Int)] ∧ awaited release = [pid] := by
  constructor
  · obtain ⟨T, a, hm, -⟩ := exists_helped_attempt false
    obtain ⟨-, e, he⟩ | ⟨-, ran, -, -, result, -, -, -, -, -, -, -, herror, hscope⟩ :=
      Runner.helper_released (helpedSetup false) (expecting 0) Host.promptCase none rfl hm
    · cases he
    obtain ⟨v, h, hold, before, acquisition, body, release, hheld, hstart, hstop⟩ :=
      hscope.held (Runner.retryable_of_ok herror)
    have hacquired : h.Acquires false acquisition hold := hheld.acquired
    obtain rfl : hold = .done := by cases hacquired; rfl
    exact ⟨T, a, ran, result, v, h, before, acquisition, body, release, rfl, hm, hheld, hstart,
      hstop⟩
  · obtain ⟨T, a, hm, hanswered⟩ := exists_helped_attempt true
    obtain ⟨-, e, he⟩ | ⟨timing, ran, census, rest, result, -, rfl, -, -, -, -, -, herror,
      hscope⟩ := Runner.helper_released (helpedSetup true) (expecting 0) Host.promptCase none rfl hm
    · cases he
    obtain ⟨v, h, hold, before, acquisition, body, release, hheld, hstart, hstop⟩ :=
      hscope.held (Runner.retryable_of_ok herror)
    have hacquired : h.Acquires true acquisition hold := hheld.acquired
    obtain ⟨pid, rfl⟩ : ∃ pid, hold = .living pid := by cases hacquired; exact ⟨_, rfl⟩
    have hheard : ¬ Unheard pid release := not_unheard_helpedHost fun e he =>
      hanswered e (by simp [hheld.split, he])
    refine ⟨_, a, ran, result, v, h, pid, before, acquisition, body, release, rfl, hm, hheld,
      hstart, hstop, hheld.interrupts, ?_⟩
    exact ((hheld.awaited pid rfl).resolve_left fun h => hheard h.1).2

/-- Where every process ends with the exit code 3, which is what is expected of the candidate, a
helper that is to live on is not noticed to have failed; the other is, and the candidate is not
started.  And a helper whose interrupt is refused is not waited for. -/
theorem failed_helper_unnoticed :
    helpedEnd true 3 = some (true, 2) ∧ helpedEnd false 3 = some (false, 1) ∧
    ∃ (h : Helper) (T : List Event) (r : Except JudgeError Unit),
      Program.Makes (h.release (.living 7)).run T r ∧ interrupts T = [7] ∧ awaited T = [] := by
  refine ⟨by decide +kernel, by decide +kernel, ?_⟩
  obtain ⟨r, hm⟩ := Helper.Releases.makes
    (h := ⟨.ofString "/p/init", [], [], .empty, .ofString "/p/run"⟩)
    (.unheard 7 .notPermitted (by decide))
  exact ⟨_, _, r, hm, rfl, rfl⟩

end Judge
