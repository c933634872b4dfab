import Judge.Proofs.Barriers
import Judge.Proofs.Solo

/-!
# Proofs/Schedules — the outcome of a conversation does not depend on its order

`Conversation.Plays` is one step of one connection on its channel; a peer sees its own channel only,
and may also never answer.  In every order of such steps each connection goes the way that it goes
by itself (`plays_course`), so the conversation succeeds if and only if every connection does, and
fails as one of them does.  That nobody is held for ever gives the converse: where no step is left,
a conversation of connections that all come to a result by themselves has come to one
(`returns_of_stuck`).
-/

namespace Judge

open List
open Relation (ReflTransGen)

namespace Task

variable {σ : Type} {t : Task σ}

theorem phase_of_isFinished (h : t.isFinished = true) : t.phase = .finished := by
  unfold isFinished at h
  split at h
  · assumption
  · cases h

theorem phase_of_failure? {e : InteractError} (h : t.failure? = some e) : t.phase = .failed e := by
  unfold failure? at h
  split at h
  · next hp => rw [hp, Option.some.inj h]
  · cases h

end Task

namespace Conversation

variable {σ : Type} {ch : Channel σ} {silent : Command → σ → Prop} {v v' : Conversation σ}

/-! ## Orders of steps -/

/-- **A step of some connection whose peer answers**, on the channel as the connection has left
it. -/
inductive Plays (ch : Channel σ) (silent : Command → σ → Prop) (v : Conversation σ) :
    Conversation σ → Prop
  | step {index : Nat} {t : Task σ} {v' : Conversation σ} (ht : v.tasks[index]? = some t)
      (hanswered : ¬ t.Silent silent) (h : v.step? ch index = some v') : Plays ch silent v v'

/-- What a conversation returns: success when all have finished, and a failure when someone has
failed, whatever the others do. -/
def Returns (v : Conversation σ) : Except InteractError Unit → Prop
  | .ok () => ∀ t ∈ v.tasks, t.phase = .finished
  | .error e => ∃ t ∈ v.tasks, t.phase = .failed e

/-- An order of steps is complete when the conversation has returned, or no step is left. -/
def Complete (ch : Channel σ) (silent : Command → σ → Prop) (v : Conversation σ) : Prop :=
  (∃ r, v.Returns r) ∨ ∀ v', ¬ v.Plays ch silent v'

/-- The lines of the log from one connection. -/
def linesOf (v : Conversation σ) (name : String) : List LogLine :=
  v.lines.filter (·.name == name)

variable {t : Task σ} {k : ConnectionScript}

theorem step?_of_advance {i : Nat} {a : Task.Advance σ} (ht : v.tasks[i]? = some t)
    (ha : t.advance ch v.latches = some a) : v.step? ch i = some (v.update i t.name a) := by
  rw [step?, ht]
  exact congrArg (Option.map _) ha

theorem Plays.advance (h : v.Plays ch silent v') :
    ∃ i t a, v.tasks[i]? = some t ∧ ¬ t.Silent silent ∧ t.advance ch v.latches = some a ∧
      v' = v.update i t.name a := by
  obtain ⟨ht, hanswered, hstep⟩ := h
  rw [step?, ht] at hstep
  obtain ⟨a, ha, rfl⟩ := Option.map_eq_some_iff.mp hstep
  exact ⟨_, _, a, ht, hanswered, ha, rfl⟩

theorem reaches_of_plays (h : ReflTransGen (Plays ch silent) v v') : v.Reaches v' :=
  h.lift id fun _ _ hplays => by
    obtain ⟨-, -, hstep⟩ := hplays
    exact .step hstep

/-! ## Every order ends -/

/-- How many steps some tasks have before them at most. -/
def stepsLeft (tasks : List (Task σ)) : Nat := tasks.foldr (fun t n => t.stepsLeft + n) 0

theorem stepsLeft_set {tasks : List (Task σ)} {i : Nat} {t' : Task σ} (ht : tasks[i]? = some t)
    (hlt : t'.stepsLeft < t.stepsLeft) : stepsLeft (tasks.set i t') < stepsLeft tasks := by
  induction tasks generalizing i with
  | nil => simp at ht
  | cons s tasks ih =>
    cases i with
    | zero =>
      obtain rfl : s = t := by simpa using ht
      exact Nat.add_lt_add_right hlt _
    | succ i =>
      rw [getElem?_cons_succ] at ht
      exact Nat.add_lt_add_left (ih ht) _

theorem stepsLeft_update {i : Nat} {a : Task.Advance σ} (ht : v.tasks[i]? = some t)
    (ha : t.advance ch v.latches = some a) :
    stepsLeft (v.update i t.name a).tasks < stepsLeft v.tasks :=
  stepsLeft_set ht (Task.advance_nearer ha).2

/-- **No order of steps goes on for ever.** -/
theorem wellFounded_plays (ch : Channel σ) (silent : Command → σ → Prop) :
    WellFounded fun v' v : Conversation σ => v.Plays ch silent v' :=
  Subrelation.wf (fun h => by
    obtain ⟨i, t, a, ht, -, ha, rfl⟩ := h.advance
    exact stepsLeft_update ht ha) (measure fun v => stepsLeft v.tasks).wf

/-! ## Every connection goes its own way -/

theorem lines_update (v : Conversation σ) (i : Nat) (name : String) (a : Task.Advance σ) :
    (v.update i name a).lines = v.lines ++ a.log.map (LogLine.mk name) := by
  have hfold : ∀ (messages : List String) (log : List LogLine),
      messages.foldl (fun log message => ⟨name, message⟩ :: log) log
        = (messages.map (LogLine.mk name)).reverse ++ log := by
    intro messages
    induction messages with
    | nil => exact fun log => rfl
    | cons message messages ih =>
      intro log
      rw [foldl_cons, ih]
      simp
  rw [lines, lines, update, hfold, reverse_append, reverse_reverse]

/-- What a connection says stands in its lines and in nobody else's. -/
theorem linesOf_update (v : Conversation σ) (i : Nat) (said name : String) (a : Task.Advance σ) :
    (v.update i said a).linesOf name
      = v.linesOf name ++ if said = name then a.log.map (LogLine.mk name) else [] := by
  rw [linesOf, linesOf, lines_update, filter_append]
  congr 1
  split
  · next hsaid =>
    subst hsaid
    exact filter_eq_self.mpr (by simp)
  · next hsaid => exact filter_eq_nil_iff.mpr (by simp [hsaid])

variable {text : List Char} {script : Script} {peer : ConnectionScript → σ}

/-- **In every order a connection goes the way it goes by itself**, and says what it says by
itself. -/
theorem plays_course (hread : Script.read text = .ok script)
    (hrun : ReflTransGen (Plays ch silent) (start script peer) v) {i : Nat}
    (hk : script.connections[i]? = some k) :
    ∃ t log, v.tasks[i]? = some t ∧ v.linesOf k.name = log.map (LogLine.mk k.name) ∧
      ReflTransGen (Task.Passes ch silent) (Task.start k (peer k), []) (t, log) := by
  induction hrun generalizing i k with
  | refl =>
    refine ⟨_, [], ?_, rfl, .refl⟩
    rw [start, getElem?_map, hk, Option.map_some]
  | @tail v v' hrun hplays ih =>
    have horder := reaches_orderly hread (reaches_of_plays hrun)
    obtain ⟨j, t, a, ht, hanswered, ha, rfl⟩ := hplays.advance
    have hsketch : (v.tasks.map sketch)[j]? = some (sketch t) := by
      rw [getElem?_map, ht, Option.map_some]
    obtain ⟨k', hk', -⟩ := horder.connection hsketch
    obtain ⟨t', log', ht', -, hcourse'⟩ := ih hk'
    obtain rfl : t = t' := Option.some.inj (ht.symm.trans ht')
    have hname : t.name = k'.name := Task.name_of_passes hcourse'
    obtain ⟨t₀, log, ht₀, hlines, hcourse⟩ := ih hk
    rw [linesOf_update, hlines]
    by_cases hij : j = i
    · subst hij
      obtain rfl : k' = k := Option.some.inj (hk'.symm.trans hk)
      obtain rfl : t = t₀ := Option.some.inj (ht.symm.trans ht₀)
      have hexpected : ∀ m q, t.phase = .idle → t.queue = .arrive m :: q →
          ∃ l, v.latches[m]? = some l ∧ 0 < l.remaining := by
        intro m q _ hq
        rw [sketch, hq] at hsketch
        exact horder.arrival_expected (Script.read_laid hread) hsketch
      have hpass := Task.advance_pass hexpected ha
      refine ⟨a.task, log ++ a.log, ?_, ?_,
        hcourse.tail (.step (a := { a with latches := [] }) hanswered hpass)⟩
      · exact getElem?_set_self (List.getElem?_eq_some_iff.mp ht).1
      · rw [if_pos hname, map_append]
    · refine ⟨t₀, log, (getElem?_set_ne hij).trans ht₀, ?_, hcourse⟩
      have hne : t.name ≠ k.name := fun heq => hij <|
        (getElem?_inj (by simpa using (List.getElem?_eq_some_iff.mp hk').1)
          (Script.read_names hread)).mp (by
            rw [getElem?_map, getElem?_map, hk', hk, Option.map_some, Option.map_some,
              ← hname, heq])
      rw [if_neg hne, append_nil]

/-- Every task is under way as its connection is by itself. -/
theorem strides_of_mem (hread : Script.read text = .ok script)
    (hrun : ReflTransGen (Plays ch silent) (start script peer) v) (ht : t ∈ v.tasks) :
    ∃ k ∈ script.connections,
      ReflTransGen (Task.Strides ch silent) (Task.start k.unheld (peer k)) t.unheld := by
  have horder := reaches_orderly hread (reaches_of_plays hrun)
  obtain ⟨i, hi⟩ := mem_iff_getElem?.mp ht
  obtain ⟨k, hk, hmem⟩ := horder.connection (t := sketch t) (by
    rw [getElem?_map, hi, Option.map_some])
  obtain ⟨t', log, ht', -, hcourse⟩ := plays_course hread hrun hk
  obtain rfl : t = t' := Option.some.inj (hi.symm.trans ht')
  exact ⟨k, hmem, Task.strides_of_passes hcourse⟩

/-- **Who has come to a result has come to the one it comes to by itself.** -/
theorem alone_of_mem (hread : Script.read text = .ok script)
    (hrun : ReflTransGen (Plays ch silent) (start script peer) v) (ht : t ∈ v.tasks)
    {r : Except InteractError Unit} (hp : t.phase = .result r) :
    ∃ k ∈ script.connections, k.Alone ch silent (peer k) r := by
  obtain ⟨k, hk, hstrides⟩ := strides_of_mem hread hrun ht
  exact ⟨k, hk, t.unheld, hstrides, Task.phase_unheld_of_result hp⟩

theorem alone_ok_of_returns (hread : Script.read text = .ok script)
    (hrun : ReflTransGen (Plays ch silent) (start script peer) v)
    (hok : v.Returns (.ok ())) (hk : k ∈ script.connections) :
    k.Alone ch silent (peer k) (.ok ()) := by
  obtain ⟨i, hi⟩ := mem_iff_getElem?.mp hk
  obtain ⟨t, log, ht, -, hcourse⟩ := plays_course hread hrun hi
  exact ⟨t.unheld, Task.strides_of_passes hcourse,
    Task.phase_unheld_of_result (r := .ok ()) (hok t (mem_of_getElem? ht))⟩

/-! ## Where no step is left -/

/-- **Where no step is left everyone has finished**, if nobody has failed and no peer keeps anyone
waiting for ever. -/
theorem finished_of_stuck (horder : Orderly script (v.tasks.map sketch) v.latches)
    (hlaid : script.Laid) (hstuck : ∀ v', ¬ v.Plays ch silent v')
    (hanswered : ∀ t ∈ v.tasks, ¬ t.Silent silent)
    (hfailed : ∀ t ∈ v.tasks, t.failure? = none) : v.Returns (.ok ()) := by
  have hready : ∀ t ∈ v.tasks, t.ready v.latches = false := by
    intro t ht
    obtain ⟨i, hi⟩ := mem_iff_getElem?.mp ht
    rw [← Task.isSome_advance ch, Option.isSome_eq_false_iff, Option.isNone_iff_eq_none,
      Option.eq_none_iff_forall_ne_some]
    intro a ha
    exact hstuck _ (.step hi (hanswered t ht) (step?_of_advance hi ha))
  intro t ht
  by_contra hp
  have hf : t.isFinished = false :=
    Bool.eq_false_iff.mpr fun h => hp (Task.phase_of_isFinished h)
  obtain ⟨m, hheld, hclosed⟩ := held_of_not_ready (hready t ht) (hfailed t ht) hf
  exact hclosed (not_held horder hlaid hfailed hready m t ht hheld)

/-- **A conversation that can go no further has returned**, if no peer keeps anyone waiting for
ever. -/
theorem returns_of_stuck (horder : Orderly script (v.tasks.map sketch) v.latches)
    (hlaid : script.Laid) (hstuck : ∀ v', ¬ v.Plays ch silent v')
    (hanswered : ∀ t ∈ v.tasks, ¬ t.Silent silent) : ∃ r, v.Returns r := by
  by_cases hfailed : ∀ t ∈ v.tasks, t.failure? = none
  · exact ⟨_, finished_of_stuck horder hlaid hstuck hanswered hfailed⟩
  · push Not at hfailed
    obtain ⟨t, ht, hf⟩ := hfailed
    obtain ⟨e, he⟩ := Option.ne_none_iff_exists'.mp hf
    exact ⟨.error e, t, ht, Task.phase_of_failure? he⟩

/-- **If every connection comes to a result by itself, so does the conversation**, in every complete
order. -/
theorem returns_of_complete (hread : Script.read text = .ok script)
    (hrun : ReflTransGen (Plays ch silent) (start script peer) v) (hcomplete : v.Complete ch silent)
    (halone : ∀ k ∈ script.connections, ∃ r, k.Alone ch silent (peer k) r) : ∃ r, v.Returns r := by
  rcases hcomplete with hreturns | hstuck
  · exact hreturns
  · refine returns_of_stuck (reaches_orderly hread (reaches_of_plays hrun))
      (Script.read_laid hread) hstuck fun t ht hsilent => ?_
    obtain ⟨k, hk, hstrides⟩ := strides_of_mem hread hrun ht
    obtain ⟨r, hr⟩ := halone k hk
    exact hr.not_silent hstrides (Task.silent_unheld.mpr hsilent)

/-- **A complete order succeeds if and only if every connection succeeds by itself.** -/
theorem returns_ok_iff (hread : Script.read text = .ok script)
    (hrun : ReflTransGen (Plays ch silent) (start script peer) v)
    (hcomplete : v.Complete ch silent) :
    v.Returns (.ok ()) ↔ ∀ k ∈ script.connections, k.Alone ch silent (peer k) (.ok ()) := by
  refine ⟨fun hok k hk => alone_ok_of_returns hread hrun hok hk, fun halone => ?_⟩
  obtain ⟨r, hr⟩ := returns_of_complete hread hrun hcomplete fun k hk => ⟨_, halone k hk⟩
  cases r with
  | ok u => exact hr
  | error e =>
    obtain ⟨t, ht, hp⟩ := hr
    obtain ⟨k, hk, herror⟩ := alone_of_mem hread hrun ht (r := .error e) hp
    cases (halone k hk).unique herror

/-- The lines of a connection that has come to a result are those it has by itself. -/
theorem linesOf_eq (hread : Script.read text = .ok script) {v₁ v₂ : Conversation σ}
    (hrun₁ : ReflTransGen (Plays ch silent) (start script peer) v₁)
    (hrun₂ : ReflTransGen (Plays ch silent) (start script peer) v₂)
    (hok₁ : v₁.Returns (.ok ())) (hok₂ : v₂.Returns (.ok ())) (hk : k ∈ script.connections) :
    v₁.linesOf k.name = v₂.linesOf k.name := by
  obtain ⟨i, hi⟩ := mem_iff_getElem?.mp hk
  obtain ⟨t₁, log₁, ht₁, hlines₁, hcourse₁⟩ := plays_course hread hrun₁ hi
  obtain ⟨t₂, log₂, ht₂, hlines₂, hcourse₂⟩ := plays_course hread hrun₂ hi
  have hsame := eq_of_runs (Task.passes_rightUnique ch silent) hcourse₁ hcourse₂
    (Task.not_passes_of_result (r := .ok ()) (hok₁ t₁ (mem_of_getElem? ht₁)))
    (Task.not_passes_of_result (r := .ok ()) (hok₂ t₂ (mem_of_getElem? ht₂)))
  rw [hlines₁, hlines₂, (Prod.mk.inj hsame).2]

/-! ## The order of a single thread -/

/-- A search that goes on with what it has or with what it meets finds something of either. -/
theorem foldl_pick {α : Type} {f : Option α → α → Option α}
    (hf : ∀ best x, f best x = some x ∨ (best.isSome ∧ f best x = best)) (xs : List α) :
    ∀ best, (∀ x, xs.foldl f best = some x → best = some x ∨ x ∈ xs) ∧
      (xs.foldl f best = none → best = none ∧ xs = []) := by
  induction xs with
  | nil => exact fun best => ⟨fun x h => .inl h, fun h => ⟨h, rfl⟩⟩
  | cons y xs ih =>
    intro best
    rw [foldl_cons]
    rcases hf best y with hy | ⟨hsome, hbest⟩
    · rw [hy]
      refine ⟨fun x h => ?_, fun h => ?_⟩
      · rcases (ih (some y)).1 x h with heq | hmem
        · exact .inr (Option.some.inj heq ▸ mem_cons_self)
        · exact .inr (mem_cons_of_mem _ hmem)
      · cases ((ih (some y)).2 h).1
    · rw [hbest]
      refine ⟨fun x h => ?_, fun h => ?_⟩
      · exact ((ih best).1 x h).imp_right (mem_cons_of_mem _)
      · rw [((ih best).2 h).1] at hsome
        cases hsome

/-- **The next task is one that can take a step**, and there is none only where none can. -/
theorem choose_spec (ch : Channel σ) (v : Conversation σ) (order : List Nat) :
    (∀ i clock, choose ch v order = some (i, clock) → ∃ t, v.tasks[i]? = some t ∧
      t.ready v.latches = true) ∧
    (choose ch v order = none → ∀ i ∈ order, ∀ t, v.tasks[i]? = some t →
      t.ready v.latches = false) := by
  unfold choose
  generalize hentries : (order.filterMap fun index => _) = entries
  generalize hf : (fun (best : Option (Nat × Nat)) (entry : Nat × Nat) => _) = f
  have hpick := foldl_pick (f := f) (fun best entry => by
    subst hf
    cases best with
    | none => exact .inl rfl
    | some b =>
      dsimp only
      split
      · exact .inl rfl
      · exact .inr ⟨rfl, rfl⟩) entries none
  refine ⟨fun i clock h => ?_, fun h i hi t ht => ?_⟩
  · rcases hpick.1 _ h with hnone | hmem
    · cases hnone
    · rw [← hentries] at hmem
      obtain ⟨j, -, hj⟩ := mem_filterMap.mp hmem
      split at hj
      · cases hj
      · next t ht =>
        split at hj
        · next hready =>
          cases hj
          exact ⟨t, ht, hready⟩
        · cases hj
  · have hnone := filterMap_eq_nil_iff.mp (hentries.trans (hpick.2 h).2) i hi
    rw [ht] at hnone
    simpa using hnone

theorem catchUp_eq (hwait : ∀ now s, ch.waitUntil now s = s) (v : Conversation σ) (now i : Nat) :
    catchUp ch v now i = v := by
  have hid : (fun t : Task σ => { t with channel := ch.waitUntil now t.channel }) = id := by
    funext t
    rw [hwait]
    rfl
  rw [catchUp, hid, modify_id]

theorem mem_reorder {order : List Nat} {i j : Nat} (hi : i < v.tasks.length) (hj : j ∈ order) :
    j ∈ reorder v order i := by
  unfold reorder
  rw [getElem?_eq_getElem hi]
  dsimp only
  by_cases hji : j = i
  · split <;> simp [hji]
  · split <;> simp [hji, hj]

/-- **The order of a single thread is complete**, if waiting changes nothing for a peer and every
peer answers.  By induction on the fuel, of which there is more than there are steps left. -/
theorem runFrom_complete (hwait : ∀ now s, ch.waitUntil now s = s) (hlaid : script.Laid)
    (hends : ∀ k ∈ script.connections, EndsInDone k.commands)
    (hanswered : ∀ c s, ¬ silent c s) {fuel now : Nat} {order : List Nat} {v : Conversation σ}
    (horder : Orderly script (v.tasks.map sketch) v.latches)
    (hfailed : v.failure? = none) (hall : ∀ i < v.tasks.length, i ∈ order)
    (hfuel : stepsLeft v.tasks < fuel) :
    ReflTransGen (Plays ch silent) v (runFrom ch fuel now order v).2 ∧
      (runFrom ch fuel now order v).2.Returns (runFrom ch fuel now order v).1 := by
  have hheard : ∀ t : Task σ, ¬ t.Silent silent := fun t hsilent => by
    unfold Task.Silent at hsilent
    split at hsilent
    · exact hanswered _ _ hsilent
    · exact hanswered _ _ hsilent
    · exact hsilent
  induction fuel generalizing now order v with
  | zero => cases hfuel
  | succ fuel ih =>
    unfold runFrom
    obtain ⟨hchosen, hnone⟩ := choose_spec ch v order
    cases hchoice : choose ch v order with
    | none =>
      have hstuck : ∀ v', ¬ v.Plays ch silent v' := fun v' hplays => by
        obtain ⟨i, t, a, ht, -, ha, -⟩ := hplays.advance
        have hready := hnone hchoice i (hall i (List.getElem?_eq_some_iff.mp ht).1) t ht
        rw [← Task.isSome_advance ch, ha] at hready
        cases hready
      have hok := finished_of_stuck horder hlaid hstuck (fun t _ => hheard t)
        (findSome?_eq_none_iff.mp hfailed)
      have hfinished : v.tasks.all Task.isFinished = true :=
        all_eq_true.mpr fun t ht => by rw [Task.isFinished, hok t ht]
      rw [if_pos hfinished]
      exact ⟨.refl, hok⟩
    | some choice =>
      obtain ⟨i, clock⟩ := choice
      obtain ⟨t, ht, hready⟩ := hchosen i clock hchoice
      rw [← Task.isSome_advance ch] at hready
      obtain ⟨a, ha⟩ := Option.isSome_iff_exists.mp hready
      have hstep := step?_of_advance ht ha
      have hplays : v.Plays ch silent (v.update i t.name a) := .step ht (hheard t) hstep
      dsimp only
      rw [catchUp_eq hwait, hstep]
      dsimp only
      split
      · next e he =>
        refine ⟨.single hplays, ?_⟩
        obtain ⟨t', ht', hf⟩ := exists_of_findSome?_eq_some he
        exact ⟨t', ht', Task.phase_of_failure? hf⟩
      · next he =>
        have hi : i < (v.update i t.name a).tasks.length := by
          rw [update, length_set]
          exact (List.getElem?_eq_some_iff.mp ht).1
        refine And.imp_left (fun hrun => hrun.head hplays)
          (ih ((Moves.step hstep).orderly hlaid hends horder) he (fun j hj => ?_) ?_)
        · exact mem_reorder hi (hall j (by rwa [update, length_set] at hj))
        · exact Nat.lt_of_lt_of_le (stepsLeft_update ht ha) (Nat.le_of_lt_succ hfuel)

/-- There is fuel for all the steps of a conversation. -/
theorem stepsLeft_start_lt (script : Script) (peer : ConnectionScript → σ) :
    stepsLeft (start script peer).tasks < (start script peer).stepBound := by
  have hbound : ∀ tasks : List (Task σ), (∀ t ∈ tasks, t.phase = .idle) →
      stepsLeft tasks ≤ 8 * (tasks.map fun t => t.queue.length + 1).sum := by
    intro tasks hidle
    induction tasks with
    | nil => exact Nat.le_refl 0
    | cons t tasks ih =>
      obtain ⟨ht, htasks⟩ := forall_mem_cons.mp hidle
      have hrest := ih htasks
      have hhead : t.stepsLeft = 6 * t.queue.length + 1 := by rw [Task.stepsLeft, ht, Task.rank]
      have hcons : stepsLeft (t :: tasks) = t.stepsLeft + stepsLeft tasks := rfl
      rw [hcons, hhead, map_cons, sum_cons]
      omega
  have hidle : ∀ t ∈ (start script peer).tasks, t.phase = .idle := fun t ht => by
    obtain ⟨k, -, rfl⟩ := mem_map.mp ht
    rfl
  have := hbound _ hidle
  rw [stepBound]
  omega

/-- **The outcome of a conversation does not depend on its order.**  Every connection of a script
meets a peer that sees its own channel only, and may fail to answer.  No order of steps goes on for
ever.  Any two complete ones succeed together, and they do so if and only if every connection
succeeds by itself with its commands for latches left out; each connection then has the same lines
in both logs.  A failure is one that some connection has by itself.  If every connection comes to a
result by itself, every complete order has come to one.  Where waiting changes nothing for a peer
and every peer answers, the order of a single thread is such an order. -/
theorem outcome_independent_of_order {text : List Char} {script : Script}
    (hread : Script.read text = .ok script) (ch : Channel σ) (silent : Command → σ → Prop)
    (peer : ConnectionScript → σ) :
    Acc (fun v' v => v.Plays ch silent v') (start script peer) ∧
    (∀ v₁ v₂, Relation.ReflTransGen (Plays ch silent) (start script peer) v₁ →
      v₁.Complete ch silent → Relation.ReflTransGen (Plays ch silent) (start script peer) v₂ →
      v₂.Complete ch silent →
      (v₁.Returns (.ok ()) ↔ v₂.Returns (.ok ())) ∧
      (v₁.Returns (.ok ()) ↔
        ∀ k ∈ script.connections, k.Alone ch silent (peer k) (.ok ())) ∧
      (v₁.Returns (.ok ()) → ∀ k ∈ script.connections, v₁.linesOf k.name = v₂.linesOf k.name) ∧
      (∀ e, v₁.Returns (.error e) →
        ∃ k ∈ script.connections, k.Alone ch silent (peer k) (.error e)) ∧
      ((∀ k ∈ script.connections, ∃ r, k.Alone ch silent (peer k) r) → ∃ r, v₁.Returns r)) ∧
    ((∀ now s, ch.waitUntil now s = s) → (∀ c s, ¬ silent c s) →
      Relation.ReflTransGen (Plays ch silent) (start script peer)
        (run ch (start script peer)).2 ∧
      (run ch (start script peer)).2.Returns (run ch (start script peer)).1) := by
  refine ⟨(wellFounded_plays ch silent).apply _, fun v₁ v₂ hrun₁ hcomplete₁ hrun₂ hcomplete₂ => ?_,
    fun hwait hanswered => ?_⟩
  · have hok₁ := returns_ok_iff hread hrun₁ hcomplete₁
    have hok₂ := returns_ok_iff hread hrun₂ hcomplete₂
    refine ⟨hok₁.trans hok₂.symm, hok₁, fun h₁ k hk => ?_, fun e herror => ?_,
      returns_of_complete hread hrun₁ hcomplete₁⟩
    · exact linesOf_eq hread hrun₁ hrun₂ h₁ (hok₂.mpr (hok₁.mp h₁)) hk
    · obtain ⟨t, ht, hp⟩ := herror
      exact alone_of_mem hread hrun₁ ht (r := .error e) hp
  · refine runFrom_complete hwait (Script.read_laid hread) (Script.read_ends hread) hanswered
      (start_orderly (Script.read_laid hread) peer) ?_ (fun i hi => List.mem_range.mpr hi)
      (stepsLeft_start_lt script peer)
    refine List.findSome?_eq_none_iff.mpr fun t ht => ?_
    obtain ⟨k, -, rfl⟩ := List.mem_map.mp ht
    rfl

/-- The conversation of the script with a late connection at its end, where `order` says who goes
first. -/
def lateEnd (order : List Nat) : Conversation Unit :=
  (runFrom quietChannel 100 0 order (start lateScript fun _ => ())).2

/-- Who goes first changes the log, and neither the outcome nor the lines of anyone. -/
theorem late_script_in_two_orders :
    (lateEnd [0, 1, 2]).lines ≠ (lateEnd [2, 1, 0]).lines ∧
    (lateEnd [2, 1, 0]).Returns (.ok ()) ∧
    (∀ k ∈ lateScript.connections, k.Alone quietChannel (fun _ _ => False) () (.ok ())) ∧
    ∀ k ∈ lateScript.connections,
      (lateEnd [0, 1, 2]).linesOf k.name = (lateEnd [2, 1, 0]).linesOf k.name := by
  have hlaid := Script.read_laid read_lateText
  have hcomplete : ∀ order : List Nat, (∀ i < 3, i ∈ order) →
      Relation.ReflTransGen (Plays quietChannel fun _ _ => False)
        (start lateScript fun _ => ()) (lateEnd order) ∧
      (lateEnd order).Complete quietChannel fun _ _ => False := fun order hall =>
    And.imp_right (fun h => .inl ⟨_, h⟩)
      (runFrom_complete (fun _ _ => rfl) hlaid (Script.read_ends read_lateText)
        (fun _ _ => not_false) (start_orderly hlaid _) rfl hall (by decide))
  obtain ⟨hrun₁, hcomplete₁⟩ := hcomplete [0, 1, 2] (by decide)
  obtain ⟨hrun₂, hcomplete₂⟩ := hcomplete [2, 1, 0] (by decide)
  obtain ⟨hsame, halone, hlines, -⟩ :=
    (outcome_independent_of_order read_lateText quietChannel (fun _ _ => False) _).2.1 _ _
      hrun₁ hcomplete₁ hrun₂ hcomplete₂
  have hfinished : ∀ t ∈ (lateEnd [0, 1, 2]).tasks, t.isFinished = true := by decide +kernel
  have hok : (lateEnd [0, 1, 2]).Returns (.ok ()) := fun t ht =>
    Task.phase_of_isFinished (hfinished t ht)
  exact ⟨by decide +kernel, hsame.mp hok, halone.mp hok, hlines hok⟩

end Conversation

end Judge
