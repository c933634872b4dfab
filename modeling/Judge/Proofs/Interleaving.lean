import Judge.Conversation.Live
import Judge.Proofs.TaskSteps
import Judge.Proofs.Traces
import Mathlib.Logic.Relation

/-!
# Proofs/Interleaving — every order in which connections can act

`Conversation.Moves` is one move of a conversation: some task takes a step on a channel that behaves
in whatever way, or something outside changes the state of a channel.  The orders that a single
thread takes are runs of it (`reaches_runFrom`, `reaches_converse`).

What latches see of a task is its `Stance` and its queue, and `advance_turn` says once what a step
does to these.  From it follows `Orderly`, which relates the tasks of a conversation to the script
they follow, in every state that a conversation can reach (`reaches_orderly`).
-/

namespace Judge

open List

/-! ## What latches see of a task -/

/-- Where a task stands, whatever its channel does. -/
inductive Stance where
  | idle
  | inside (c : Command)
  | held (latch : Nat)
  | finished
  | failed (error : InteractError)

/-- The stance of a phase. -/
def Phase.stance : Phase → Stance
  | .idle => .idle
  | .opening c | .opened c | .operating c | .concluding c _ => .inside c
  | .blocked latch => .held latch
  | .finished => .finished
  | .failed e => .failed e

/-- **What a step does to a stance, a queue and the latches.** -/
inductive Turn (latches : List Latch) :
    Stance → List Command → Stance → List Command → List Latch → Prop
  | finish : Turn latches .idle [] .finished [] latches
  | take {c : Command} {q : List Command} (hc : c.latch? = none) :
      Turn latches .idle (c :: q) (.inside c) q latches
  | wait {m : Nat} {q : List Command} : Turn latches .idle (.wait m :: q) (.held m) q latches
  | arrive {m : Nat} {q : List Command} {l : Latch} (hl : latches[m]? = some l)
      (hpos : 0 < l.remaining) :
      Turn latches .idle (.arrive m :: q) (.held m) q
        (latches.set m { l with remaining := l.remaining - 1 })
  | stray {m : Nat} {q : List Command} (hm : latches[m]? = none) :
      Turn latches .idle (.arrive m :: q) (.held m) q latches
  /-- An arrival that nobody expects. -/
  | refused {m : Nat} {q : List Command} {l : Latch} (hl : latches[m]? = some l)
      (hzero : l.remaining = 0) :
      Turn latches .idle (.arrive m :: q) (.failed (.crash l.unexpected)) q latches
  | proceed {c : Command} {q : List Command} : Turn latches (.inside c) q (.inside c) q latches
  | complete {c : Command} {q : List Command} (hc : c ≠ .done) :
      Turn latches (.inside c) q .idle q latches
  | done {q : List Command} : Turn latches (.inside .done) q .finished q latches
  | fail {c : Command} {q : List Command} {e : InteractError} (he : ∀ message, e ≠ .crash message) :
      Turn latches (.inside c) q (.failed e) q latches
  | release {m : Nat} {q : List Command} {l : Latch} (hl : latches[m]? = some l)
      (hzero : l.remaining = 0) : Turn latches (.held m) q .idle q latches

namespace Task

variable {σ : Type}

/-- A judgement never blames the script. -/
theorem judge_not_crash (t : Task σ) (c : Command) (outcome : Except IoError Bytes)
    {e : InteractError} (h : (judge t c outcome).2 = some e) (message : String) :
    e ≠ .crash message := by
  unfold judge at h
  rintro rfl
  split at h
  · split at h <;> cases h
  · split at h
    · cases h
    · split at h
      · cases h
      · split at h <;> cases h
  · split at h
    · cases h
    · split at h <;> cases h
  · cases h
  · cases h

theorem conclude_turn (latches : List Latch) (t : Task σ) (c : Command)
    (outcome : Except IoError Bytes) :
    Turn latches (.inside c) t.queue (conclude t c (judge t c outcome).2).phase.stance
      (conclude t c (judge t c outcome).2).queue latches := by
  cases hj : (judge t c outcome).2 with
  | some e => exact Turn.fail (judge_not_crash t c outcome hj)
  | none =>
    by_cases hc : c = .done
    · subst hc
      exact Turn.done
    · simp only [conclude, if_neg hc]
      exact Turn.complete hc

/-- **What a step can do.** -/
theorem advance_turn {ch : Channel σ} {latches : List Latch} {t : Task σ} {a : Advance σ}
    (h : t.advance ch latches = some a) :
    Turn latches t.phase.stance t.queue a.task.phase.stance a.task.queue a.latches := by
  rcases advance_cases h with honward | ⟨hp, hq, hl, hzero⟩
  · cases honward with
    | finish hp hq => rw [hp, hq]; exact .finish
    | hold hp hq hc =>
      rw [hp, hq]
      cases hc with
      | wait => exact .wait
      | arrive hl hpos => exact .arrive hl hpos
      | stray hm => exact .stray hm
    | reach hp hq hc hopen huses | take hp hq hc hopen => rw [hp, hq]; exact .take hc
    | release hp hl hzero => rw [hp]; exact .release hl hzero
    | connect hp hs => rw [hp]; exact .proceed
    | refuse hp hs => rw [hp]; exact .fail fun _ => nofun
    | proceed hp => rw [hp]; exact .proceed
    | operate hp => rw [hp, operate_queue]; exact .proceed
    | conclude hp => rw [hp]; exact conclude_turn latches t _ _
  · rw [hp, hq]
    exact .refused hl hzero

end Task

/-! ## Moves of a conversation -/

namespace Conversation

variable {σ : Type}

/-- The conversation with another state of the channel of a task. -/
def drift (v : Conversation σ) (index : Nat) (f : σ → σ) : Conversation σ :=
  { v with tasks := v.tasks.modify index fun t => { t with channel := f t.channel } }

/-- **One move of a conversation**: a step of some task on some channel, or a change of a channel
from outside. -/
inductive Moves (v : Conversation σ) : Conversation σ → Prop
  | step {ch : Channel σ} {index : Nat} {v' : Conversation σ} (h : v.step? ch index = some v') :
      Moves v v'
  | drift (index : Nat) (f : σ → σ) : Moves v (v.drift index f)

/-- Any number of moves. -/
abbrev Reaches : Conversation σ → Conversation σ → Prop := Relation.ReflTransGen Moves

theorem reaches_catchUp (ch : Channel σ) (v : Conversation σ) (now index : Nat) :
    v.Reaches (catchUp ch v now index) :=
  .single (.drift index (ch.waitUntil now))

/-- **The order of a single thread is one of the orders.** -/
theorem reaches_runFrom (ch : Channel σ) (fuel now : Nat) (order : List Nat)
    (v : Conversation σ) : v.Reaches (runFrom ch fuel now order v).2 := by
  induction fuel generalizing now order v with
  | zero => exact .refl
  | succ fuel ih =>
    unfold runFrom
    cases hchoice : choose ch v order with
    | none =>
      dsimp only
      split <;> exact .refl
    | some choice =>
      obtain ⟨index, clock⟩ := choice
      dsimp only
      cases hstep : (catchUp ch v (max now clock) index).step? ch index with
      | none => exact reaches_catchUp ..
      | some v' =>
        have hv' : v.Reaches v' := (reaches_catchUp ..).tail (.step hstep)
        dsimp only
        split
        · exact hv'
        · exact hv'.trans (ih _ _ v')

/-- **So is the order on a machine**, however the machine answers. -/
theorem reaches_converseFrom {e : Endpoints} {start fuel now : Nat} {order : List Nat}
    {v v' : Conversation PeerSocket} {T : List Event} {r : Except InteractError Unit}
    (hm : Program.Makes (converseFrom e start fuel now order v) T (r, v')) : v.Reaches v' := by
  induction fuel generalizing now order v T with
  | zero =>
    cases (Program.makes_pure hm).2
    exact .refl
  | succ fuel ih =>
    unfold converseFrom at hm
    cases hchoice : choose closedChannel v order with
    | none =>
      rw [hchoice] at hm
      dsimp only at hm
      split at hm <;> cases (Program.makes_pure hm).2 <;> exact .refl
    | some choice =>
      obtain ⟨index, clock⟩ := choice
      rw [hchoice] at hm
      obtain ⟨T₁, -, T₂, -, -, hm⟩ := Program.makes_bind hm
      obtain ⟨T₃, ch, T₄, -, -, hm⟩ := Program.makes_bind hm
      cases hstep : (catchUp closedChannel v (max now clock) index).step? ch index with
      | none =>
        rw [hstep] at hm
        cases (Program.makes_pure hm).2
        exact reaches_catchUp ..
      | some w =>
        have hw : v.Reaches w := (reaches_catchUp ..).tail (.step hstep)
        rw [hstep] at hm
        dsimp only at hm
        split at hm
        · cases (Program.makes_pure hm).2
          exact hw
        · exact hw.trans (ih hm)

theorem reaches_converse {script : Script} {e : Endpoints} {T : List Event}
    {r : Except InteractError Unit} {v : Conversation PeerSocket}
    (hm : Program.Makes (converse script e) T (r, v)) :
    (start script fun _ => ({} : PeerSocket)).Reaches v := by
  obtain ⟨T₁, began, T₂, -, -, hm⟩ := Program.makes_bind hm
  obtain ⟨T₃, held, T₄, -, hheld, hm⟩ := Program.makes_bind hm
  obtain ⟨T₅, -, T₆, -, -, hm⟩ := Program.makes_bind hm
  cases (Program.makes_pure hm).2
  exact reaches_converseFrom hheld

/-! ## Outlines

An outline keeps of a conversation what its latches depend on, and a move changes at most one of
its tasks, by a `Turn`. -/

/-- What latches see of a task. -/
abbrev sketch (t : Task σ) : Stance × List Command := (t.phase.stance, t.queue)

theorem exists_of_step? {ch : Channel σ} {i : Nat} {v v' : Conversation σ}
    (h : v.step? ch i = some v') :
    ∃ t a, v.tasks[i]? = some t ∧ t.advance ch v.latches = some a ∧ v' = v.update i t.name a := by
  unfold step? at h
  split at h
  · cases h
  · rename_i t ht
    obtain ⟨a, ha, rfl⟩ := Option.map_eq_some_iff.mp h
    exact ⟨t, a, ht, ha, rfl⟩

/-- A change of a channel from outside changes nothing else of a task. -/
theorem map_drift {β : Type} {g : Task σ → β} (hg : ∀ t s, g { t with channel := s } = g t)
    (v : Conversation σ) (index : Nat) (f : σ → σ) :
    (v.drift index f).tasks.map g = v.tasks.map g := by
  refine ext_getElem? fun i => ?_
  simp only [drift, getElem?_map, getElem?_modify]
  cases v.tasks[i]? with
  | none => rfl
  | some t => by_cases hi : index = i <;> simp [hi, hg]

/-- **A move turns at most one task.** -/
theorem Moves.turn {v v' : Conversation σ} (h : v.Moves v') :
    (v'.tasks.map sketch = v.tasks.map sketch ∧ v'.latches = v.latches) ∨
    ∃ i st q st' q', (v.tasks.map sketch)[i]? = some (st, q) ∧
      v'.tasks.map sketch = (v.tasks.map sketch).set i (st', q') ∧
      Turn v.latches st q st' q' v'.latches := by
  cases h with
  | drift index f => exact .inl ⟨map_drift (fun _ _ => rfl) v index f, rfl⟩
  | @step ch index _ h =>
    obtain ⟨t, a, ht, ha, rfl⟩ := exists_of_step? h
    refine .inr ⟨index, t.phase.stance, t.queue, a.task.phase.stance, a.task.queue, ?_, ?_,
      Task.advance_turn ha⟩
    · rw [getElem?_map, ht]
      rfl
    · exact map_set

end Conversation

/-! ## Following a script -/

/-- Whether a latch is there and expects nobody any more. -/
def Released (latches : List Latch) (m : Nat) : Prop :=
  ∃ l, latches[m]? = some l ∧ l.remaining = 0

/-- Whether a latch is there and expects somebody. -/
def Awaited (latches : List Latch) (m : Nat) : Prop :=
  ∃ l, latches[m]? = some l ∧ 0 < l.remaining

def AllReleased (latches : List Latch) (commands : List Command) : Prop :=
  ∀ m ∈ marks commands, Released latches m

theorem allReleased_nil (latches : List Latch) : AllReleased latches [] := nofun

variable {latches latches' : List Latch} {q q' : List Command} {st st' : Stance}

theorem Awaited.ne_zero {m : Nat} {l : Latch} (h : Awaited latches m) (hl : latches[m]? = some l) :
    l.remaining ≠ 0 := by
  obtain ⟨l', hl', hpos⟩ := h
  obtain rfl : l' = l := Option.some.inj (hl'.symm.trans hl)
  omega

theorem AllReleased.concat {b : List Command} {c : Command} (hb : AllReleased latches b)
    (hc : ∀ m, c.latch? = some m → Released latches m) : AllReleased latches (b ++ [c]) := by
  intro m hm
  rw [marks_append, mem_append] at hm
  exact hm.elim (hb m) fun hm => hc m (by simpa [marks] using hm)

/-- **How far a task has come**: `begun` is what it has taken up, the last of which may be under
way, and everything before that has passed its latches. -/
def Follows (latches : List Latch) (begun queue : List Command) : Stance → Prop
  | .idle => AllReleased latches begun
  | .inside c => ∃ b, begun = b ++ [c] ∧ c.latch? = none ∧ AllReleased latches b
  | .held m => ∃ b c, begun = b ++ [c] ∧ c.latch? = some m ∧ AllReleased latches b
  | .finished => AllReleased latches begun ∧ queue = []
  | .failed e => (∃ b c, begun = b ++ [c] ∧ AllReleased latches b) ∧ ∀ message, e ≠ .crash message

theorem Turn.released (h : Turn latches st q st' q' latches')
    {m : Nat} (hm : Released latches m) : Released latches' m := by
  cases h with
  | @arrive k _ l hl hpos =>
    obtain ⟨l', hl', hzero⟩ := hm
    have hne : k ≠ m := by
      rintro rfl
      exact Awaited.ne_zero ⟨l, hl, hpos⟩ hl' hzero
    exact ⟨l', (getElem?_set_ne hne).trans hl', hzero⟩
  | _ => exact hm

theorem Follows.mono {begun : List Command}
    (hmono : ∀ m, Released latches m → Released latches' m) (h : Follows latches begun q st) :
    Follows latches' begun q st := by
  have hall : ∀ {b}, AllReleased latches b → AllReleased latches' b :=
    fun hb m hm => hmono m (hb m hm)
  cases st with
  | idle => exact hall h
  | inside c =>
    obtain ⟨b, hb, hc, hr⟩ := h
    exact ⟨b, hb, hc, hall hr⟩
  | held m =>
    obtain ⟨b, c, hb, hc, hr⟩ := h
    exact ⟨b, c, hb, hc, hall hr⟩
  | finished => exact ⟨hall h.1, h.2⟩
  | failed e =>
    obtain ⟨⟨b, c, hb, hr⟩, he⟩ := h
    exact ⟨⟨b, c, hb, hall hr⟩, he⟩

/-- **A turn goes on with the script**, unless it arrives where nobody expects it. -/
theorem Follows.turn {begun : List Command}
    (h : Follows latches begun q st) (hturn : Turn latches st q st' q' latches')
    (hends : EndsInDone (begun ++ q))
    (hawaited : ∀ m rest, q = .arrive m :: rest → Awaited latches m) :
    ∃ begun', begun ++ q = begun' ++ q' ∧ Follows latches' begun' q' st' := by
  have hmono : ∀ m, Released latches m → Released latches' m := fun m => hturn.released
  cases hturn with
  | finish => exact ⟨begun, rfl, h, rfl⟩
  | @take c _ hc => exact ⟨begun ++ [c], by simp, begun, rfl, hc, h⟩
  | @wait m => exact ⟨begun ++ [.wait m], by simp, begun, _, rfl, rfl, h⟩
  | @arrive m _ l hl hpos =>
    exact ⟨begun ++ [.arrive m], by simp, begun, _, rfl, rfl, fun k hk => hmono k (h k hk)⟩
  | stray hm =>
    obtain ⟨l, hl, -⟩ := hawaited _ _ rfl
    cases hm.symm.trans hl
  | refused hl hzero => exact absurd hzero ((hawaited _ _ rfl).ne_zero hl)
  | proceed => exact ⟨begun, rfl, h⟩
  | @complete c _ hne =>
    obtain ⟨b, rfl, hc, hr⟩ := h
    refine ⟨_, rfl, hr.concat fun m hm => ?_⟩
    cases hc.symm.trans hm
  | done =>
    obtain ⟨b, rfl, hc, hr⟩ := h
    rw [append_assoc] at hends
    exact ⟨_, rfl, hr.concat nofun, hends.rest_eq_nil⟩
  | @fail c _ e he =>
    obtain ⟨b, rfl, -, hr⟩ := h
    exact ⟨_, rfl, ⟨b, c, rfl, hr⟩, he⟩
  | @release m _ l hl hzero =>
    obtain ⟨b, c, rfl, hc, hr⟩ := h
    refine ⟨_, rfl, hr.concat fun k hk => ?_⟩
    obtain rfl : m = k := Option.some.inj (hc.symm.trans hk)
    exact ⟨l, hl, hzero⟩

/-! ## The invariant -/

/-- **A conversation in order**: every task follows its part of the script, and every latch expects
exactly those who have yet to arrive at it. -/
structure Orderly (script : Script) (tasks : List (Stance × List Command))
    (latches : List Latch) : Prop where
  tasks_length : tasks.length = script.connections.length
  latches_length : latches.length = script.latches.length
  follows : ∀ (i : Nat) (k : ConnectionScript) (st : Stance) (q : List Command),
    script.connections[i]? = some k → tasks[i]? = some (st, q) →
      ∃ begun, k.commands = begun ++ q ∧ Follows latches begun q st
  expected : ∀ (m : Nat) (l : Latch), latches[m]? = some l →
    l.remaining = tasks.countP fun t => .arrive m ∈ t.2

namespace Orderly

variable {script : Script} {tasks : List (Stance × List Command)}

theorem connection (h : Orderly script tasks latches) {i : Nat} {t : Stance × List Command}
    (ht : tasks[i]? = some t) : ∃ k, script.connections[i]? = some k ∧ k ∈ script.connections := by
  have hi : i < script.connections.length :=
    h.tasks_length ▸ (List.getElem?_eq_some_iff.mp ht).1
  exact ⟨_, getElem?_eq_getElem hi, getElem_mem hi⟩

/-- Latches that a task has yet to meet are there, and after them come later ones only. -/
theorem ahead (h : Orderly script tasks latches) (hlaid : script.Laid) {i : Nat}
    (ht : tasks[i]? = some (st, q)) :
    (marks q).Pairwise (· < ·) ∧ ∀ m ∈ marks q, m < latches.length := by
  obtain ⟨k, hk, hmem⟩ := h.connection ht
  obtain ⟨begun, hsplit, -⟩ := h.follows i k st q hk ht
  have hmarks : marks k.commands = marks begun ++ marks q := by rw [hsplit, marks_append]
  refine ⟨(pairwise_append.mp (hmarks ▸ hlaid.increasing k hmem)).2.1, fun m hm => ?_⟩
  rw [h.latches_length]
  exact hlaid.bounded k hmem m (hmarks ▸ mem_append_right _ hm)

/-- **Every arrival is expected.** -/
theorem arrival_expected (h : Orderly script tasks latches) (hlaid : script.Laid) {i m : Nat}
    (ht : tasks[i]? = some (st, .arrive m :: q)) : Awaited latches m := by
  have hm : m < latches.length :=
    (h.ahead hlaid ht).2 m (mem_marks.mpr (Or.inr mem_cons_self))
  refine ⟨_, getElem?_eq_getElem hm, ?_⟩
  rw [h.expected m _ (getElem?_eq_getElem hm), countP_pos_iff]
  exact ⟨_, mem_of_getElem? ht, by simp⟩

/-- After an arrival the queue does not come back to the latch. -/
theorem arrive_notMem (h : Orderly script tasks latches) (hlaid : script.Laid) {i m : Nat}
    (ht : tasks[i]? = some (st, .arrive m :: q)) : .arrive m ∉ q := by
  intro hmem
  have hlt := rel_of_pairwise_cons (h.ahead hlaid ht).1 (mem_marks.mpr (Or.inr hmem))
  exact Nat.lt_irrefl m hlt

end Orderly

/-- **A turn arrives as expected, or it changes neither latches nor arrivals.** -/
theorem Turn.arrives_or (h : Turn latches st q st' q' latches')
    (hawaited : ∀ m rest, q = .arrive m :: rest → Awaited latches m) :
    (∃ m l, q = .arrive m :: q' ∧ latches[m]? = some l ∧ 0 < l.remaining ∧
      latches' = latches.set m { l with remaining := l.remaining - 1 }) ∨
    (latches' = latches ∧ ∀ m, .arrive m ∈ q' ↔ .arrive m ∈ q) := by
  cases h with
  | @take c q hc =>
    refine Or.inr ⟨rfl, fun m => ⟨mem_cons_of_mem _, fun hmem => ?_⟩⟩
    refine (mem_cons.mp hmem).resolve_left ?_
    rintro rfl
    cases hc
  | wait => exact Or.inr ⟨rfl, fun m => by simp⟩
  | @arrive m _ l hl hpos => exact Or.inl ⟨m, l, rfl, hl, hpos, rfl⟩
  | stray hm =>
    obtain ⟨l, hl, -⟩ := hawaited _ _ rfl
    cases hm.symm.trans hl
  | refused hl hzero => exact absurd hzero ((hawaited _ _ rfl).ne_zero hl)
  | _ => exact Or.inr ⟨rfl, fun m => Iff.rfl⟩

/-- A change of one element that is counted as the other was. -/
theorem countP_set_of_eq {α : Type} {p : α → Bool} {l : List α} {i : Nat} {a b : α}
    (ha : l[i]? = some a) (hab : p b = p a) : (l.set i b).countP p = l.countP p := by
  obtain ⟨hi, rfl⟩ := List.getElem?_eq_some_iff.mp ha
  rw [countP_set hi, hab]
  split
  · have : 0 < l.countP p := countP_pos_iff.mpr ⟨_, getElem_mem hi, ‹_›⟩
    omega
  · rfl

/-- **Order is kept by every turn.** -/
theorem Orderly.turn {script : Script} {tasks : List (Stance × List Command)}
    (h : Orderly script tasks latches) (hlaid : script.Laid)
    (hends : ∀ k ∈ script.connections, EndsInDone k.commands)
    {i : Nat} (ht : tasks[i]? = some (st, q)) (hturn : Turn latches st q st' q' latches') :
    Orderly script (tasks.set i (st', q')) latches' := by
  have hawaited : ∀ m rest, q = .arrive m :: rest → Awaited latches m := by
    rintro m rest rfl
    exact h.arrival_expected hlaid ht
  have hi : i < tasks.length := (List.getElem?_eq_some_iff.mp ht).1
  refine ⟨(length_set).trans h.tasks_length, ?_, fun j k st₁ q₁ hk ht₁ => ?_,
    fun m l hl => ?_⟩
  · rcases hturn.arrives_or hawaited with ⟨m, l, -, -, -, rfl⟩ | ⟨rfl, -⟩
    · exact (length_set).trans h.latches_length
    · exact h.latches_length
  · by_cases hij : i = j
    · subst hij
      rw [getElem?_set_self hi] at ht₁
      cases ht₁
      obtain ⟨begun, hsplit, hfollows⟩ := h.follows i k st q hk ht
      have hend := hends k (mem_of_getElem? hk)
      rw [hsplit] at hend ⊢
      exact hfollows.turn hturn hend hawaited
    · rw [getElem?_set_ne hij] at ht₁
      obtain ⟨begun, hsplit, hfollows⟩ := h.follows j k st₁ q₁ hk ht₁
      exact ⟨begun, hsplit, hfollows.mono fun m => hturn.released⟩
  · rcases hturn.arrives_or hawaited with ⟨m', l', rfl, hl', hpos, rfl⟩ | ⟨rfl, hmem⟩
    · by_cases hm : m' = m
      · -- the latch arrived at: one arrival less, and one queue less that has it
        subst hm
        have hlt : m' < latches.length := (List.getElem?_eq_some_iff.mp hl').1
        rw [getElem?_set_self hlt] at hl
        cases hl
        obtain ⟨hi', hget⟩ := List.getElem?_eq_some_iff.mp ht
        rw [countP_set hi', hget, ← h.expected m' l' hl']
        simp [h.arrive_notMem hlaid ht]
      · rw [getElem?_set_ne hm] at hl
        rw [h.expected m l hl]
        refine (countP_set_of_eq ht ?_).symm
        simp [Ne.symm hm]
    · rw [h.expected m l hl]
      refine (countP_set_of_eq ht ?_).symm
      simp [hmem m]

namespace Conversation

variable {σ : Type}

/-- A conversation begins in order. -/
theorem start_orderly {script : Script} (hlaid : script.Laid) (channel : ConnectionScript → σ) :
    Orderly script ((start script channel).tasks.map sketch) (start script channel).latches := by
  have htasks : (start script channel).tasks.map sketch
      = script.connections.map fun k => (Stance.idle, k.commands) := map_map
  rw [htasks]
  refine ⟨length_map _, rfl, fun i k st q hk ht => ?_, fun m l hl => ?_⟩
  · rw [getElem?_map, hk] at ht
    cases ht
    exact ⟨[], rfl, allReleased_nil _⟩
  · rw [countP_map]
    exact hlaid.expected m l hl

/-- **Order is kept by every move.** -/
theorem Moves.orderly {script : Script} (hlaid : script.Laid)
    (hends : ∀ k ∈ script.connections, EndsInDone k.commands)
    {v v' : Conversation σ} (hmove : v.Moves v')
    (h : Orderly script (v.tasks.map sketch) v.latches) :
    Orderly script (v'.tasks.map sketch) v'.latches := by
  rcases hmove.turn with ⟨htasks, hlatches⟩ | ⟨i, st, q, st', q', ht, htasks, hturn⟩
  · rw [htasks, hlatches]
    exact h
  · rw [htasks]
    exact h.turn hlaid hends ht hturn

/-- **A conversation stays in order**, whatever the order of its moves. -/
theorem reaches_orderly {text : List Char} {script : Script} (hread : Script.read text = .ok script)
    {channel : ConnectionScript → σ} {v : Conversation σ} (hv : (start script channel).Reaches v) :
    Orderly script (v.tasks.map sketch) v.latches := by
  induction hv with
  | refl => exact start_orderly (Script.read_laid hread) channel
  | tail _ hmove ih => exact hmove.orderly (Script.read_laid hread) (Script.read_ends hread) ih

end Conversation

end Judge
