import Judge.Proofs.Interleaving

/-!
# Proofs/Barriers — what barriers do to every order of moves

Two theorems about the conversation of a script, in every state that it can reach:

* `barrier_orders_commands` — a command after a barrier is not taken up before a command in front
  of the barrier is over, whichever connections they belong to;
* `barriers_never_block` — no arrival is refused, and as long as nobody has failed, someone who is
  not at the end can go on.

Both are read off `Orderly`.  That a connection which joins late waits for the latest barrier alone
is enough: everyone known before arrives there too, after all older ones.
-/

namespace Judge

open List

variable {σ : Type}

/-! ## How far a connection has come -/

/-- The number of commands of its script that a task has taken up. -/
def Task.begun (k : ConnectionScript) (t : Task σ) : Nat := k.commands.length - t.queue.length

/-- The number of commands of its script that a task has behind it. -/
def Task.behind (k : ConnectionScript) (t : Task σ) : Nat :=
  match t.phase with
  | .idle | .finished => t.begun k
  | _ => t.begun k - 1

namespace Conversation

/-- **The command at a place was taken up.** -/
def Started (script : Script) (v : Conversation σ) (p : Script.Place) : Prop :=
  ∃ k t, script.connections[p.connection]? = some k ∧ v.tasks[p.connection]? = some t ∧
    p.position < t.begun k

/-- **The command at a place is over**, and it did not fail. -/
def Completed (script : Script) (v : Conversation σ) (p : Script.Place) : Prop :=
  ∃ k t, script.connections[p.connection]? = some k ∧ v.tasks[p.connection]? = some t ∧
    p.position < t.behind k

end Conversation

theorem Task.pred_begun_le_behind (k : ConnectionScript) (t : Task σ) :
    t.begun k - 1 ≤ t.behind k := by
  unfold Task.behind
  split <;> omega

/-- All but the last command that a task has taken up has passed its latch. -/
theorem Follows.released_of_lt {latches : List Latch} {begun q : List Command} {st : Stance}
    (h : Follows latches begun q st) {p m : Nat} {c : Command} (hp : p + 1 < begun.length)
    (hc : begun[p]? = some c) (hm : c.latch? = some m) : Released latches m := by
  have hfront : ∀ {b : List Command} {d : Command}, AllReleased latches b → begun = b ++ [d] →
      Released latches m := by
    rintro b d hb rfl
    have hlt : p < b.length := by simpa using hp
    rw [getElem?_append_left hlt] at hc
    exact hb m (mem_filterMap.mpr ⟨c, mem_of_getElem? hc, hm⟩)
  have hall : AllReleased latches begun → Released latches m := fun hb =>
    hb m (mem_filterMap.mpr ⟨c, mem_of_getElem? hc, hm⟩)
  cases st with
  | idle => exact hall h
  | inside d =>
    obtain ⟨b, hb, -, hr⟩ := h
    exact hfront hr hb
  | held k =>
    obtain ⟨b, d, hb, -, hr⟩ := h
    exact hfront hr hb
  | finished => exact hall h.1
  | failed e =>
    obtain ⟨⟨b, d, hb, hr⟩, -⟩ := h
    exact hfront hr hb

namespace Orderly

variable {script : Script} {v : Conversation σ}

section

variable (h : Orderly script (v.tasks.map Conversation.sketch) v.latches)

include h

theorem task_follows {i : Nat}
    {k : ConnectionScript} {t : Task σ} (hk : script.connections[i]? = some k)
    (ht : v.tasks[i]? = some t) :
    ∃ begun, k.commands = begun ++ t.queue ∧ begun.length = t.begun k ∧
      Follows v.latches begun t.queue t.phase.stance := by
  obtain ⟨begun, hsplit, hfollows⟩ := h.follows i k t.phase.stance t.queue hk (by
    rw [getElem?_map, ht]
    rfl)
  refine ⟨begun, hsplit, ?_, hfollows⟩
  rw [Task.begun, hsplit, length_append, Nat.add_sub_cancel]

/-- **Past a latch, the latch is released.** -/
theorem released_of_started
    {p : Script.Place} (hstarted : v.Started script p) {q m : Nat} (hq : q < p.position)
    {c : Command} (hc : script.at? ⟨p.connection, q⟩ = some c) (hm : c.latch? = some m) :
    Released v.latches m := by
  obtain ⟨k, t, hk, ht, hlt⟩ := hstarted
  obtain ⟨begun, hsplit, hlength, hfollows⟩ := h.task_follows hk ht
  have hget : begun[q]? = some c := by
    have hget : k.commands[q]? = some c := by simpa [Script.at?, hk] using hc
    rwa [hsplit, getElem?_append_left (by omega)] at hget
  exact hfollows.released_of_lt (by omega) hget hm

/-- **At a released latch everyone has arrived**, with all that stands before the arrival behind
them. -/
theorem completed_of_released {p : Script.Place} {q m : Nat} (hq : p.position < q)
    (hc : script.at? ⟨p.connection, q⟩ = some (.arrive m)) (hm : Released v.latches m) :
    v.Completed script p := by
  obtain ⟨k, hk, hget⟩ := Option.bind_eq_some_iff.mp hc
  dsimp only at hk hget
  have hi : p.connection < v.tasks.length := by
    have := (List.getElem?_eq_some_iff.mp hk).1
    rwa [← h.tasks_length, length_map] at this
  obtain ⟨t, ht⟩ : ∃ t, v.tasks[p.connection]? = some t := ⟨_, getElem?_eq_getElem hi⟩
  obtain ⟨begun, hsplit, hlength, -⟩ := h.task_follows hk ht
  have hqb : q < begun.length := by
    by_contra hle
    -- then the arrival is still ahead, and the latch expects it
    obtain ⟨l, hl, hzero⟩ := hm
    have hcount := h.expected m l hl
    rw [hzero, eq_comm, countP_eq_zero] at hcount
    rw [hsplit, getElem?_append_right (by omega)] at hget
    refine hcount (Conversation.sketch t) (mem_map_of_mem (mem_of_getElem? ht)) ?_
    simpa using mem_of_getElem? hget
  refine ⟨k, t, hk, ht, ?_⟩
  have := t.pred_begun_le_behind k
  omega

end

end Orderly

namespace Conversation

/-- **A barrier orders the whole script.**  Of a line before a barrier and a line after it, the
later command is not taken up before the earlier one is over, in any order of moves. -/
theorem barrier_orders_commands {text : List Char} {script : Script}
    (hread : Script.read text = .ok script) (channel : ConnectionScript → σ)
    {v : Conversation σ} (hv : (start script channel).Reaches v) {a b c : Nat} (hab : a < b)
    (hbc : b < c) (hb : Script.isBarrier text b = true) {earlier later : Script.Place}
    (ha : Script.placeOf? text a = some earlier) (hc : Script.placeOf? text c = some later)
    (hstarted : v.Started script later) : v.Completed script earlier := by
  have horder := reaches_orderly hread hv
  have hlt := Script.barriersBefore_lt hab hbc hb
  obtain ⟨m, hm⟩ : ∃ m, Script.barriersBefore text c = m + 1 :=
    Nat.exists_eq_add_one.mpr (Nat.lt_of_le_of_lt (Nat.zero_le _) hlt)
  -- the latest barrier before the later line is passed …
  have hreleased : Released v.latches m := by
    obtain ⟨q, hq, hwait | harrive⟩ := Script.mark_before hread hc hm
    · exact horder.released_of_started hstarted hq hwait rfl
    · exact horder.released_of_started hstarted hq harrive rfl
  -- … and the connection of the earlier line has arrived at it
  have hmlt : m < script.latches.length := by
    have := Script.barriersBefore_le hread c
    omega
  obtain ⟨q, hq, harrive⟩ := Script.arrive_after hread ha (by omega) hmlt
  exact horder.completed_of_released hq harrive hreleased

/-! A script in which one connection joins after three barriers: the first of them is nobody's, and
the connection waits for the last alone. -/

def lateText : List Char :=
  "=\na type tcp\na conn\n=\nb type unix\n=\nc type tcp\nc conn\n".toList

/-- What is read from it. -/
def lateScript : Script where
  connections :=
    [⟨"a", .tcp, [.wait 0, .connect, .arrive 1, .arrive 2, .done]⟩,
     ⟨"b", .unix, [.wait 1, .arrive 2, .done]⟩,
     ⟨"c", .tcp, [.wait 2, .connect, .done]⟩]
  latches := [⟨0, 0⟩, ⟨1, 1⟩, ⟨2, 2⟩]

theorem read_lateText : Script.read lateText = .ok lateScript := by decide +kernel

/-- A channel on which all goes well and nothing is said. -/
def quietChannel : Channel Unit where
  connect _ s := (.ok (), s)
  write _ s := (.ok (), s)
  read _ s := (.ok [], s)
  stopWrite s := (.ok (), s)
  stopRead s := (.ok (), s)
  pause _ s := s
  clock _ := 0
  waitUntil _ s := s

/-- The conversation of the script after some steps of a single thread. -/
def lateAfter (steps : Nat) : Conversation Unit :=
  (runFrom quietChannel steps 0 [0, 1, 2] (start lateScript fun _ => ())).2

/-- The late connection connects, so the first one has. -/
theorem late_connection_ordered :
    (lateAfter 16).Started lateScript ⟨2, 1⟩ ∧ (lateAfter 16).Completed lateScript ⟨0, 1⟩ := by
  have hstarted : (lateAfter 16).Started lateScript ⟨2, 1⟩ := by
    have hqueue : ((lateAfter 16).tasks[2]?).map (fun t => t.queue.length) = some 1 := by
      decide +kernel
    obtain ⟨t, ht, hlength⟩ := Option.map_eq_some_iff.mp hqueue
    exact ⟨_, t, rfl, ht, by rw [Task.begun, hlength]; decide⟩
  exact ⟨hstarted, barrier_orders_commands read_lateText _ (reaches_runFrom _ _ _ _ _)
    (a := 2) (b := 3) (c := 7) (by decide) (by decide) (by decide +kernel) (by decide +kernel)
    (by decide +kernel) hstarted⟩

/-! ## Nobody is held for ever -/

/-- A task that stands still although it is neither failed nor at its end is held by a latch that is
not released. -/
theorem held_of_not_ready {latches : List Latch} {t : Task σ} (h : t.ready latches = false)
    (hfailed : t.failure? = none) (hfinished : t.isFinished = false) :
    ∃ m, t.phase.stance = .held m ∧ ¬ Released latches m := by
  unfold Task.ready at h
  cases hp : t.phase with
  | blocked m =>
    refine ⟨m, rfl, ?_⟩
    rintro ⟨l, hl, hzero⟩
    rw [hp] at h
    simp [hl, Latch.released, hzero] at h
  | finished => simp [Task.isFinished, hp] at hfinished
  | failed e => simp [Task.failure?, hp] at hfailed
  | _ =>
    rw [hp] at h
    cases h

/-- What a task has taken up and what it has ahead make up its script. -/
theorem mem_follows {script : Script} {v : Conversation σ}
    (h : Orderly script (v.tasks.map sketch) v.latches) {t : Task σ} (ht : t ∈ v.tasks) :
    ∃ k ∈ script.connections, ∃ begun, k.commands = begun ++ t.queue ∧
      Follows v.latches begun t.queue t.phase.stance := by
  obtain ⟨i, hi, rfl⟩ := getElem_of_mem ht
  have hget := getElem?_eq_getElem hi
  obtain ⟨k, hk, hmem⟩ := h.connection (t := sketch v.tasks[i]) (by
    rw [getElem?_map, hget]
    rfl)
  obtain ⟨begun, hsplit, -, hfollows⟩ := h.task_follows hk hget
  exact ⟨k, hmem, begun, hsplit, hfollows⟩

/-- **Who is held is held by a latch that is there, and by an earlier one than any ahead.** -/
theorem held_lt {script : Script} {v : Conversation σ}
    (h : Orderly script (v.tasks.map sketch) v.latches) (hlaid : script.Laid) {t : Task σ}
    (ht : t ∈ v.tasks) {m : Nat} (hheld : t.phase.stance = .held m) :
    m < v.latches.length ∧ ∀ m' ∈ marks t.queue, m < m' := by
  obtain ⟨k, hk, begun, hsplit, hfollows⟩ := mem_follows h ht
  rw [hheld] at hfollows
  obtain ⟨b, c, rfl, hc, -⟩ := hfollows
  have hmarks : marks k.commands = marks (b ++ [c]) ++ marks t.queue := by
    rw [hsplit, marks_append]
  have hm : m ∈ marks (b ++ [c]) := mem_filterMap.mpr ⟨c, by simp, hc⟩
  refine ⟨?_, (pairwise_append.mp (hmarks ▸ hlaid.increasing k hk)).2.2 m hm⟩
  rw [h.latches_length]
  exact hlaid.bounded k hk m (hmarks ▸ mem_append_left _ hm)

/-- **Nobody is held when everyone who can has gone on.**  By induction on the latch: who keeps it
closed has it ahead, and is held by an earlier one. -/
theorem not_held {script : Script} {v : Conversation σ}
    (h : Orderly script (v.tasks.map sketch) v.latches) (hlaid : script.Laid)
    (hfailed : ∀ t ∈ v.tasks, t.failure? = none) (hstuck : ∀ t ∈ v.tasks, t.ready v.latches = false)
    (m : Nat) : ∀ t ∈ v.tasks, t.phase.stance = .held m → Released v.latches m := by
  induction m using Nat.strongRecOn with
  | ind m ih =>
    intro t ht hheld
    obtain ⟨hm, -⟩ := held_lt h hlaid ht hheld
    have hl : v.latches[m]? = some v.latches[m] := getElem?_eq_getElem hm
    refine ⟨_, hl, ?_⟩
    by_contra hpos
    rw [h.expected m _ hl] at hpos
    obtain ⟨s, hs, hahead⟩ := countP_pos_iff.mp (Nat.pos_of_ne_zero hpos)
    obtain ⟨t', ht', rfl⟩ := mem_map.mp hs
    have hahead : .arrive m ∈ t'.queue := by simpa using hahead
    cases hf : t'.isFinished with
    | true =>
      have hst : t'.phase.stance = .finished := by
        unfold Task.isFinished at hf
        split at hf
        · rename_i hp
          rw [hp]
          rfl
        · cases hf
      obtain ⟨k, -, begun, -, hfollows⟩ := mem_follows h ht'
      rw [hst] at hfollows
      rw [hfollows.2] at hahead
      cases hahead
    | false =>
      obtain ⟨m', hheld', hclosed⟩ := held_of_not_ready (hstuck t' ht') (hfailed t' ht') hf
      have hlt := (held_lt h hlaid ht' hheld').2 m (mem_marks.mpr (Or.inr hahead))
      exact hclosed (ih m' hlt t' ht' hheld')

/-- **Barriers never block a conversation.**  In every state that the conversation of a script can
reach, no arrival was refused, every latch expects exactly those who have yet to arrive, and if
nobody has failed and someone is not at the end, then someone can take a step. -/
theorem barriers_never_block {text : List Char} {script : Script}
    (hread : Script.read text = .ok script) (channel : ConnectionScript → σ)
    {v : Conversation σ} (hv : (start script channel).Reaches v) :
    (∀ t ∈ v.tasks, ∀ message, t.phase ≠ .failed (.crash message)) ∧
    (∀ (m : Nat) (l : Latch), v.latches[m]? = some l →
      l.remaining = v.tasks.countP fun t => .arrive m ∈ t.queue) ∧
    ((∀ t ∈ v.tasks, t.failure? = none) → (∃ t ∈ v.tasks, t.isFinished = false) →
      ∀ ch : Channel σ, ∃ index, (v.step? ch index).isSome = true) := by
  have horder := reaches_orderly hread hv
  have hlaid := Script.read_laid hread
  refine ⟨fun t ht message hp => ?_, fun m l hl => ?_, fun hfailed hunfinished ch => ?_⟩
  · obtain ⟨k, -, begun, -, hfollows⟩ := mem_follows horder ht
    rw [hp] at hfollows
    exact hfollows.2 message rfl
  · rw [horder.expected m l hl, List.countP_map]
    rfl
  · by_contra hnone
    push Not at hnone
    have hstuck : ∀ t ∈ v.tasks, t.ready v.latches = false := by
      intro t ht
      obtain ⟨i, hi, rfl⟩ := List.getElem_of_mem ht
      rw [← Task.isSome_advance ch]
      simpa [step?, List.getElem?_eq_getElem hi] using hnone i
    obtain ⟨t, ht, hf⟩ := hunfinished
    obtain ⟨m, hheld, hclosed⟩ := held_of_not_ready (hstuck t ht) (hfailed t ht) hf
    exact hclosed (not_held horder hlaid hfailed hstuck m t ht hheld)

/-- With two connections held by latches, the first can go on. -/
theorem late_connection_not_blocked :
    (∀ t ∈ (lateAfter 4).tasks, t.failure? = none) ∧
    (∃ t ∈ (lateAfter 4).tasks, t.isFinished = false) ∧
    ∃ index, ((lateAfter 4).step? quietChannel index).isSome = true := by
  have hfailed : ∀ t ∈ (lateAfter 4).tasks, t.failure? = none := by decide +kernel
  have hunfinished : ∃ t ∈ (lateAfter 4).tasks, t.isFinished = false := by decide +kernel
  exact ⟨hfailed, hunfinished, (barriers_never_block read_lateText _
    (reaches_runFrom _ _ _ _ _)).2.2 hfailed hunfinished quietChannel⟩

end Conversation

end Judge
