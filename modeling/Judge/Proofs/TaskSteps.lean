import Judge.Conversation.Connection
import Judge.Proofs.ScriptLayout

/-!
# Proofs/TaskSteps — what a step of a connection does

A step of a task is taken apart once.  `Task.Onward` lists the ways it can go, with the task, the
latches and the lines of the log after it; the one way beside them is an arrival that nobody expects
(`advance_cases`).  Every step brings the end nearer (`advance_nearer`), and a task that is not at
its end can take one if the others let it (`exists_advance`).
-/

namespace Judge.Task

variable {σ : Type} {ch : Channel σ} {latches : List Latch} {t : Task σ} {a : Advance σ}

/-! ## What an operation sees -/

/-- Closing the writing side sees the socket of a task, and changes nothing else. -/
theorem closeWriter_eq (ch : Channel σ) (t : Task σ) :
    ∃ outcome s w, ∀ (queue : List Command) (phase : Phase),
      closeWriter ch { t with queue, phase } =
        (outcome, { t with queue, phase, channel := s, writerClosed := w }) := by
  cases hw : t.writerClosed with
  | true => exact ⟨.ok (), t.channel, true, fun queue phase => by simp [closeWriter]⟩
  | false =>
    rcases hs : ch.stopWrite t.channel with ⟨e | u, s⟩
    · exact ⟨.error e, s, false, fun queue phase => by simp [closeWriter, hs]⟩
    · exact ⟨.ok (), s, true, fun queue phase => by simp [closeWriter, hs]⟩

theorem closeReader_eq (ch : Channel σ) (t : Task σ) :
    ∃ outcome s r, ∀ (queue : List Command) (phase : Phase),
      closeReader ch { t with queue, phase } =
        (outcome, { t with queue, phase, channel := s, readerClosed := r }) := by
  cases hr : t.readerClosed with
  | true => exact ⟨.ok (), t.channel, true, fun queue phase => by simp [closeReader]⟩
  | false =>
    rcases hs : ch.stopRead t.channel with ⟨e | u, s⟩
    · exact ⟨.error e, s, false, fun queue phase => by simp [closeReader, hs]⟩
    · exact ⟨.ok (), s, true, fun queue phase => by simp [closeReader, hs]⟩

/-- **An operation sees the socket of a task, and changes nothing else.** -/
theorem operate_eq (ch : Channel σ) (t : Task σ) (c : Command) :
    ∃ outcome s w r, ∀ (queue : List Command) (phase : Phase),
      operate ch { t with queue, phase } c =
        (outcome, { t with queue, phase, channel := s, writerClosed := w,
                           readerClosed := r }) := by
  cases c with
  | sleep span => exact ⟨_, ch.pause span t.channel, _, _, fun _ _ => rfl⟩
  | wait m | arrive m | connect => exact ⟨_, t.channel, _, _, fun _ _ => rfl⟩
  | send data =>
    by_cases hskip : (t.writerClosed || data.isEmpty) = true
    · exact ⟨_, t.channel, _, _, fun _ _ => if_pos hskip⟩
    · rcases hs : ch.write data t.channel with ⟨e | u, s⟩
      · refine ⟨.error e, s, t.writerClosed, t.readerClosed, fun queue phase => ?_⟩
        simp only [operate, if_neg hskip, hs]
      · refine ⟨.ok [], s, t.writerClosed, t.readerClosed, fun queue phase => ?_⟩
        simp only [operate, if_neg hskip, hs]
  | recv expected =>
    by_cases hskip : t.readerClosed = true
    · exact ⟨_, t.channel, _, _, fun _ _ => if_pos hskip⟩
    · refine ⟨(ch.readAll expected.length [] expected.length t.channel).1,
        (ch.readAll expected.length [] expected.length t.channel).2, t.writerClosed,
        t.readerClosed, fun queue phase => ?_⟩
      simp only [operate, if_neg hskip]
  | stopWrite =>
    obtain ⟨outcome, s, w, h⟩ := closeWriter_eq ch t
    refine ⟨outcome.map fun _ => [], s, w, t.readerClosed, fun queue phase => ?_⟩
    simp only [operate, h]
  | stopRead =>
    obtain ⟨outcome, s, r, h⟩ := closeReader_eq ch t
    refine ⟨outcome.map fun _ => [], s, t.writerClosed, r, fun queue phase => ?_⟩
    simp only [operate, h]
  | done =>
    obtain ⟨outcome, s, w, h⟩ := closeWriter_eq ch t
    rcases outcome with e | u
    · refine ⟨.error e, s, w, t.readerClosed, fun queue phase => ?_⟩
      simp only [operate, h]
    · by_cases hskip : t.readerClosed = true
      · refine ⟨.ok [], s, w, t.readerClosed, fun queue phase => ?_⟩
        simp only [operate, h, if_pos hskip]
      · refine ⟨(ch.read tailProbe s).1, (ch.read tailProbe s).2, w, t.readerClosed,
          fun queue phase => ?_⟩
        simp only [operate, h, if_neg hskip]

@[simp] theorem operate_queue (ch : Channel σ) (t : Task σ) (c : Command) :
    (t.operate ch c).2.queue = t.queue := by
  obtain ⟨outcome, s, w, r, hoperate⟩ := operate_eq ch t c
  exact congrArg (·.2.queue) (hoperate t.queue t.phase)

@[simp] theorem operate_name (ch : Channel σ) (t : Task σ) (c : Command) :
    (t.operate ch c).2.name = t.name := by
  obtain ⟨outcome, s, w, r, hoperate⟩ := operate_eq ch t c
  exact congrArg (·.2.name) (hoperate t.queue t.phase)

@[simp] theorem operate_transport (ch : Channel σ) (t : Task σ) (c : Command) :
    (t.operate ch c).2.transport = t.transport := by
  obtain ⟨outcome, s, w, r, hoperate⟩ := operate_eq ch t c
  exact congrArg (·.2.transport) (hoperate t.queue t.phase)

/-! ## The ways of a step -/

/-- What the latches become when a command for the latch `m` is begun and holds its task there. -/
inductive Holds (latches : List Latch) (m : Nat) : Command → List Latch → Prop
  | wait : Holds latches m (.wait m) latches
  | arrive {l : Latch} (hl : latches[m]? = some l) (hpos : 0 < l.remaining) :
      Holds latches m (.arrive m) (latches.set m { l with remaining := l.remaining - 1 })
  | stray (hm : latches[m]? = none) : Holds latches m (.arrive m) latches

theorem Holds.latch? {m : Nat} {c : Command} {latches' : List Latch}
    (h : Holds latches m c latches') : c.latch? = some m := by
  cases h <;> rfl

/-- **What a step does**, by the phase in which it is taken. -/
inductive Onward (ch : Channel σ) (latches : List Latch) (t : Task σ) : Advance σ → Prop
  | finish (hp : t.phase = .idle) (hq : t.queue = []) :
      Onward ch latches t ⟨{ t with phase := .finished }, latches, []⟩
  | hold {c : Command} {q : List Command} {m : Nat} {latches' : List Latch} (hp : t.phase = .idle)
      (hq : t.queue = c :: q) (hc : Holds latches m c latches') :
      Onward ch latches t
        ⟨{ t with queue := q, phase := .blocked m }, latches', ["method: " ++ c.text]⟩
  | reach {c : Command} {q : List Command} (hp : t.phase = .idle) (hq : t.queue = c :: q)
      (hc : c.latch? = none) (hopen : t.opened = false) (huses : t.usesSocket c = true) :
      Onward ch latches t
        ⟨{ t with queue := q, phase := .opening c }, latches, ["method: " ++ c.text]⟩
  | take {c : Command} {q : List Command} (hp : t.phase = .idle) (hq : t.queue = c :: q)
      (hc : c.latch? = none) (hopen : t.usesSocket c = true → t.opened = true) :
      Onward ch latches t
        ⟨{ t with queue := q, phase := .operating c }, latches, ["method: " ++ c.text]⟩
  | release {m : Nat} {l : Latch} (hp : t.phase = .blocked m) (hl : latches[m]? = some l)
      (hzero : l.remaining = 0) : Onward ch latches t ⟨{ t with phase := .idle }, latches, []⟩
  | connect {c : Command} {s : σ} (hp : t.phase = .opening c)
      (hs : ch.connect t.transport t.channel = (.ok (), s)) :
      Onward ch latches t ⟨{ t with channel := s, opened := true, phase := .opened c }, latches,
        ["starting connection"]⟩
  | refuse {c : Command} {e : IoError} {s : σ} (hp : t.phase = .opening c)
      (hs : ch.connect t.transport t.channel = (.error e, s)) :
      Onward ch latches t ⟨{ t with channel := s, phase := .failed (t.transportError e) }, latches,
        ["starting connection"]⟩
  | proceed {c : Command} (hp : t.phase = .opened c) :
      Onward ch latches t ⟨{ t with phase := .operating c }, latches, ["started connection"]⟩
  | operate {c : Command} (hp : t.phase = .operating c) :
      Onward ch latches t
        ⟨{ (t.operate ch c).2 with phase := .concluding c (t.operate ch c).1 }, latches, []⟩
  | conclude {c : Command} {outcome : Except IoError Bytes} (hp : t.phase = .concluding c outcome) :
      Onward ch latches t
        ⟨t.conclude c (t.judge c outcome).2, latches, (t.judge c outcome).1⟩

/-- A step that ends with an arrival that nobody expects. -/
inductive Refused (latches : List Latch) (t : Task σ) : Advance σ → Prop
  | crash {m : Nat} {q : List Command} {l : Latch} (hp : t.phase = .idle)
      (hq : t.queue = .arrive m :: q) (hl : latches[m]? = some l) (hzero : l.remaining = 0) :
      Refused latches t ⟨{ t with queue := q, phase := .failed (.crash l.unexpected) }, latches,
        ["method: " ++ (Command.arrive m).text]⟩

theorem begin_plain {c : Command} (hc : c.latch? = none) :
    begin latches t c =
      ⟨{ t with phase := if !t.opened && t.usesSocket c then .opening c else .operating c },
        latches, ["method: " ++ c.text]⟩ := by
  cases c <;> first | rfl | cases hc

theorem begin_cases {c : Command} {q : List Command} (hp : t.phase = .idle)
    (hq : t.queue = c :: q) :
    Onward ch latches t (begin latches { t with queue := q } c) ∨
      Refused latches t (begin latches { t with queue := q } c) := by
  cases hc : c.latch? with
  | none =>
    refine .inl ?_
    rw [begin_plain hc]
    split
    · rename_i huses
      obtain ⟨hopen, huses⟩ := Bool.and_eq_true_iff.mp huses
      exact .reach hp hq hc (by simpa using hopen) huses
    · rename_i hnot
      refine .take hp hq hc fun huses => ?_
      by_contra hopen
      exact hnot (Bool.and_eq_true_iff.mpr ⟨by simpa using hopen, huses⟩)
  | some m =>
    cases c with
    | wait m => exact .inl (.hold hp hq .wait)
    | arrive m =>
      cases hl : latches[m]? with
      | none =>
        simp only [begin, hl]
        exact .inl (.hold hp hq (.stray hl))
      | some l =>
        by_cases hzero : l.remaining = 0
        · simp only [begin, hl, Latch.arrive?, if_pos hzero]
          exact .inr (.crash hp hq hl hzero)
        · simp only [begin, hl, Latch.arrive?, if_neg hzero]
          exact .inl (.hold hp hq (.arrive hl (Nat.pos_of_ne_zero hzero)))
    | _ => cases hc

/-- **A step goes in one of these ways.** -/
theorem advance_cases (h : t.advance ch latches = some a) :
    Onward ch latches t a ∨ Refused latches t a := by
  cases hp : t.phase with
  | finished | failed e => simp [advance, hp] at h
  | blocked m =>
    simp only [advance, hp] at h
    split at h
    · rename_i l hl
      split at h
      · rename_i hreleased
        cases h
        exact .inl (.release hp hl (by simpa [Latch.released] using hreleased))
      · cases h
    · cases h
  | idle =>
    simp only [advance, hp] at h
    split at h
    · rename_i hq
      cases h
      exact .inl (.finish hp hq)
    · rename_i c q hq
      cases h
      exact begin_cases hp hq
  | opening c =>
    simp only [advance, hp] at h
    rcases hs : ch.connect t.transport t.channel with ⟨e | u, s⟩
    · simp only [hs] at h
      cases h
      exact .inl (.refuse hp hs)
    · simp only [hs] at h
      cases h
      exact .inl (.connect hp hs)
  | opened c =>
    simp only [advance, hp] at h
    cases h
    exact .inl (.proceed hp)
  | operating c =>
    simp only [advance, hp] at h
    cases h
    exact .inl (.operate hp)
  | concluding c outcome =>
    simp only [advance, hp] at h
    cases h
    exact .inl (.conclude hp)

/-- The latches expect the arrival that the task begins with, if it does. -/
def Expected (latches : List Latch) (t : Task σ) : Prop :=
  ∀ m q, t.phase = .idle → t.queue = .arrive m :: q → ∃ l, latches[m]? = some l ∧ 0 < l.remaining

/-- **Where arrivals are expected, no step is refused.** -/
theorem advance_onward (hexpected : t.Expected latches) (h : t.advance ch latches = some a) :
    Onward ch latches t a := by
  refine (advance_cases h).resolve_right ?_
  rintro ⟨hp, hq, hl, hzero⟩
  obtain ⟨l, hl', hpos⟩ := hexpected _ _ hp hq
  cases hl.symm.trans hl'
  omega

/-- **A task that is not at its end can go on**, once the others let it. -/
theorem exists_advance (ch : Channel σ) (hfinished : t.phase ≠ .finished)
    (hfailed : ∀ e, t.phase ≠ .failed e) :
    ∃ latches a, t.Expected latches ∧ t.advance ch latches = some a := by
  have hgo : ∀ latches, t.Expected latches → t.ready latches = true →
      ∃ latches a, t.Expected latches ∧ t.advance ch latches = some a := by
    intro latches hexpected hready
    rw [← isSome_advance ch] at hready
    obtain ⟨a, ha⟩ := Option.isSome_iff_exists.mp hready
    exact ⟨latches, a, hexpected, ha⟩
  cases hp : t.phase with
  | finished => exact absurd hp hfinished
  | failed e => exact absurd hp (hfailed e)
  | blocked m =>
    refine hgo (List.replicate (m + 1) ⟨m, 0⟩) (fun _ _ hidle => ?_) ?_
    · cases hp.symm.trans hidle
    · simp [ready, hp, Latch.released]
  | idle =>
    -- the latch that the task arrives at, if it does, expects one more
    refine hgo (List.replicate ((t.queue.head?.bind Command.latch?).getD 0 + 1) ⟨0, 1⟩) ?_
      (by simp [ready, hp])
    intro m q _ hq
    exact ⟨⟨0, 1⟩, by simp [hq, Command.latch?], Nat.one_pos⟩
  | _ =>
    refine hgo [] (fun _ _ hidle => ?_) (by simp [ready, hp])
    cases hp.symm.trans hidle

/-! ## The end comes nearer -/

/-- How far a phase is from the end of its command. -/
def rank : Phase → Nat
  | .opening _ => 5
  | .opened _ => 4
  | .operating _ => 3
  | .concluding _ _ | .blocked _ => 2
  | .idle => 1
  | .finished | .failed _ => 0

/-- How many steps a task has before it at most. -/
def stepsLeft (t : Task σ) : Nat := 6 * t.queue.length + rank t.phase

/-- **A step brings the end nearer**, and is one of the same connection. -/
theorem Onward.nearer (h : Onward ch latches t a) :
    a.task.name = t.name ∧ a.task.stepsLeft < t.stepsLeft := by
  cases h with
  | finish hp hq => exact ⟨rfl, by simp [stepsLeft, rank, hp]⟩
  | hold hp hq hc | reach hp hq hc hopen huses | take hp hq hc hopen =>
    exact ⟨rfl, by simp [stepsLeft, rank, hp, hq]; omega⟩
  | release hp hl hzero | connect hp hs | refuse hp hs | proceed hp =>
    exact ⟨rfl, by simp [stepsLeft, rank, hp]⟩
  | operate hp => exact ⟨operate_name ch t _, by simp [stepsLeft, rank, hp]⟩
  | conclude hp =>
    unfold Task.conclude
    split
    · exact ⟨rfl, by simp [stepsLeft, rank, hp]⟩
    · refine ⟨rfl, ?_⟩
      dsimp only [stepsLeft]
      split <;> simp [rank, hp]

theorem advance_nearer (h : t.advance ch latches = some a) :
    a.task.name = t.name ∧ a.task.stepsLeft < t.stepsLeft := by
  rcases advance_cases h with honward | ⟨hp, hq, -, -⟩
  · exact honward.nearer
  · refine ⟨rfl, ?_⟩
    simp only [stepsLeft, rank, hp, hq, List.length_cons]
    omega

end Judge.Task
