import Judge.Proofs.Interleaving

/-!
# Proofs/Solo — a connection by itself

The other connections of a conversation reach a task through its latches only.  `Task.pass` is the
step of a task whose latches give way, and as long as its arrivals are expected every step of a task
is that one (`advance_pass`).  It is also the step of the task that has the commands for latches
left out, or it is invisible there (`pass_unheld`).  Both are functions of the task, so what a
connection says and what it comes to are settled before the conversation begins.
-/

namespace Judge

/-! ## Leaving out the latches -/

/-- The commands of a queue that no latch holds. -/
def unheld (queue : List Command) : List Command := queue.filter fun c => c.latch?.isNone

/-- The connection with its commands for latches left out. -/
def ConnectionScript.unheld (k : ConnectionScript) : ConnectionScript :=
  { k with commands := Judge.unheld k.commands }

/-- The phase of a task that no latch holds. -/
def Phase.unheld : Phase → Phase
  | .blocked _ => .idle
  | phase => phase

/-- Where a task is that has come to a result. -/
def Phase.result : Except InteractError Unit → Phase
  | .ok () => .finished
  | .error e => .failed e

theorem Phase.result_injective {r₁ r₂ : Except InteractError Unit}
    (h : Phase.result r₁ = .result r₂) : r₁ = r₂ := by
  cases r₁ <;> cases r₂ <;> simp_all [Phase.result]

theorem unheld_cons_plain {c : Command} (hc : c.latch? = none) (queue : List Command) :
    unheld (c :: queue) = c :: unheld queue := by
  simp [unheld, hc]

theorem unheld_cons_latch {c : Command} {m : Nat} (hc : c.latch? = some m) (queue : List Command) :
    unheld (c :: queue) = unheld queue := by
  simp [unheld, hc]

namespace Task

variable {σ : Type} {ch : Channel σ} {latches : List Latch} {t : Task σ} {a : Advance σ}

/-- The task with its commands for latches left out. -/
def unheld (t : Task σ) : Task σ :=
  { t with queue := Judge.unheld t.queue, phase := t.phase.unheld }

/-! ## Steps without latches -/

/-- **A step of a task whose latches give way**: it is never blocked, and its arrivals are always
expected. -/
def pass (ch : Channel σ) (t : Task σ) : Option (Advance σ) :=
  match t.phase with
  | .blocked _ => some ⟨{ t with phase := .idle }, [], []⟩
  | _ => t.advance ch []

/-- **Every step of a task is the one that it takes by itself**, as long as its arrivals are
expected. -/
theorem advance_pass (hexpected : t.Expected latches) (h : t.advance ch latches = some a) :
    t.pass ch = some { a with latches := [] } := by
  cases advance_onward hexpected h with
  | hold hp hq hc =>
    simp only [pass, advance, hp, hq]
    cases hc <;> rfl
  | reach hp hq hc hopen huses | take hp hq hc hopen =>
    simpa [pass, advance, hp, hq, begin_plain hc] using h
  | finish hp hq => simp [pass, advance, hp, hq]
  | release hp hl hzero => simp [pass, hp]
  | connect hp hs | refuse hp hs => simp [pass, advance, hp, hs]
  | proceed hp | operate hp | conclude hp => simp [pass, advance, hp]

/-- A step without latches is one that the others may let the task take. -/
theorem onward_of_pass (h : t.pass ch = some a) :
    ∃ latches latches', Onward ch latches t ⟨a.task, latches', a.log⟩ := by
  unfold pass at h
  split at h
  · rename_i m hp
    cases h
    exact ⟨List.replicate (m + 1) ⟨m, 0⟩, _, .release hp (l := ⟨m, 0⟩) (by simp) rfl⟩
  · rcases advance_cases h with honward | ⟨-, -, hl, -⟩
    · exact ⟨[], a.latches, honward⟩
    · cases hl

theorem conclude_unheld (t : Task σ) (c : Command) (failure : Option InteractError) :
    conclude t.unheld c failure = (conclude t c failure).unheld := by
  cases failure with
  | some e => rfl
  | none => by_cases hc : c = .done <;> simp [conclude, unheld, Phase.unheld, hc]

/-- **A step without latches is one of the task with its commands for latches left out**, or is not
seen there. -/
theorem pass_unheld (h : t.pass ch = some a) :
    a.task.unheld = t.unheld ∨
      t.unheld.advance ch [] = some { a with task := a.task.unheld, latches := [] } := by
  obtain ⟨task, after, log⟩ := a
  obtain ⟨latches, latches', honward⟩ := onward_of_pass h
  cases honward with
  | finish hp hq => exact .inr (by simp [advance, unheld, Judge.unheld, Phase.unheld, hp, hq])
  | hold hp hq hc => exact .inl (by simp [unheld, Phase.unheld, hp, hq, unheld_cons_latch hc.latch?])
  | reach hp hq hc hopen huses =>
    refine .inr ?_
    simp [advance, unheld, Phase.unheld, hp, hq, unheld_cons_plain hc, begin_plain hc, hopen]
    exact huses
  | @take c q hp hq hc hopen =>
    have hclosed : t.opened = false → t.usesSocket c = false := by grind
    refine .inr ?_
    simp [advance, unheld, Phase.unheld, hp, hq, unheld_cons_plain hc, begin_plain hc]
    exact hclosed
  | release hp hl hzero => exact .inl (by simp [unheld, Phase.unheld, hp])
  | connect hp hs => exact .inr (by simp [advance, unheld, Phase.unheld, hp, hs])
  | refuse hp hs =>
    exact .inr (by simp [advance, unheld, Phase.unheld, hp, hs, transportError, describe])
  | proceed hp => exact .inr (by simp [advance, unheld, Phase.unheld, hp])
  | @operate c hp =>
    obtain ⟨outcome, s, w, r, hoperate⟩ := operate_eq ch t c
    have hself : operate ch t c
        = (outcome, { t with channel := s, writerClosed := w, readerClosed := r }) :=
      hoperate t.queue t.phase
    have hunheld : operate ch t.unheld c
        = (outcome, { t.unheld with channel := s, writerClosed := w, readerClosed := r }) :=
      hoperate (Judge.unheld t.queue) t.phase.unheld
    have hphase : t.unheld.phase = .operating c := by simp [unheld, Phase.unheld, hp]
    refine .inr ?_
    simp only [advance, hphase, hself, hunheld]
    rfl
  | @conclude c outcome hp =>
    have hphase : t.unheld.phase = .concluding c outcome := by simp [unheld, Phase.unheld, hp]
    have hjudge : judge t.unheld c outcome = judge t c outcome := rfl
    refine .inr ?_
    simp only [advance, hphase, hjudge, conclude_unheld]
    rfl

/-! ## Runs -/

variable {silent : Command → σ → Prop}

/-- **The peer keeps the task waiting for ever**: the operation at hand is one that does not come
back in this state of the channel. -/
def Silent (silent : Command → σ → Prop) (t : Task σ) : Prop :=
  match t.phase with
  | .opening _ => silent .connect t.channel
  | .operating c => silent c t.channel
  | _ => False

/-- A step of a task by itself, with what it has said. -/
inductive Passes (ch : Channel σ) (silent : Command → σ → Prop) :
    Task σ × List String → Task σ × List String → Prop
  | step {t : Task σ} {log : List String} {a : Advance σ} (hanswered : ¬ t.Silent silent)
      (h : t.pass ch = some a) : Passes ch silent (t, log) (a.task, log ++ a.log)

/-- A step of a task with no latches around. -/
inductive Strides (ch : Channel σ) (silent : Command → σ → Prop) : Task σ → Task σ → Prop
  | step {t : Task σ} {a : Advance σ} (hanswered : ¬ t.Silent silent)
      (h : t.advance ch [] = some a) : Strides ch silent t a.task

theorem passes_rightUnique (ch : Channel σ) (silent : Command → σ → Prop) :
    Relator.RightUnique (Passes ch silent) := by
  rintro x y z ⟨-, hy⟩ ⟨-, hz⟩
  rw [Option.some.inj (hy.symm.trans hz)]

theorem strides_rightUnique (ch : Channel σ) (silent : Command → σ → Prop) :
    Relator.RightUnique (Strides ch silent) := by
  rintro x y z ⟨-, hy⟩ ⟨-, hz⟩
  rw [Option.some.inj (hy.symm.trans hz)]

variable {r : Except InteractError Unit}

theorem phase_unheld_of_result (hp : t.phase = .result r) : t.unheld.phase = .result r := by
  cases r <;> simp [unheld, hp, Phase.result, Phase.unheld]

theorem not_passes_of_result {log : List String} (hp : t.phase = .result r)
    (x : Task σ × List String) : ¬ Passes ch silent (t, log) x := by
  rintro ⟨-, h⟩
  cases r <;> simp [pass, advance, hp, Phase.result] at h

theorem not_strides_of_result (hp : t.phase = .result r) (t' : Task σ) :
    ¬ Strides ch silent t t' := by
  rintro ⟨-, h⟩
  cases r <;> simp [advance, hp, Phase.result] at h

theorem silent_unheld : t.unheld.Silent silent ↔ t.Silent silent := by
  unfold Silent unheld
  cases t.phase <;> rfl

/-- **A run is one of the task with its commands for latches left out.** -/
theorem strides_of_passes {x y : Task σ × List String}
    (h : Relation.ReflTransGen (Passes ch silent) x y) :
    Relation.ReflTransGen (Strides ch silent) x.1.unheld y.1.unheld := by
  induction h with
  | refl => exact .refl
  | tail _ hstep ih =>
    obtain ⟨hanswered, hpass⟩ := hstep
    rcases pass_unheld hpass with heq | hadvance
    · rwa [heq]
    · exact ih.tail (.step (mt silent_unheld.mp hanswered) hadvance)

theorem name_of_passes {x y : Task σ × List String}
    (h : Relation.ReflTransGen (Passes ch silent) x y) : y.1.name = x.1.name := by
  induction h with
  | refl => rfl
  | tail _ hstep ih =>
    obtain ⟨-, hpass⟩ := hstep
    obtain ⟨_, _, honward⟩ := onward_of_pass hpass
    exact honward.nearer.1.trans ih

end Task

/-- Where nothing leads on, a run whose steps are settled comes to one end only. -/
theorem eq_of_runs {α : Type} {step : α → α → Prop} (hunique : Relator.RightUnique step) {a b c : α}
    (hb : Relation.ReflTransGen step a b) (hc : Relation.ReflTransGen step a c)
    (hbEnd : ∀ d, ¬ step b d) (hcEnd : ∀ d, ¬ step c d) : b = c := by
  rcases Relation.ReflTransGen.total_of_right_unique hunique hb hc with h | h
  · rcases Relation.ReflTransGen.cases_head h with heq | ⟨d, hstep, -⟩
    · exact heq
    · exact absurd hstep (hbEnd d)
  · rcases Relation.ReflTransGen.cases_head h with heq | ⟨d, hstep, -⟩
    · exact heq.symm
    · exact absurd hstep (hcEnd d)

/-- **What a connection comes to by itself**, with its commands for latches left out, on a channel
that begins in the state `s`. -/
def ConnectionScript.Alone {σ : Type} (ch : Channel σ) (silent : Command → σ → Prop)
    (k : ConnectionScript) (s : σ) (r : Except InteractError Unit) : Prop :=
  ∃ t, Relation.ReflTransGen (Task.Strides ch silent) (Task.start k.unheld s) t ∧
    t.phase = .result r

namespace ConnectionScript

variable {σ : Type} {ch : Channel σ} {silent : Command → σ → Prop} {k : ConnectionScript} {s : σ}

/-- A connection comes to one result only. -/
theorem Alone.unique {r₁ r₂ : Except InteractError Unit} (h₁ : k.Alone ch silent s r₁)
    (h₂ : k.Alone ch silent s r₂) : r₁ = r₂ := by
  obtain ⟨t₁, hrun₁, hp₁⟩ := h₁
  obtain ⟨t₂, hrun₂, hp₂⟩ := h₂
  obtain rfl := eq_of_runs (Task.strides_rightUnique ch silent) hrun₁ hrun₂
    (Task.not_strides_of_result hp₁) (Task.not_strides_of_result hp₂)
  exact Phase.result_injective (hp₁.symm.trans hp₂)

/-- A connection that comes to a result is never kept waiting for ever. -/
theorem Alone.not_silent (h : k.Alone ch silent s r) {t : Task σ}
    (hrun : Relation.ReflTransGen (Task.Strides ch silent) (Task.start k.unheld s) t) :
    ¬ t.Silent silent := by
  intro hsilent
  obtain ⟨t', hrun', hp⟩ := h
  have hstuck : ∀ d, ¬ Task.Strides ch silent t d := by
    rintro d ⟨hanswered, -⟩
    exact hanswered hsilent
  obtain rfl := eq_of_runs (Task.strides_rightUnique ch silent) hrun hrun' hstuck
    (Task.not_strides_of_result hp)
  cases r <;> simp [Task.Silent, hp, Phase.result] at hsilent

end ConnectionScript

end Judge
