import Judge.Machine.Act

/-!
# Proofs/Traces — the calls that a program makes

`Program.Makes p T a` says that the program `p` can make the calls of the trace `T`, get the answers
that stand there, and end with the value `a`.  The answers are arbitrary, so what holds of every
trace holds whatever the files, the clock and the other processes do; a run under a handler is one
of them (`exists_makes`).  A trace is cut where the program is (`makes_bind`), so what is known of
the parts of a program is known of the parts of its trace.

`Act.Yields` is the same for a program of the judge that ends without an error.  For it there is one
lemma for each way in which such programs are put together.
-/

namespace Judge

variable {α β : Type}

/-- A call, and the answer that it got. -/
structure Event where
  call : Call
  reply : call.Reply

/-- **A call of a trace was answered** with `r`. -/
def Answered (T : List Event) (c : Call) (r : c.Reply) : Prop := ⟨c, r⟩ ∈ T

variable {T' : List Event} {p : Program α} {a : α}

theorem Answered.mono {T : List Event} {c : Call} {r : c.Reply} (ha : Answered T c r)
    (hsub : T ⊆ T') : Answered T' c r := hsub ha

/-! ## Programs -/

namespace Program

/-- **A program makes the calls of a trace** and ends with a value. -/
inductive Makes : Program α → List Event → α → Prop
  | done {a : α} : Makes (.done a) [] a
  | call {c : Call} {next : c.Reply → Program α} {T : List Event} {a : α} (r : c.Reply)
      (hnext : Makes (next r) T a) : Makes (.call c next) (⟨c, r⟩ :: T) a

variable {T : List Event}

/-- **Every run has a trace.** -/
theorem exists_makes_answered {σ : Type} {h : Handler σ} {s s' : σ}
    (hrun : p.run h s = some (a, s')) :
    ∃ T, Makes p T a ∧ ∀ e ∈ T, ∃ s s', h e.call s = some (e.reply, s') := by
  induction p generalizing s with
  | done b =>
    cases hrun
    exact ⟨[], .done, fun e he => absurd he List.not_mem_nil⟩
  | call c next ih =>
    obtain ⟨⟨r, s₁⟩, hanswer, hnext⟩ := Option.bind_eq_some_iff.mp hrun
    obtain ⟨T, hT, hanswered⟩ := ih r hnext
    exact ⟨_, .call r hT, List.forall_mem_cons.mpr ⟨⟨s, s₁, hanswer⟩, hanswered⟩⟩

theorem exists_makes {σ : Type} {h : Handler σ} {s s' : σ} (hrun : p.run h s = some (a, s')) :
    ∃ T, Makes p T a :=
  let ⟨T, hT, _⟩ := exists_makes_answered hrun
  ⟨T, hT⟩

variable {f : α → Program β}

/-- **The trace of two programs is cut between them.** -/
theorem makes_bind {b : β} (hm : Makes (p.bind f) T b) :
    ∃ T₁ a T₂, T = T₁ ++ T₂ ∧ Makes p T₁ a ∧ Makes (f a) T₂ b := by
  induction p generalizing T with
  | done a => exact ⟨[], a, T, rfl, .done, hm⟩
  | call c next ih =>
    cases hm with
    | call r hnext =>
      obtain ⟨T₁, a, T₂, rfl, h₁, h₂⟩ := ih _ hnext
      exact ⟨_, a, T₂, rfl, .call r h₁, h₂⟩

/-- The traces of two programs, one after the other. -/
theorem Makes.bind {b : β} (hp : Makes p T a) (hf : Makes (f a) T' b) :
    Makes (p.bind f) (T ++ T') b := by
  induction hp with
  | done => exact hf
  | call r _ ih => exact .call r (ih hf)

/-- **Of one trace, one beginning is the trace of a program**, and it fixes the value. -/
theorem Makes.unique {T₁ T₂ rest₁ rest₂ : List Event} {b : α} (h₁ : Makes p T₁ a)
    (h₂ : Makes p T₂ b) (heq : T₁ ++ rest₁ = T₂ ++ rest₂) : T₁ = T₂ ∧ a = b ∧ rest₁ = rest₂ := by
  induction h₁ generalizing T₂ with
  | done =>
    cases h₂
    exact ⟨rfl, rfl, heq⟩
  | call r _ ih =>
    cases h₂ with
    | call r' hnext =>
      obtain ⟨hevent, hrest⟩ := List.cons.inj heq
      cases hevent
      obtain ⟨rfl, rfl, rfl⟩ := ih hnext hrest
      exact ⟨rfl, rfl, rfl⟩

theorem Makes.of_bind {b : β} (hp : Makes p T a) (hm : Makes (p.bind f) (T ++ T') b) :
    Makes (f a) T' b := by
  obtain ⟨T₁, a', T₂, heq, hp', hf⟩ := makes_bind hm
  obtain ⟨rfl, rfl, rfl⟩ := hp.unique hp' heq
  exact hf

theorem makes_pure {b : α} (hm : Makes (pure a) T b) : T = [] ∧ b = a := by
  cases hm
  exact ⟨rfl, rfl⟩

theorem makes_perform {c : Call} {r : c.Reply} (hm : Makes (perform c) T r) : T = [⟨c, r⟩] := by
  cases hm with
  | call r hnext =>
    cases hnext
    rfl

theorem answered_of_perform {c : Call} {r : c.Reply} (hm : Makes (perform c) T r) :
    Answered T c r := by
  rw [makes_perform hm]
  exact List.mem_cons_self

end Program

/-! ## Programs of the judge -/

namespace Act

/-- **A program of the judge ends with a value and without an error.** -/
abbrev Yields (x : Act α) (T : List Event) (a : α) : Prop := Program.Makes x.run T (.ok a)

variable {T : List Event}

variable {f : α → Act β} {r : Except JudgeError β} {x : Act α}

/-- **What comes next is done if what came first ended without an error.** -/
theorem makes_bind (hm : Program.Makes (x >>= f).run T r) :
    (∃ e, r = .error e ∧ Program.Makes x.run T (.error e)) ∨
    ∃ T₁ a T₂, T = T₁ ++ T₂ ∧ Yields x T₁ a ∧ Program.Makes (f a).run T₂ r := by
  obtain ⟨T₁, result, T₂, hT, hx, hf⟩ := Program.makes_bind hm
  cases result with
  | ok a => exact .inr ⟨T₁, a, T₂, hT, hx, hf⟩
  | error e =>
    cases hf
    exact .inl ⟨e, rfl, by rwa [hT, List.append_nil]⟩

theorem yields_bind {b : β} (hy : Yields (x >>= f) T b) :
    ∃ T₁ a T₂, T = T₁ ++ T₂ ∧ Yields x T₁ a ∧ Yields (f a) T₂ b := by
  rcases makes_bind hy with ⟨e, he, -⟩ | hcut
  · cases he
  · exact hcut

theorem Yields.bind (hx : Yields x T a) (hf : Program.Makes (f a).run T' r) :
    Program.Makes (x >>= f).run (T ++ T') r :=
  Program.Makes.bind (f := ExceptT.bindCont f) hx hf

/-- What follows a part of a trace that is known not to fail. -/
theorem Yields.of_bind (hx : Yields x T a) (hm : Program.Makes (x >>= f).run (T ++ T') r) :
    Program.Makes (f a).run T' r :=
  Program.Makes.of_bind (f := ExceptT.bindCont f) hx hm

theorem yields_map {f : α → β} {b : β} (hy : Yields (f <$> x) T b) :
    ∃ a, b = f a ∧ Yields x T a := by
  obtain ⟨T₁, r, T₂, rfl, hx, hf⟩ := Program.makes_bind hy
  cases r with
  | ok a =>
    cases hf
    exact ⟨a, rfl, by rwa [List.append_nil]⟩
  | error e => cases hf

theorem yields_pure {b : α} (hy : Yields (pure a) T b) : T = [] ∧ b = a := by
  cases hy
  exact ⟨rfl, rfl⟩

theorem not_yields_throw {e : JudgeError} : ¬ Yields (throw e) T a := nofun

theorem makes_ofProgram {r : Except JudgeError α} (hm : Program.Makes (ofProgram p).run T r) :
    ∃ a, r = .ok a ∧ Program.Makes p T a := by
  obtain ⟨T₁, a, T₂, rfl, hp, hf⟩ := Program.makes_bind hm
  cases hf
  exact ⟨a, rfl, by rwa [List.append_nil]⟩

/-- What does not fail is followed by what comes next. -/
theorem makes_ofProgram_bind (hm : Program.Makes (ofProgram p >>= f).run T r) :
    ∃ T₁ a T₂, T = T₁ ++ T₂ ∧ Program.Makes p T₁ a ∧ Program.Makes (f a).run T₂ r := by
  rcases makes_bind hm with ⟨e, -, hp⟩ | ⟨T₁, a, T₂, hT, hp, hf⟩
  · obtain ⟨a, ha, -⟩ := makes_ofProgram hp
    cases ha
  · obtain ⟨b, hb, hp⟩ := makes_ofProgram hp
    cases hb
    exact ⟨T₁, a, T₂, hT, hp, hf⟩

theorem yields_ofProgram (hy : Yields (ofProgram p) T a) : Program.Makes p T a := by
  obtain ⟨b, hb, hp⟩ := makes_ofProgram hy
  cases hb
  exact hp

theorem Yields.ofProgram (hp : Program.Makes p T a) : Yields (ofProgram p) T a := by
  have hm := hp.bind (f := fun a => Program.done (Except.ok (ε := JudgeError) a)) .done
  rwa [List.append_nil] at hm

variable {p : Program (Except OsError α)} {tell : OsError → JudgeError}

theorem makes_orElse {r : Except JudgeError α} (hm : Program.Makes (orElse p tell).run T r) :
    ∃ reply, Program.Makes p T reply ∧ r = reply.mapError tell := by
  obtain ⟨T₁, reply, T₂, rfl, hp, hf⟩ := Program.makes_bind hm
  cases reply with
  | ok a =>
    cases hf
    exact ⟨.ok a, by rwa [List.append_nil], rfl⟩
  | error e =>
    cases hf
    exact ⟨.error e, by rwa [List.append_nil], rfl⟩

theorem yields_orElse (hy : Yields (orElse p tell) T a) : Program.Makes p T (.ok a) := by
  obtain ⟨reply, hp, hr⟩ := makes_orElse hy
  cases reply with
  | ok b =>
    cases hr
    exact hp
  | error e => cases hr

theorem fails_orElse {e : JudgeError} (hm : Program.Makes (orElse p tell).run T (.error e)) :
    ∃ cause, Program.Makes p T (.error cause) ∧ e = tell cause := by
  obtain ⟨reply, hp, hr⟩ := makes_orElse hm
  cases reply with
  | ok b => cases hr
  | error cause => exact ⟨cause, hp, Except.error.inj hr⟩

theorem yields_ofExcept {r : Except JudgeError α} (hy : Yields (ofExcept r) T a) :
    T = [] ∧ r = .ok a := by
  obtain ⟨hT, hr⟩ := Program.makes_pure hy
  exact ⟨hT, hr.symm⟩

/-- What is done for each of a list is done in a part of the trace. -/
theorem yields_mapM {xs : List α} {ys : List β} (hy : Yields (xs.mapM f) T ys) :
    ∀ p ∈ xs.zip ys, ∃ T₁, T₁ ⊆ T ∧ Yields (f p.1) T₁ p.2 := by
  induction xs generalizing T ys with
  | nil => simp
  | cons x xs ih =>
    rw [List.mapM_cons] at hy
    obtain ⟨T₁, y, T₂, rfl, hx, hrest⟩ := yields_bind hy
    obtain ⟨T₃, ys', T₄, rfl, hxs, hpure⟩ := yields_bind hrest
    obtain ⟨-, rfl⟩ := yields_pure hpure
    intro p hp
    rcases List.mem_cons.mp hp with rfl | hp
    · exact ⟨T₁, fun e he => by simp [he], hx⟩
    · obtain ⟨T₅, hsub, hp⟩ := ih hxs p hp
      exact ⟨T₅, fun e he => by simp [hsub he], hp⟩

theorem length_of_mapM {xs : List α} {ys : List β} (hy : Yields (xs.mapM f) T ys) :
    ys.length = xs.length := by
  induction xs generalizing T ys with
  | nil =>
    obtain ⟨-, rfl⟩ := yields_pure hy
    rfl
  | cons x xs ih =>
    rw [List.mapM_cons] at hy
    obtain ⟨T₁, y, T₂, rfl, -, hrest⟩ := yields_bind hy
    obtain ⟨T₃, ys', T₄, rfl, hxs, hpure⟩ := yields_bind hrest
    obtain ⟨-, rfl⟩ := yields_pure hpure
    rw [List.length_cons, List.length_cons, ih hxs]

end Act

end Judge
