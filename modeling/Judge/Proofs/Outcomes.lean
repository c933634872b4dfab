import Judge.Machine.Act

/-!
# Proofs/Outcomes — programs that come to an end

`Program.Returns h p s Q` says that `p`, run from the state `s`, has all its calls answered by `h`
and ends with a value and a state of which `Q` holds.  What a program returns is put together from
what its parts return (`Returns.bind`, `Returns.act_bind`).

`Program.Gives h Calm p a` is for machines that stay as they are while somebody looks: from every
calm state `p` ends with the same value.
-/

namespace Judge.Program

variable {σ α β : Type} {h : Handler σ} {s s' : σ} {Q : α → σ → Prop} {R : β → σ → Prop}

/-- **A program returns**: it ends, with a value and a state of which `Q` holds. -/
def Returns (h : Handler σ) (p : Program α) (s : σ) (Q : α → σ → Prop) : Prop :=
  ∃ a s', p.run h s = some (a, s') ∧ Q a s'

variable {a : α} {p : Program α} {f : α → Act β} {tell : OsError → JudgeError}

theorem Returns.pure (hQ : Q a s) : Returns h (pure a) s Q := ⟨a, s, rfl, hQ⟩

theorem run_after {f : α → Program β} (hrun : p.run h s = some (a, s')) :
    (p >>= f).run h s = (f a).run h s' :=
  (run_bind h p f s).trans (by rw [hrun, Option.bind_some])

/-- A part of which the run is known, and what follows it. -/
theorem Returns.after {f : α → Program β} (hrun : p.run h s = some (a, s'))
    (hf : Returns h (f a) s' R) : Returns h (p >>= f) s R := by
  obtain ⟨b, t, hrun', hR⟩ := hf
  exact ⟨b, t, (run_after hrun).trans hrun', hR⟩

theorem Returns.bind {f : α → Program β} (hp : Returns h p s Q)
    (hf : ∀ a t, Q a t → Returns h (f a) t R) : Returns h (p >>= f) s R := by
  obtain ⟨a, t, hrun, hQ⟩ := hp
  exact .after hrun (hf a t hQ)

theorem run_perform {c : Call} {r : c.Reply} (hc : h c s = some (r, s')) :
    (perform c).run h s = some (r, s') := by
  simp [perform, hc]

theorem run_onFiles {c : FileCall} {r : c.Reply} (hc : h (.file c) s = some (r, s')) :
    (onFiles c).run h s = some (r, s') :=
  run_perform hc

/-! ## Programs of the judge -/

theorem Returns.act_bind {x : Act α} {Q : Except JudgeError α → σ → Prop}
    {R : Except JudgeError β → σ → Prop} (hx : Returns h x.run s Q)
    (hok : ∀ a t, Q (.ok a) t → Returns h (f a).run t R)
    (herror : ∀ e t, Q (.error e) t → R (.error e) t) : Returns h (x >>= f).run s R := by
  refine Returns.bind hx fun r t hQ => ?_
  cases r with
  | ok a => exact hok a t hQ
  | error e => exact .pure (herror e t hQ)

theorem Returns.after_act {x : Act α} {R : Except JudgeError β → σ → Prop}
    (hrun : x.run.run h s = some (.ok a, s')) (hf : Returns h (f a).run s' R) :
    Returns h (x >>= f).run s R :=
  Returns.after hrun hf

theorem run_orElse {p : Program (Except OsError α)} {r : Except OsError α}
    (hrun : p.run h s = some (r, s')) :
    (Act.orElse p tell).run.run h s = some (r.mapError tell, s') := by
  cases r <;> exact run_after hrun

theorem run_ofSystem {p : Program (Except OsError α)} (hrun : p.run h s = some (.ok a, s')) :
    (Act.ofSystem p).run.run h s = some (.ok a, s') :=
  run_orElse hrun

theorem run_ofProgram (hrun : p.run h s = some (a, s')) :
    (Act.ofProgram p).run.run h s = some (.ok a, s') :=
  run_after hrun

theorem Returns.ofProgram_bind {R : Except JudgeError β → σ → Prop} (hp : Returns h p s Q)
    (hf : ∀ a t, Q a t → Returns h (f a).run t R) : Returns h (Act.ofProgram p >>= f).run s R := by
  obtain ⟨a, t, hrun, hQ⟩ := hp
  exact .after_act (run_ofProgram hrun) (hf a t hQ)

/-! ## Taking runs apart -/

theorem run_bind_eq_some {f : α → Program β} {b : β} (hrun : (p >>= f).run h s = some (b, s')) :
    ∃ a s₁, p.run h s = some (a, s₁) ∧ (f a).run h s₁ = some (b, s') := by
  obtain ⟨⟨a, s₁⟩, hp, hf⟩ := Option.bind_eq_some_iff.mp ((run_bind h p f s).symm.trans hrun)
  exact ⟨a, s₁, hp, hf⟩

/-- What succeeds, succeeds in all its parts. -/
theorem run_act_bind_eq_ok {x : Act α} {b : β} (hrun : (x >>= f).run.run h s = some (.ok b, s')) :
    ∃ a s₁, x.run.run h s = some (.ok a, s₁) ∧ (f a).run.run h s₁ = some (.ok b, s') := by
  obtain ⟨r, s₁, hx, hf⟩ := run_bind_eq_some hrun
  cases r with
  | ok a => exact ⟨a, s₁, hx, hf⟩
  | error e => cases hf

theorem run_orElse_eq_ok {p : Program (Except OsError α)}
    (hrun : (Act.orElse p tell).run.run h s = some (.ok a, s')) : p.run h s = some (.ok a, s') := by
  obtain ⟨r, s₁, hp, hf⟩ := run_bind_eq_some hrun
  cases r with
  | ok b =>
    cases hf
    exact hp
  | error e => cases hf

theorem run_ofProgram_eq_ok (hrun : (Act.ofProgram p).run.run h s = some (.ok a, s')) :
    p.run h s = some (a, s') := by
  obtain ⟨b, s₁, hp, hf⟩ := run_bind_eq_some hrun
  cases hf
  exact hp

/-! ## Machines that stay as they are -/

variable {Calm : σ → Prop}

/-- **A program gives a value**: wherever `Calm` holds it ends with this value, and `Calm` goes on to
hold. -/
def Gives (h : Handler σ) (Calm : σ → Prop) (p : Program α) (a : α) : Prop :=
  ∀ s, Calm s → Returns h p s fun b t => b = a ∧ Calm t

theorem Gives.pure (a : α) : Gives h Calm (pure a) a := fun _ hs => .pure ⟨rfl, hs⟩

theorem Gives.bind {f : α → Program β} {b : β} (hp : Gives h Calm p a) (hf : Gives h Calm (f a) b) :
    Gives h Calm (p >>= f) b := by
  intro s hs
  refine .bind (hp s hs) ?_
  rintro _ t ⟨rfl, ht⟩
  exact hf t ht

theorem Gives.onFiles {c : FileCall} {r : c.Reply}
    (hc : ∀ s, Calm s → ∃ s', h (.file c) s = some (r, s') ∧ Calm s') :
    Gives h Calm (onFiles c) r := by
  intro s hs
  obtain ⟨t, hrun, ht⟩ := hc s hs
  exact ⟨r, t, run_onFiles hrun, rfl, ht⟩

theorem Gives.act_bind {x : Act α} {r : Except JudgeError α} {g : α → Except JudgeError β}
    (hx : Gives h Calm x.run r) (hf : ∀ a, r = .ok a → Gives h Calm (f a).run (g a)) :
    Gives h Calm (x >>= f).run (r >>= g) := by
  refine Gives.bind hx ?_
  cases r with
  | ok a => exact hf a rfl
  | error e => exact Gives.pure _

theorem Gives.ofProgram (hp : Gives h Calm p a) : Gives h Calm (Act.ofProgram p).run (.ok a) :=
  Gives.bind hp (Gives.pure _)

theorem Gives.ofProgram_bind {r : Except JudgeError β} (hp : Gives h Calm p a)
    (hf : Gives h Calm (f a).run r) : Gives h Calm (Act.ofProgram p >>= f).run r :=
  Gives.bind hp.ofProgram hf

theorem Gives.orElse {p : Program (Except OsError α)} {r : Except OsError α} (hp : Gives h Calm p r) :
    Gives h Calm (Act.orElse p tell).run (r.mapError tell) := by
  cases r <;> exact Gives.bind hp (Gives.pure _)

theorem Gives.filterM {p : α → Program Bool} {q : α → Bool} {xs : List α}
    (hp : ∀ x ∈ xs, Gives h Calm (p x) (q x)) : Gives h Calm (xs.filterM p) (xs.filter q) := by
  -- the loop collects what was found in reverse
  have hloop : ∀ found, Gives h Calm (xs.filterAuxM p found) ((xs.filter q).reverse ++ found) := by
    induction xs with
    | nil => exact fun found => Gives.pure found
    | cons x xs ih =>
      intro found
      refine Gives.bind (hp x List.mem_cons_self) ?_
      have hrest := ih fun y hy => hp y (List.mem_cons_of_mem x hy)
      cases hq : q x with
      | true =>
        rw [List.filter_cons_of_pos hq, List.reverse_cons, List.append_assoc]
        exact hrest (x :: found)
      | false =>
        rw [List.filter_cons_of_neg (by simp [hq])]
        exact hrest found
  refine Gives.bind (hloop []) ?_
  rw [List.append_nil, List.reverse_reverse]
  exact Gives.pure _

theorem Gives.mapM {g : α → Except JudgeError β} {xs : List α}
    (hf : ∀ x ∈ xs, Gives h Calm (f x).run (g x)) : Gives h Calm (xs.mapM f).run (xs.mapM g) := by
  induction xs with
  | nil => exact Gives.pure _
  | cons x xs ih =>
    rw [List.mapM_cons, List.mapM_cons]
    refine Gives.act_bind (hf x List.mem_cons_self) fun a _ => ?_
    refine Gives.act_bind (ih fun y hy => hf y (List.mem_cons_of_mem x hy)) fun b _ => ?_
    exact Gives.pure _

theorem Gives.isFile {p : Path} {r : Except OsError FileKind}
    (hp : Gives h Calm (Program.onFiles (.kind p)) r) :
    Gives h Calm (isFile p) (r.toOption.any FileKind.isFile) := by
  cases r <;> exact Gives.bind hp (Gives.pure _)

theorem Gives.isDir {p : Path} {r : Except OsError FileKind}
    (hp : Gives h Calm (Program.onFiles (.kind p)) r) :
    Gives h Calm (isDir p) (r.toOption.any FileKind.isDir) := by
  cases r <;> exact Gives.bind hp (Gives.pure _)

/-! ## A tree of files as a machine -/

/-- The machine that has a tree of files and nothing else, seen from the directory `cwd`. -/
def onTree (cwd : Place) : Handler FileTree
  | .file c, t => some (t.serve cwd c)
  | _, _ => none

theorem run_onTree (cwd : Place) (c : FileCall) (t : FileTree) :
    (onFiles c).run (onTree cwd) t = some (t.serve cwd c) :=
  run_onFiles rfl

end Judge.Program
