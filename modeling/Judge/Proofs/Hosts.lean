import Judge.Proofs.Launches

/-!
# Proofs/Hosts — the files along a run

A trace holds what was answered, and not what the files were in between.  A `Host` has both: it
answers calls from a state, and in each state something can be read at each path.  What it may do is
limited by four laws.  A reading tells what is there, and the time can be told; while nobody but the
judge is at work, files change only by what the judge does; and nobody is at work after a look that
found no process left behind.  Everything else is free: while a process runs, every file may change
at every call.

`Host.Runs.quiet` is the use of these laws: a program that does no harm leaves a calm host as it
was, and all that it reads was there before it.
-/

namespace Judge

/-- **A host of the judge.** -/
structure Host (σ : Type) where
  answer : Program.Handler σ
  content : σ → Path → Option Bytes
  /-- Nobody but the judge is at work. -/
  Calm : σ → Prop
  reads {p : Path} {a b : σ} {r : Except OsError Bytes} :
    answer (.file (.read p)) a = some (r, b) → r.toOption = content a p
  times {a b : σ} {r : Except OsError Nat} :
    answer .childTime a = some (r, b) → ∃ micros, r = .ok micros
  rests {c : Call} {a b : σ} {r : c.Reply} :
    Calm a → c.Harmless → answer c a = some (r, b) → Calm b ∧ content b = content a
  settles {a b : σ} : Runner.verifyNoOrphans.run.run answer a = some (.ok (), b) → Calm b

namespace Host

variable {σ α β : Type} {H : Host σ} {a b : σ}

/-- **The digest of the file at a path**, if there is one. -/
def digest? (H : Host σ) (a : σ) (p : Path) : Option String :=
  (H.content a p).map fun data => Digest.ofBytes data

/-- **A host runs a program**, from the state `a` to the state `b`. -/
def Runs (H : Host σ) (p : Program α) (a : σ) (v : α) (b : σ) : Prop :=
  p.run H.answer a = some (v, b)

instance [DecidableEq σ] [DecidableEq α] (p : Program α) (v : α) : Decidable (H.Runs p a v b) :=
  inferInstanceAs (Decidable (_ = _))

theorem digest?_congr (h : H.content b = H.content a) (p : Path) :
    H.digest? b p = H.digest? a p := by
  unfold digest?
  rw [h]

/-! ## Taking runs apart -/

theorem runs_pure {v u : α} (h : H.Runs (pure v) a u b) : u = v ∧ b = a := by
  obtain ⟨rfl, rfl⟩ := Prod.mk.inj (Option.some.inj h)
  exact ⟨rfl, rfl⟩

variable {p : Program α} {r : Except JudgeError β}

theorem runs_bind {f : α → Program β} {v : β} (h : H.Runs (p.bind f) a v b) :
    ∃ c u, H.Runs p a u c ∧ H.Runs (f u) c v b := by
  unfold Runs at h
  rw [Program.run_bind] at h
  obtain ⟨⟨u, c⟩, hp, hf⟩ := Option.bind_eq_some_iff.mp h
  exact ⟨c, u, hp, hf⟩

/-- What comes next is done if what came first ended without an error. -/
theorem runs_act_bind {x : Act α} {f : α → Act β} (h : H.Runs (x >>= f).run a r b) :
    (∃ e, r = .error e ∧ H.Runs x.run a (.error e) b) ∨
    ∃ c u, H.Runs x.run a (.ok u) c ∧ H.Runs (f u).run c r b := by
  obtain ⟨c, result, hx, hf⟩ := runs_bind h
  cases result with
  | ok u => exact .inr ⟨c, u, hx, hf⟩
  | error e =>
    obtain ⟨rfl, rfl⟩ := runs_pure hf
    exact .inl ⟨e, rfl, hx⟩

theorem runs_ofProgram {r : Except JudgeError α} (h : H.Runs (Act.ofProgram p).run a r b) :
    ∃ u, r = .ok u ∧ H.Runs p a u b := by
  obtain ⟨c, u, hp, hpure⟩ := runs_bind h
  obtain ⟨rfl, rfl⟩ := runs_pure hpure
  exact ⟨u, rfl, hp⟩

/-- What does not fail is followed by what comes next. -/
theorem runs_ofProgram_bind {f : α → Act β} (h : H.Runs (Act.ofProgram p >>= f).run a r b) :
    ∃ c u, H.Runs p a u c ∧ H.Runs (f u).run c r b := by
  rcases runs_act_bind h with ⟨e, -, hp⟩ | ⟨c, u, hp, hf⟩
  · obtain ⟨u, hu, -⟩ := runs_ofProgram hp
    cases hu
  · obtain ⟨u', hu, hp⟩ := runs_ofProgram hp
    cases hu
    exact ⟨c, u, hp, hf⟩

/-! ## Putting runs together -/

theorem Runs.bind {f : α → Program β} {c : σ} {u : α} {v : β} (hp : H.Runs p a u c)
    (hf : H.Runs (f u) c v b) : H.Runs (p.bind f) a v b := by
  unfold Runs at hp hf ⊢
  rw [Program.run_bind, hp]
  exact hf

theorem Runs.ofProgram {u : α} (hp : H.Runs p a u b) : H.Runs (Act.ofProgram p).run a (.ok u) b :=
  hp.bind rfl

theorem Runs.act_bind {x : Act α} {f : α → Act β} {c : σ} {u : α} (hx : H.Runs x.run a (.ok u) c)
    (hf : H.Runs (f u).run c r b) : H.Runs (x >>= f).run a r b :=
  Runs.bind hx hf

/-! ## Calm hosts -/

/-- **A program that does no harm leaves a calm host as it was**, and reads what is there. -/
theorem Runs.quiet {R : α → Prop} {v : α} (h : H.Runs p a v b) (hcalm : H.Calm a)
    (hp : p.Meets Call.Harmless R) :
    H.Calm b ∧ H.content b = H.content a ∧ ∃ T, Program.Makes p T v ∧
      ∀ q (r : Except OsError Bytes), Answered T (.file (.read q)) r →
        r.toOption = H.content a q := by
  induction hp generalizing a with
  | done ha =>
    obtain ⟨rfl, rfl⟩ := runs_pure h
    exact ⟨hcalm, rfl, [], .done, fun q r hr => absurd hr List.not_mem_nil⟩
  | @call c next hc hnext ih =>
    obtain ⟨⟨r, d⟩, hanswer, hrest⟩ := Option.bind_eq_some_iff.mp h
    obtain ⟨hcalm', hsame⟩ := H.rests hcalm hc hanswer
    obtain ⟨hend, hcontent, T, hmakes, hread⟩ := ih r hrest hcalm'
    refine ⟨hend, hcontent.trans hsame, ⟨c, r⟩ :: T, .call r hmakes, fun q r' hr => ?_⟩
    rcases List.mem_cons.mp hr with heq | hr
    · cases heq
      exact H.reads hanswer
    · rw [hread q r' hr, hsame]

/-- The same, for what the states of the host are concerned. -/
theorem Runs.calm {R : α → Prop} {v : α} (h : H.Runs p a v b) (hcalm : H.Calm a)
    (hp : p.Meets Call.Harmless R) : H.Calm b ∧ H.content b = H.content a := by
  obtain ⟨hend, hsame, -⟩ := h.quiet hcalm hp
  exact ⟨hend, hsame⟩

/-! ## Prompt hosts

On these hosts a process does all that it does when it is started.  They are enough to show what a
candidate can do. -/

/-- The files of a prompt host: the tests that are listed have inputs, and `content` is what can be
read. -/
def promptFiles (tests : List String) (content : Path → Option Bytes) :
    (c : FileCall) → Option c.Reply
  | .list p =>
    some (.ok (if p = ProcessTable.root then [] else tests.map fun t => utf8 (t ++ ".dat")))
  | .read p => some ((content p).elim (.error .noEntry) .ok)
  | .kind p =>
    if p.extension? = some Discovery.inputExtension ∨ (content p).isSome then
      some (.ok (.file 0o644 2))
    else some (.error .noEntry)
  | .removeTree _ | .makeDir _ | .write .. => some (.ok ())
  | _ => none

/-- The answers of a prompt host, whose state counts the processes that were started. -/
def promptAnswer (tests : List String) (content : Nat → Path → Option Bytes) (output : String)
    (code : Nat) : Program.Handler Nat
  | .file c, n => (promptFiles tests (content n) c).map fun r => (r, n)
  | .openFile .., n => some (.ok 3, n)
  | .start _, n => some (.ok { pid := 7, stdout := some 4 }, n + 1)
  | .drain .., n => some (.ok (utf8 output), n)
  | .close _, n => some ((), n)
  | .write _ data, n => some (.ok data.length, n)
  | .wait _, n => some (.ok (.exited code), n)
  | .kill .., n => some (.ok (), n)
  | .sleep _, n => some ((), n)
  | .ownPid, n => some ((1 : Nat), n)
  | .childTime, n => some (.ok 0, n)
  | _, _ => none

/-- A call that does no harm leaves a prompt host in its state. -/
theorem promptAnswer_harmless {tests : List String} {content : Nat → Path → Option Bytes}
    {output : String} {code : Nat} {c : Call} {a b : Nat} {r : c.Reply} (hc : c.Harmless)
    (h : promptAnswer tests content output code c a = some (r, b)) : b = a := by
  cases c with
  | file c =>
    obtain ⟨r', -, heq⟩ : ∃ r', promptFiles tests (content a) c = some r' ∧ (r', a) = (r, b) :=
      Option.map_eq_some_iff.mp h
    exact (Prod.mk.inj heq).2.symm
  | write fd data | childTime => exact (Prod.mk.inj (Option.some.inj h)).2.symm
  | _ => exact hc.elim

/-- **A prompt host**: the files are `content n` once `n` processes were started, and each of them
writes `output` and ends with `code`. -/
def prompt (tests : List String) (content : Nat → Path → Option Bytes) (output : String)
    (code : Nat) : Host Nat where
  answer := promptAnswer tests content output code
  content := content
  Calm _ := True
  reads {p a b r} h := by
    obtain ⟨hr, -⟩ : (content a p).elim (.error .noEntry) .ok = r ∧ a = b :=
      Prod.mk.inj (Option.some.inj h)
    rw [← hr]
    cases content a p <;> rfl
  times h := ⟨0, (Prod.mk.inj (Option.some.inj h)).1.symm⟩
  rests _ hc h := ⟨trivial, congrArg content (promptAnswer_harmless hc h)⟩
  settles _ := trivial

/-- A test of a prompt host. -/
def promptCase : TestCase where
  name := "001"
  input := .ofString "/p/tests/001.dat"
  reference := .ofString "/p/tests/001.ans"
  info := .ofString "/p/tests/001.inf"
  fixtureDir := .ofString "/p/tests/001.dir"

end Host

end Judge
