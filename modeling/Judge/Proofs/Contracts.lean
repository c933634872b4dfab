import Judge.Proofs.Traces

/-!
# Proofs/Contracts — the calls of a program, and what it ends with

A contract says two things about a program, whatever is answered to its calls: of every call that it
makes `Q` holds, and of the value that it ends with `R` holds (`Program.Meets`).  For a program of
the judge the value is a result, so a contract also says how the program can fail (`Act.Meets`).

There is one rule for each way in which programs are put together, so a contract is proved along the
text of the program; `Program.Meets.makes` is what it says of a trace.  A contract may tell what a
program starts (`Call.StartsOnly`), that it interrupts nobody as well (`Call.Gentle`), stores
nothing (`Call.Spares`) or neither (`Call.Mild`), leaves the files alone (`Call.Harmless`), or takes
nothing away from them (`Call.Builds`).
-/

namespace Judge

variable {α β : Type} {Q : Call → Prop} {L : Launch → Prop} {c : Call} {p : Program α}
  {T : List Event} {a : α}

/-- What holds of every value. -/
abbrev Any (_ : α) : Prop := True

namespace Call

/-- Of a process that the call starts, `L` holds. -/
def StartsOnly (L : Launch → Prop) : Call → Prop
  | .start l => L l
  | _ => True

/-- Of a process that the call starts `L` holds, and it interrupts nobody. -/
def Gentle (L : Launch → Prop) : Call → Prop
  | .start l => L l
  | .kill _ signal => signal ≠ Signal.int
  | _ => True

theorem Gentle.startsOnly {L' : Launch → Prop} (hL : ∀ l, L l → L' l) (hc : c.Gentle L) :
    c.StartsOnly L' := by
  cases c with
  | start l => exact hL l hc
  | _ => trivial

/-- The call stores no data in a file. -/
def Spares : Call → Prop
  | .file (.write ..) => False
  | _ => True

/-- Of a process that the call starts `L` holds, it interrupts nobody, and it stores nothing. -/
def Mild (L : Launch → Prop) : Call → Prop
  | .start l => L l
  | .kill _ signal => signal ≠ Signal.int
  | .file (.write ..) => False
  | _ => True

theorem mild_kill (pid : Int) : (Call.kill pid Signal.kill).Mild L := by
  change Signal.kill ≠ Signal.int
  decide

theorem Mild.gentle (hc : c.Mild L) : c.Gentle L := by
  cases c with
  | start l | kill pid signal => exact hc
  | _ => trivial

theorem Mild.spares (hc : c.Mild L) : c.Spares := by
  cases c with
  | file c =>
    cases c with
    | write p data => exact hc
    | _ => trivial
  | _ => trivial

/-- The call leaves files and processes alone: it looks at a file or at the time, or it prints. -/
def Harmless : Call → Prop
  | .file (.read _) | .file (.list _) | .file (.kind _) | .write .. | .childTime => True
  | _ => False

/-- A call that does no harm can be answered. -/
theorem Harmless.nonempty (hc : c.Harmless) : Nonempty c.Reply := by
  cases c with
  | file c =>
    cases c with
    | read p | list p => exact ⟨.ok []⟩
    | kind p => exact ⟨.error .noEntry⟩
    | _ => exact hc.elim
  | write fd data => exact ⟨.ok 0⟩
  | childTime => exact ⟨.ok 0⟩
  | _ => exact hc.elim

/-- What is asked of calls is true of those that do no harm. -/
class Allows (Q : Call → Prop) : Prop where
  of_harmless {c : Call} (hc : c.Harmless) : Q c

instance : Allows Harmless := ⟨id⟩

instance : Allows Any := ⟨fun _ => trivial⟩

instance {L : Launch → Prop} : Allows (StartsOnly L) := ⟨fun {c} hc => by cases c <;> trivial⟩

instance {L : Launch → Prop} : Allows (Gentle L) := ⟨fun {c} hc => by cases c <;> trivial⟩

theorem Harmless.mild (hc : c.Harmless) : c.Mild L := by
  cases c with
  | file c => cases c <;> trivial
  | _ => trivial

instance {L : Launch → Prop} : Allows (Mild L) := ⟨Harmless.mild⟩

/-- The call does no harm, or it looks at a link, or it makes something new. -/
def Builds : Call → Prop
  | .file (.makeDir _) | .file (.symlink ..) | .file (.copy ..) | .file (.linkKind _)
  | .file (.place _) => True
  | c => c.Harmless

instance : Allows Builds := ⟨fun {c} hc => by
  cases c with
  | file c => cases c <;> trivial
  | _ => exact hc⟩

theorem Builds.mild (hc : c.Builds) : c.Mild L := by
  cases c with
  | file c => cases c <;> trivial
  | _ => trivial

instance : Allows Spares := ⟨fun hc => (hc.mild (L := Any)).spares⟩

end Call

namespace Program

variable {R S : α → Prop}

/-- **A program meets a contract**: it makes only calls of which `Q` holds, and it ends with a value
of which `R` holds. -/
inductive Meets (Q : Call → Prop) (R : α → Prop) : Program α → Prop
  | done {a : α} (ha : R a) : Meets Q R (.done a)
  | call {c : Call} {next : c.Reply → Program α} (hc : Q c)
      (hnext : ∀ r, Meets Q R (next r)) : Meets Q R (.call c next)

/-- **A contract holds of every trace.** -/
theorem Meets.makes (hp : p.Meets Q R) (hm : Makes p T a) : R a ∧ ∀ c r, Answered T c r → Q c := by
  induction hm with
  | done =>
    cases hp with
    | done ha => exact ⟨ha, by simp [Answered]⟩
  | call r _ ih =>
    cases hp with
    | call hc hnext =>
      obtain ⟨hvalue, hcalls⟩ := ih (hnext r)
      refine ⟨hvalue, fun c' r' hmem => ?_⟩
      rcases List.mem_cons.mp hmem with heq | hmem
      · cases heq
        exact hc
      · exact hcalls c' r' hmem

/-- A program whose calls can be answered has a trace. -/
theorem Meets.exists_makes (hp : p.Meets Q R) (hQ : ∀ c : Call, Q c → Nonempty c.Reply) :
    ∃ T a, Makes p T a := by
  induction hp with
  | done => exact ⟨[], _, .done⟩
  | call hc _ ih =>
    obtain ⟨r⟩ := hQ _ hc
    obtain ⟨T, a, hm⟩ := ih r
    exact ⟨_, a, .call r hm⟩

theorem Meets.bind {f : α → Program β} {R : β → Prop} (hp : p.Meets Q S)
    (hf : ∀ a, S a → (f a).Meets Q R) : (p.bind f).Meets Q R := by
  induction hp with
  | done ha => exact hf _ ha
  | call hc _ ih => exact .call hc ih

theorem Meets.mono (hp : p.Meets Q S) (h : ∀ a, S a → R a) : p.Meets Q R := by
  induction hp with
  | done ha => exact .done (h _ ha)
  | call hc _ ih => exact .call hc ih

theorem Meets.weaken {Q' : Call → Prop} (hp : p.Meets Q R) (hQ : ∀ c, Q c → Q' c) :
    p.Meets Q' R := by
  induction hp with
  | done ha => exact .done ha
  | call hc _ ih => exact .call (hQ _ hc) ih

theorem meets_pure (h : R a) : (pure a : Program α).Meets Q R := .done h

theorem meets_one {f : c.Reply → α} (hc : Q c) : Meets Q Any (.call c fun r => .done (f r)) :=
  .call hc fun _ => .done trivial

theorem meets_harmless [Call.Allows Q] {f : c.Reply → α} (hc : c.Harmless) :
    Meets Q Any (.call c fun r => .done (f r)) :=
  meets_one (Call.Allows.of_harmless hc)

theorem meets_filterAuxM {f : α → Program Bool} (hf : ∀ a, (f a).Meets Q Any) (xs kept : List α) :
    (xs.filterAuxM f kept).Meets Q Any := by
  induction xs generalizing kept with
  | nil => exact meets_pure trivial
  | cons x xs ih => exact (hf x).bind fun b _ => ih _

theorem meets_filterM {f : α → Program Bool} (hf : ∀ a, (f a).Meets Q Any) (xs : List α) :
    (xs.filterM f).Meets Q Any :=
  (meets_filterAuxM hf xs []).bind fun _ _ => meets_pure trivial

end Program

/-! ## Processes that are started -/

/-- The process that a call starts. -/
def Call.launch? : Call → Option Launch
  | .start l => some l
  | _ => none

/-- **The processes that a trace starts**, in order; those that were refused count. -/
def launches (T : List Event) : List Launch := T.filterMap fun e => e.call.launch?

@[simp] theorem launches_nil : launches [] = [] := rfl

@[simp] theorem launches_append (T T' : List Event) :
    launches (T ++ T') = launches T ++ launches T' :=
  List.filterMap_append

theorem Program.Meets.launches {R : α → Prop} (hp : p.Meets (Call.StartsOnly L) R)
    (hm : Makes p T a) : ∀ l ∈ launches T, L l := by
  intro l hl
  obtain ⟨⟨c, r⟩, hmem, hlaunch⟩ := List.mem_filterMap.mp hl
  have hstarts := (hp.makes hm).2 c r hmem
  cases c with
  | start l' =>
    cases hlaunch
    exact hstarts
  | _ => cases hlaunch

/-- A program that may start nothing starts nothing. -/
theorem Program.Meets.launches_eq_nil {R : α → Prop}
    (hp : p.Meets (Call.StartsOnly fun _ => False) R) (hm : Makes p T a) : Judge.launches T = [] :=
  List.eq_nil_iff_forall_not_mem.mpr (hp.launches hm)

/-! ## Data that is stored -/

/-- The file that a call stores data in, and the data. -/
def Call.store? : Call → Option (Path × Bytes)
  | .file (.write p data) => some (p, data)
  | _ => none

/-- **What a trace stores**, in order; what was refused counts. -/
def stores (T : List Event) : List (Path × Bytes) := T.filterMap fun e => e.call.store?

@[simp] theorem stores_nil : stores [] = [] := rfl

@[simp] theorem stores_append (T T' : List Event) : stores (T ++ T') = stores T ++ stores T' :=
  List.filterMap_append

theorem stores_flatMap {f : α → List Event} (xs : List α) :
    stores (xs.flatMap f) = xs.flatMap fun x => stores (f x) :=
  List.filterMap_flatMap ..

theorem Call.Spares.store?_eq_none (hc : c.Spares) : c.store? = none := by
  cases c with
  | file c =>
    cases c with
    | write p data => exact hc.elim
    | _ => rfl
  | _ => rfl

/-- A program that may store nothing stores nothing. -/
theorem Program.Meets.stores_eq_nil {R : α → Prop} (hp : p.Meets Call.Spares R) (hm : Makes p T a) :
    stores T = [] := by
  refine List.filterMap_eq_nil_iff.mpr fun e he => ?_
  exact ((hp.makes hm).2 e.call e.reply he).store?_eq_none

/-! ## Programs of the judge -/

/-- Of a value `R` holds, and of an error `E`. -/
def Ends (E : JudgeError → Prop) (R : α → Prop) : Except JudgeError α → Prop
  | .ok a => R a
  | .error e => E e

namespace Act

variable {E : JudgeError → Prop} {R S : α → Prop}

/-- **A program of the judge meets a contract**: it makes only calls of which `Q` holds, it fails
only with errors of which `E` holds, and otherwise it ends with a value of which `R` holds. -/
def Meets (Q : Call → Prop) (E : JudgeError → Prop) (R : α → Prop) (x : Act α) : Prop :=
  Program.Meets Q (Ends E R) x.run

variable {x : Act α}

theorem Meets.bind {f : α → Act β} {R : β → Prop} (hx : Meets Q E S x)
    (hf : ∀ a, S a → Meets Q E R (f a)) : Meets Q E R (x >>= f) := by
  refine Program.Meets.bind hx fun r hr => ?_
  cases r with
  | ok a => exact hf a hr
  | error e => exact .done hr

theorem Meets.map {f : α → β} {R : β → Prop} (hx : Meets Q E S x) (hf : ∀ a, S a → R (f a)) :
    Meets Q E R (f <$> x) := by
  refine Program.Meets.bind hx fun r hr => ?_
  cases r with
  | ok a => exact .done (hf a hr)
  | error e => exact .done hr

theorem Meets.mono {E' : JudgeError → Prop} (hx : Meets Q E S x) (hE : ∀ e, E e → E' e)
    (hR : ∀ a, S a → R a) : Meets Q E' R x := by
  refine Program.Meets.mono hx fun r hr => ?_
  cases r with
  | ok a => exact hR a hr
  | error e => exact hE e hr

theorem Meets.weaken {Q' : Call → Prop} (hx : Meets Q E R x) (hQ : ∀ c, Q c → Q' c) :
    Meets Q' E R x :=
  Program.Meets.weaken hx hQ

theorem Meets.gentle (hx : Meets (Call.Mild L) E R x) : Meets (Call.Gentle L) E R x :=
  hx.weaken fun _ hc => hc.gentle

/-- To interrupt nobody is more than what is asked of the processes that are started. -/
theorem Meets.startsOnly {L' : Launch → Prop} (hx : Meets (Call.Gentle L) E R x)
    (hL : ∀ l, L l → L' l) : Meets (Call.StartsOnly L') E R x :=
  Program.Meets.weaken hx fun _ hc => hc.startsOnly hL

theorem meets_pure (h : R a) : Meets Q E R (pure a : Act α) := .done h

theorem meets_throw {e : JudgeError} (h : E e) : Meets Q E R (throw e : Act α) := .done h

theorem meets_ofProgram (hp : p.Meets Q R) : Meets Q E R (ofProgram p) :=
  Program.Meets.bind hp fun _ ha => .done ha

theorem meets_ofExcept {r : Except JudgeError α} (hr : Ends E R r) : Meets Q E R (ofExcept r) :=
  .done hr

theorem meets_orElse {p : Program (Except OsError α)} {tell : OsError → JudgeError}
    (hp : p.Meets Q Any) (hE : ∀ e, E (tell e)) : Meets Q E Any (orElse p tell) := by
  refine Program.Meets.bind hp fun r _ => ?_
  cases r with
  | ok a => exact .done trivial
  | error e => exact .done (hE e)

/-- A call, and what comes after its answer. -/
theorem Meets.call_bind {f : c.Reply → α} {g : α → Act β} {R : β → Prop} (hc : Q c)
    (hg : ∀ a, Meets Q E R (g a)) : Meets Q E R (ofProgram (.call c fun r => .done (f r)) >>= g) :=
  (meets_ofProgram (Program.meets_one hc)).bind fun a _ => hg a

/-- A call that may be refused, and what comes after it if it is not. -/
theorem Meets.ask_bind {f : c.Reply → Except OsError α} {tell : OsError → JudgeError}
    {g : α → Act β} {R : β → Prop} (hc : Q c) (hg : ∀ a, Meets Q E R (g a))
    (hE : ∀ e, E (tell e) := by exact fun _ => trivial) :
    Meets Q E R (orElse (.call c fun r => .done (f r)) tell >>= g) :=
  (meets_orElse (Program.meets_one hc) hE).bind fun a _ => hg a

theorem meets_mapM {f : α → Act β} (hf : ∀ a, Meets Q E Any (f a)) (xs : List α) :
    Meets Q E Any (xs.mapM f) := by
  induction xs with
  | nil => exact meets_pure trivial
  | cons x xs ih =>
    rw [List.mapM_cons]
    exact (hf x).bind fun y _ => ih.bind fun ys _ => meets_pure trivial

/-- What comes next is done if what came first did not fail in one of its ways. -/
theorem Meets.makes_bind {f : α → Act β} (hx : Meets Q E R x) {r : Except JudgeError β}
    (hm : Program.Makes (x >>= f).run T r) :
    (∃ e, r = .error e ∧ E e) ∨
    ∃ T₁ a T₂, T = T₁ ++ T₂ ∧ Yields x T₁ a ∧ Program.Makes (f a).run T₂ r := by
  rcases Act.makes_bind hm with ⟨e, rfl, he⟩ | hcut
  · exact .inl ⟨e, rfl, (Program.Meets.makes hx he).1⟩
  · exact .inr hcut

theorem Meets.error (hx : Meets Q E R x) {e : JudgeError} (hm : Program.Makes x.run T (.error e)) :
    E e :=
  (Program.Meets.makes hx hm).1

end Act

end Judge
