import Judge.Proofs.Solo

/-!
# Proofs/Peers — what a command comes to

A `Peer` may do anything: it says one byte after the other until it ends, fails or stays silent, and
all that is done to it may change what it says.  A `Feed` brings its bytes in pieces of any sizes.

What a command comes to is said without the pieces: `Peer.Wrong` and `Peer.Faulty` are the two ways
in which it can fail, `Peer.Waits` is when it never comes back, `Peer.After` is where it leads, and
`Peer.FirstFailure` is the first command that fails; `Peer.ComesTo` has this beside the end of a
conversation in which no command does.  `operate_answers` says that an operation comes to just that.
-/

namespace Judge

open List

/-! ## Peers -/

/-- What comes back when something is asked of a peer. -/
inductive Reply (α : Type) where
  | ok (a : α)
  | fault (e : IoError)
  | never

/-- The reply with another value. -/
def Reply.map {α β : Type} (g : α → β) : Reply α → Reply β
  | .ok a => .ok (g a)
  | .fault e => .fault e
  | .never => .never

/-- What a peer has to say next. -/
inductive Utterance (σ : Type) where
  /-- A byte, and the state of the peer after it. -/
  | byte (b : UInt8) (s : σ)
  | ending
  | fault (e : IoError)
  | never

/-- **A peer**, which may do anything. -/
structure Peer (σ : Type) where
  connect : Transport → σ → Reply σ
  write : Bytes → σ → Reply σ
  next : σ → Utterance σ
  stopWrite : σ → Reply σ
  stopRead : σ → Reply σ
  pause : Span → σ → σ

/-- A peer whose bytes come in pieces. -/
structure Feed (σ : Type) where
  peer : σ
  /-- How many bytes more than one each of the coming reads brings at most. -/
  sizes : Nat → Nat
  taken : Nat := 0

/-- The feed once bytes were read in a number of pieces. -/
def Feed.after {σ : Type} (f : Feed σ) (r : Bytes × σ) (reads : Nat) : Feed σ :=
  ⟨r.2, fun i => f.sizes (i + reads), f.taken + r.1.length⟩

theorem Feed.after_after {σ : Type} (f : Feed σ) (r r' : Bytes × σ) (reads more : Nat) :
    (f.after r reads).after r' more = f.after (r.1 ++ r'.1, r'.2) (reads + more) := by
  simp only [after, length_append, Nat.add_assoc, Nat.add_comm more]

/-- What a connection gets to see of a reply. -/
def Reply.result {σ : Type} (feed : Feed σ) : Reply σ → Except IoError Unit × Feed σ
  | .ok s => (.ok (), { feed with peer := s })
  | .fault e => (.error e, feed)
  | .never => (.ok (), feed)

theorem Reply.result_eq_ok {σ : Type} {feed feed' : Feed σ} {reply : Reply σ}
    (h : reply.result feed = (.ok (), feed')) (hnever : reply ≠ .never) :
    ∃ s, reply = .ok s ∧ feed' = { feed with peer := s } := by
  cases reply with
  | ok s =>
    cases h
    exact ⟨s, rfl, rfl⟩
  | fault e => cases h
  | never => exact absurd rfl hnever

theorem Reply.result_eq_error {σ : Type} {feed feed' : Feed σ} {reply : Reply σ} {e : IoError}
    (h : reply.result feed = (.error e, feed')) : reply = .fault e := by
  cases reply <;> cases h
  rfl

namespace Peer

variable {σ : Type}

/-- Up to `n` of the bytes that a peer says, and its state after them. -/
def take (p : Peer σ) : Nat → σ → Bytes × σ
  | 0, s => ([], s)
  | n + 1, s =>
    match p.next s with
    | .byte b s' => (b :: (p.take n s').1, (p.take n s').2)
    | _ => ([], s)

/-- **The socket of a peer.**  A read brings the bytes of one piece. -/
def channel (p : Peer σ) : Channel (Feed σ) where
  connect transport f := (p.connect transport f.peer).result f
  write data f := (p.write data f.peer).result f
  read n f :=
    let r := p.take (min n (f.sizes 0 + 1)) f.peer
    (match p.next f.peer with
      | .fault e => .error e
      | _ => .ok r.1,
      f.after r 1)
  stopWrite f := (p.stopWrite f.peer).result f
  stopRead f := (p.stopRead f.peer).result f
  pause span f := { f with peer := p.pause span f.peer }
  clock _ := 0
  waitUntil _ f := f

/-! ## Reading in pieces -/

section Take

variable (p : Peer σ)

theorem length_take_le (n : Nat) (s : σ) : (p.take n s).1.length ≤ n := by
  induction n generalizing s with
  | zero => exact Nat.le_refl 0
  | succ n ih =>
    rw [take]
    split
    · exact Nat.succ_le_succ (ih _)
    · exact Nat.zero_le _

/-- A peer that does not say a byte. -/
def Stops (s : σ) : Prop := ∀ b s', p.next s ≠ .byte b s'

theorem take_of_stops {s : σ} (h : p.Stops s) (n : Nat) : p.take n s = ([], s) := by
  cases n with
  | zero => rfl
  | succ n =>
    rw [take]
    split
    · rename_i b s' hnext
      exact absurd hnext (h b s')
    · rfl

/-- A peer that says less than it may has nothing more to say. -/
theorem stops_of_short {n : Nat} {s : σ} (h : (p.take n s).1.length < n) :
    p.Stops (p.take n s).2 := by
  induction n generalizing s with
  | zero => exact absurd h (Nat.not_lt_zero _)
  | succ n ih =>
    rw [take] at h ⊢
    split at h
    · exact ih (Nat.lt_of_succ_lt_succ h)
    · rename_i hnot
      exact hnot

theorem take_add (m n : Nat) (s : σ) :
    p.take (m + n) s =
      ((p.take m s).1 ++ (p.take n (p.take m s).2).1, (p.take n (p.take m s).2).2) := by
  induction m generalizing s with
  | zero => rw [Nat.zero_add]; rfl
  | succ m ih =>
    rw [Nat.succ_add]
    cases hnext : p.next s with
    | byte b s' => simp only [take, hnext, ih, cons_append]
    | _ =>
      have hstops : p.Stops s := by simp [Stops, hnext]
      simp [p.take_of_stops hstops]

/-- A piece of at most `n` bytes and what is then left of `n` bytes are `n` bytes. -/
theorem take_piece {size n : Nat} (h : size ≤ n) (s : σ) :
    p.take n s =
      ((p.take size s).1 ++ (p.take (n - (p.take size s).1.length) (p.take size s).2).1,
        (p.take (n - (p.take size s).1.length) (p.take size s).2).2) := by
  obtain ⟨more, rfl⟩ := Nat.exists_eq_add_of_le h
  rw [take_add]
  -- a short piece is the last one: the peer has stopped, and more asked of it brings nothing
  rcases Nat.lt_or_eq_of_le (p.length_take_le size s) with hshort | hfull
  · rw [p.take_of_stops (p.stops_of_short hshort), p.take_of_stops (p.stops_of_short hshort)]
  · rw [hfull, Nat.add_sub_cancel_left]

/-- What reading `n` bytes comes to. -/
def outcome (n : Nat) (s : σ) : Except IoError Bytes :=
  if (p.take n s).1.length < n then
    match p.next (p.take n s).2 with
    | .fault e => .error e
    | _ => .ok (p.take n s).1
  else .ok (p.take n s).1

theorem outcome_piece {size n : Nat} (h : size ≤ n) (s : σ) (acc : Bytes) :
    (p.outcome n s).map (acc ++ ·) =
      (p.outcome (n - (p.take size s).1.length) (p.take size s).2).map
        (acc ++ (p.take size s).1 ++ ·) := by
  unfold outcome
  rw [p.take_piece h]
  dsimp only
  rw [length_append]
  by_cases hshort : (p.take (n - (p.take size s).1.length) (p.take size s).2).1.length
      < n - (p.take size s).1.length
  · rw [if_pos hshort, if_pos (by omega)]
    split <;> simp [Except.map]
  · rw [if_neg hshort, if_neg (by omega)]
    simp [Except.map]

/-- **Reading does not depend on the pieces.** -/
theorem readAll_eq (fuel n : Nat) (acc : Bytes) (f : Feed σ) (hfuel : n ≤ fuel) :
    ∃ reads, p.channel.readAll fuel acc n f =
      ((p.outcome n f.peer).map (acc ++ ·), f.after (p.take n f.peer) reads) := by
  induction fuel generalizing n acc f with
  | zero =>
    obtain rfl : n = 0 := Nat.le_zero.mp hfuel
    exact ⟨0, by simp [Channel.readAll, outcome, take, Except.map, Feed.after]⟩
  | succ fuel ih =>
    cases n with
    | zero => exact ⟨0, by simp [Channel.readAll, outcome, take, Except.map, Feed.after]⟩
    | succ n =>
      unfold Channel.readAll
      cases hnext : p.next f.peer with
      | byte b s =>
        obtain ⟨more, hmore⟩ : ∃ more, min (n + 1) (f.sizes 0 + 1) = more + 1 :=
          ⟨min n (f.sizes 0), by omega⟩
        have hle : more + 1 ≤ n + 1 := by omega
        have hread : p.channel.read (n + 1) f =
            (.ok (p.take (more + 1) f.peer).1, f.after (p.take (more + 1) f.peer) 1) := by
          simp [channel, hnext, hmore]
        have hpiece : (p.take (more + 1) f.peer).1 = b :: (p.take more s).1 := by
          simp only [take, hnext]
        have hlength : (p.take (more + 1) f.peer).1.length ≤ n + 1 :=
          Nat.le_trans (p.length_take_le _ _) hle
        obtain ⟨reads, hrest⟩ := ih (n + 1 - (p.take (more + 1) f.peer).1.length)
          (acc ++ (p.take (more + 1) f.peer).1) (f.after (p.take (more + 1) f.peer) 1)
          (by rw [hpiece, length_cons]; omega)
        refine ⟨1 + reads, ?_⟩
        rw [hread, hpiece]
        dsimp only
        rw [← hpiece, take_of_length_le hlength, hrest, p.outcome_piece hle,
          p.take_piece hle, Feed.after_after]
        rfl
      | _ =>
        have hstops : p.Stops f.peer := by simp [Stops, hnext]
        exact ⟨1, by simp [channel, outcome, hnext, p.take_of_stops hstops, Except.map]⟩

end Take

end Peer

/-! ## What a command comes to -/

/-- What a command expects to hear. -/
def Command.heard : Command → Bytes
  | .recv expected => expected
  | _ => []

/-- All that commands expect to hear, in their order. -/
def heard (commands : List Command) : Bytes := commands.flatMap Command.heard

/-- How a connection stands with its peer. -/
structure Standing (σ : Type) where
  opened : Bool := false
  writerClosed : Bool := false
  readerClosed : Bool := false
  peer : σ

/-- Whether a command needs the socket. -/
def Standing.needs {σ : Type} (f : Standing σ) : Command → Bool
  | .connect => true
  | .send _ => !f.writerClosed
  | .recv _ => !f.readerClosed
  | .stopWrite => !f.writerClosed
  | .stopRead => !f.readerClosed
  | .done => !f.writerClosed || !f.readerClosed
  | _ => false

/-- How a conversation can fail through its peer. -/
inductive Failing where
  | wrongAnswer
  | presentation

/-- The failures of a kind. -/
def Failing.Is : Failing → InteractError → Prop
  | .wrongAnswer, .wrongAnswer _ | .presentation, .presentation _ => True
  | _, _ => False

theorem Failing.Is.unique {kind kind' : Failing} {e : InteractError} (h : kind.Is e)
    (h' : kind'.Is e) : kind = kind' := by
  cases kind <;> cases kind' <;> cases e <;> first | rfl | exact h.elim | exact h'.elim

theorem Failing.is_wrongAnswer_iff {e : InteractError} :
    Failing.wrongAnswer.Is e ↔ ∃ m, e = .wrongAnswer m := by
  cases e <;> simp [Failing.Is]

theorem Failing.is_presentation_iff {e : InteractError} :
    Failing.presentation.Is e ↔ ∃ m, e = .presentation m := by
  cases e <;> simp [Failing.Is]

/-- What a conversation can come to: a failure, or its end. -/
inductive Fate (σ : Type) where
  | failing (kind : Failing)
  | ending (f : Standing σ)

namespace Peer

variable {σ : Type} (p : Peer σ) (transport : Transport)

/-- The connection once its socket is open, if the command needs it. -/
def reach (f : Standing σ) (c : Command) : Reply (Standing σ) :=
  if f.opened || !f.needs c then .ok f
  else (p.connect transport f.peer).map fun s => { f with opened := true, peer := s }

/-- The connection after something was said. -/
def say (data : Bytes) (f : Standing σ) : Reply (Standing σ) :=
  if data.isEmpty then .ok f else (p.write data f.peer).map fun s => { f with peer := s }

variable (f : Standing σ)

/-- The connection with its writing side closed. -/
def hush : Reply (Standing σ) :=
  if f.writerClosed then .ok f
  else (p.stopWrite f.peer).map fun s => { f with writerClosed := true, peer := s }

/-- The connection with its reading side closed. -/
def deafen : Reply (Standing σ) :=
  if f.readerClosed then .ok f
  else (p.stopRead f.peer).map fun s => { f with readerClosed := true, peer := s }

/-- **A command gets a wrong answer**, on a socket that is open: it uses a side that is closed,
hears as much as it expects but something else, or finds more where the end should be. -/
def Wrong : Command → Prop
  | .send _ => f.writerClosed = true
  | .recv expected =>
    f.readerClosed = true ∨
      (p.take expected.length f.peer).1.length = expected.length ∧
        (p.take expected.length f.peer).1 ≠ expected
  | .done =>
    f.readerClosed = false ∧ ∃ f' b s, p.hush f = .ok f' ∧ p.next f'.peer = .byte b s
  | _ => False

/-- **The operation of a command fails, or its answer ends too early**, on a socket that is open.
Whether what came is right does not matter then. -/
def Faulty : Command → Prop
  | .send data => f.writerClosed = false ∧ ∃ e, p.say data f = .fault e
  | .recv expected =>
    f.readerClosed = false ∧ (p.take expected.length f.peer).1.length < expected.length ∧
      (p.next (p.take expected.length f.peer).2 = .ending ∨
        ∃ e, p.next (p.take expected.length f.peer).2 = .fault e)
  | .stopWrite => ∃ e, p.hush f = .fault e
  | .stopRead => ∃ e, p.deafen f = .fault e
  | .done =>
    (∃ e, p.hush f = .fault e) ∨
      f.readerClosed = false ∧ ∃ f' e, p.hush f = .ok f' ∧ p.next f'.peer = .fault e
  | _ => False

/-- **The operation never comes back**, on a socket that is open. -/
def Waits : Command → Prop
  | .send data => f.writerClosed = false ∧ p.say data f = .never
  | .recv expected =>
    f.readerClosed = false ∧ (p.take expected.length f.peer).1.length < expected.length ∧
      p.next (p.take expected.length f.peer).2 = .never
  | .stopWrite => p.hush f = .never
  | .stopRead => p.deafen f = .never
  | .done =>
    p.hush f = .never ∨
      f.readerClosed = false ∧ ∃ f', p.hush f = .ok f' ∧ p.next f'.peer = .never
  | _ => False

/-- **Where a command leads that goes well**, on a socket that is open. -/
def After : Command → Standing σ → Prop
  | .sleep span, f' => f' = { f with peer := p.pause span f.peer }
  | .send data, f' => f.writerClosed = false ∧ p.say data f = .ok f'
  | .recv expected, f' =>
    f.readerClosed = false ∧ (p.take expected.length f.peer).1 = expected ∧
      f' = { f with peer := (p.take expected.length f.peer).2 }
  | .stopWrite, f' => p.hush f = .ok f'
  | .stopRead, f' => p.deafen f = .ok f'
  | .done, f' => p.hush f = .ok f' ∧ (f.readerClosed = false → p.next f'.peer = .ending)
  | _, f' => f' = f

/-- How many bytes a command reads, on a socket that is open. -/
def haul : Command → Nat
  | .recv expected =>
    if f.readerClosed then 0 else (p.take expected.length f.peer).1.length
  | _ => 0

/-- The failures of an operation, by their kind. -/
def Spoils (c : Command) : Failing → Prop
  | .wrongAnswer => p.Wrong f c
  | .presentation => p.Faulty f c

/-- A command that goes well, on a socket that is opened for it, with others to follow. -/
def Passes (f : Standing σ) (c : Command) (f' : Standing σ) : Prop :=
  c ≠ .done ∧ ∃ f₁, p.reach transport f c = .ok f₁ ∧ p.After f₁ c f'

/-- A command that fails: its socket cannot be opened, or its operation fails. -/
def Fails (kind : Failing) (f : Standing σ) (c : Command) : Prop :=
  (kind = .presentation ∧ ∃ e, p.reach transport f c = .fault e) ∨
    ∃ f₁, p.reach transport f c = .ok f₁ ∧ p.Spoils f₁ c kind

/-- Commands that all go well. -/
inductive GoesWell (transport : Transport) : Standing σ → List Command → Standing σ → Prop
  | nil (f : Standing σ) : GoesWell transport f [] f
  | cons {f f₁ f' : Standing σ} {c : Command} {body : List Command}
      (hpass : p.Passes transport f c f₁) (hrest : GoesWell transport f₁ body f') :
      GoesWell transport f (c :: body) f'

/-- **The first command that fails**, after commands that all go well. -/
def FirstFailure (kind : Failing) (f : Standing σ) (commands : List Command) : Prop :=
  ∃ body c rest f', commands = body ++ c :: rest ∧ p.GoesWell transport f body f' ∧
    p.Fails transport kind f' c

/-- **What commands come to.** -/
def ComesTo (fate : Fate σ) : Standing σ → List Command → Prop
  | f, [] => fate = .ending f
  | f, c :: rest =>
    (∃ kind, fate = .failing kind ∧ p.Fails transport kind f c) ∨
      ∃ f₁ f', p.reach transport f c = .ok f₁ ∧ p.After f₁ c f' ∧
        if c = .done then fate = .ending f' else ComesTo fate f' rest

variable {p} {transport : Transport} {kind : Failing} {f f' : Standing σ} {c : Command}

theorem GoesWell.concat {body : List Command} {f₁ : Standing σ}
    (h : p.GoesWell transport f body f₁) (hpass : p.Passes transport f₁ c f') :
    p.GoesWell transport f (body ++ [c]) f' := by
  induction h with
  | nil f => exact .cons hpass (.nil f')
  | cons hfirst _ ih => exact .cons hfirst (ih hpass)

theorem not_firstFailure_nil : ¬ p.FirstFailure transport kind f [] := by
  rintro ⟨body, c, rest, f', hcommands, -⟩
  exact absurd hcommands.symm (by simp)

variable {rest : List Command} {fate : Fate σ}

theorem firstFailure_cons_iff :
    p.FirstFailure transport kind f (c :: rest) ↔
      p.Fails transport kind f c ∨
        ∃ f', p.Passes transport f c f' ∧ p.FirstFailure transport kind f' rest := by
  constructor
  · rintro ⟨body, c', rest', f', hcommands, hwell, hfails⟩
    cases hwell with
    | nil =>
      cases hcommands
      exact .inl hfails
    | cons hpass hrest =>
      cases hcommands
      exact .inr ⟨_, hpass, _, c', rest', f', rfl, hrest, hfails⟩
  · rintro (hfails | ⟨f₁, hpass, body, c', rest', f', rfl, hwell, hfails⟩)
    · exact ⟨[], c, rest, f, rfl, .nil f, hfails⟩
    · exact ⟨c :: body, c', rest', f', rfl, .cons hpass hwell, hfails⟩

theorem reach_of_settled (h : f.needs c = true → f.opened = true) :
    p.reach transport f c = .ok f := by
  refine if_pos ?_
  cases hneeds : f.needs c with
  | true => simp [h hneeds]
  | false => simp

/-- **Commands come to a failure if one of them is the first to fail.** -/
theorem comesTo_failing_iff {commands : List Command} :
    p.ComesTo transport (.failing kind) f commands ↔ p.FirstFailure transport kind f commands := by
  induction commands generalizing f with
  | nil => simp [ComesTo, not_firstFailure_nil]
  | cons c rest ih =>
    rw [firstFailure_cons_iff, ComesTo]
    refine or_congr (by simp) ?_
    by_cases hc : c = .done
    · simp [Passes, hc]
    · simp only [Passes, hc, if_false, ih]
      grind

/-- **A command whose socket is open fails, or leads to what comes after it.** -/
theorem comesTo_of_ok {f₁ : Standing σ} (h : p.reach transport f c = .ok f₁) :
    p.ComesTo transport fate f (c :: rest) ↔
      (∃ kind, fate = .failing kind ∧ p.Spoils f₁ c kind) ∨ ∃ f', p.After f₁ c f' ∧
        if c = .done then fate = .ending f' else p.ComesTo transport fate f' rest := by
  simp [ComesTo, Fails, h]

theorem comesTo_of_fault {e : IoError} (h : p.reach transport f c = .fault e) :
    p.ComesTo transport fate f (c :: rest) ↔ fate = .failing .presentation := by
  simp [ComesTo, Fails, h]

theorem not_comesTo_of_never (h : p.reach transport f c = .never) :
    ¬ p.ComesTo transport fate f (c :: rest) := by
  simp [ComesTo, Fails, h]

/-- **A command for a latch leaves a connection and its peer alone.** -/
theorem latch_alone {m : Nat} (hc : c.latch? = some m) (p : Peer σ) (transport : Transport)
    (f : Standing σ) :
    p.reach transport f c = .ok f ∧ (∀ kind, ¬ p.Spoils f c kind) ∧
      ∀ f', p.After f c f' ↔ f' = f := by
  cases c with
  | wait m | arrive m =>
    exact ⟨reach_of_settled nofun, fun kind => by cases kind <;> exact id, fun _ => Iff.rfl⟩
  | _ => cases hc

theorem comesTo_of_latch {m : Nat} (hc : c.latch? = some m) :
    p.ComesTo transport fate f (c :: rest) ↔ p.ComesTo transport fate f rest := by
  obtain ⟨hreach, hspoils, hafter⟩ := latch_alone hc p transport f
  have hdone : c ≠ .done := by
    rintro rfl
    cases hc
  simp [comesTo_of_ok hreach, hspoils, hafter, hdone]

theorem hush_readerClosed (h : p.hush f = .ok f') : f'.readerClosed = f.readerClosed := by
  unfold hush at h
  split at h
  · cases h
    rfl
  · cases hstop : p.stopWrite f.peer <;> rw [hstop] at h <;> cases h
    rfl

/-! A command fails in one way only, and one that fails or never comes back leads nowhere. -/

theorem Wrong.not_faulty (h : p.Wrong f c) : ¬ p.Faulty f c := by
  intro hfaulty
  cases c with
  | send data => exact Bool.noConfusion (h.symm.trans hfaulty.1)
  | recv expected =>
    rcases h with hclosed | ⟨hlength, -⟩
    · exact Bool.noConfusion (hclosed.symm.trans hfaulty.1)
    · exact Nat.ne_of_lt hfaulty.2.1 hlength
  | done =>
    obtain ⟨-, f', b, s, hhush, hnext⟩ := h
    simp [Faulty, hhush, hnext] at hfaulty
  | _ => exact h.elim

theorem Spoils.unique {kind' : Failing} (h : p.Spoils f c kind) (h' : p.Spoils f c kind') :
    kind = kind' := by
  cases kind <;> cases kind'
  · rfl
  · exact absurd h' (Wrong.not_faulty h)
  · exact absurd h (Wrong.not_faulty h')
  · rfl

theorem Spoils.not_after (h : p.Spoils f c kind) : ¬ p.After f c f' := by
  intro hafter
  cases kind with
  | wrongAnswer =>
    cases c with
    | send data => exact Bool.noConfusion (hafter.1.symm.trans h)
    | recv expected =>
      rcases h with hclosed | ⟨-, hdiffers⟩
      · exact Bool.noConfusion (hafter.1.symm.trans hclosed)
      · exact hdiffers hafter.2.1
    | done =>
      obtain ⟨hreader, f'', b, s, hhush, hnext⟩ := h
      obtain rfl := Reply.ok.inj (hhush.symm.trans hafter.1)
      exact absurd (hnext.symm.trans (hafter.2 hreader)) nofun
    | _ => exact h.elim
  | presentation =>
    cases c with
    | send data =>
      obtain ⟨-, e, hfault⟩ := h
      exact absurd (hfault.symm.trans hafter.2) (by simp)
    | recv expected => exact Nat.ne_of_lt h.2.1 (congrArg length hafter.2.1)
    | stopWrite | stopRead =>
      obtain ⟨e, hfault⟩ := h
      exact absurd (hfault.symm.trans hafter) (by simp)
    | done =>
      rcases h with ⟨e, hfault⟩ | ⟨hreader, f'', e, hhush, hnext⟩
      · exact absurd (hfault.symm.trans hafter.1) nofun
      · obtain rfl := Reply.ok.inj (hhush.symm.trans hafter.1)
        exact absurd (hnext.symm.trans (hafter.2 hreader)) nofun
    | _ => exact h.elim

theorem Waits.not_spoils (h : p.Waits f c) : ¬ p.Spoils f c kind := by
  cases c with
  | send data =>
    obtain ⟨hwriter, hnever⟩ := h
    cases kind <;> simp [Spoils, Wrong, Faulty, hwriter, hnever]
  | recv expected =>
    obtain ⟨hreader, hshort, hnever⟩ := h
    cases kind with
    | wrongAnswer => simp [Spoils, Wrong, hreader, Nat.ne_of_lt hshort]
    | presentation => simp [Spoils, Faulty, hnever]
  | stopWrite =>
    have hnever : p.hush f = .never := h
    cases kind <;> simp [Spoils, Wrong, Faulty, hnever]
  | stopRead =>
    have hnever : p.deafen f = .never := h
    cases kind <;> simp [Spoils, Wrong, Faulty, hnever]
  | done =>
    rcases h with hnever | ⟨hreader, f', hhush, hnever⟩
    · cases kind <;> simp [Spoils, Wrong, Faulty, hnever]
    · cases kind <;> simp [Spoils, Wrong, Faulty, hhush, hnever]
  | _ => exact h.elim

theorem Waits.not_after (h : p.Waits f c) : ¬ p.After f c f' := by
  cases c with
  | send data =>
    obtain ⟨-, hnever⟩ := h
    simp [After, hnever]
  | recv expected =>
    rintro ⟨-, htake, -⟩
    exact absurd h.2.1 (by simp [htake])
  | stopWrite =>
    have hnever : p.hush f = .never := h
    simp [After, hnever]
  | stopRead =>
    have hnever : p.deafen f = .never := h
    simp [After, hnever]
  | done =>
    rintro ⟨hhush, hends⟩
    rcases h with hnever | ⟨hreader, f'', hhush', hnever⟩
    · exact absurd (hnever.symm.trans hhush) nofun
    · obtain rfl := Reply.ok.inj (hhush'.symm.trans hhush)
      exact absurd (hnever.symm.trans (hends hreader)) nofun
  | _ => exact h.elim

theorem After.unique {f₁ f₂ : Standing σ} (h₁ : p.After f c f₁) (h₂ : p.After f c f₂) :
    f₁ = f₂ := by
  cases c with
  | send data => exact Reply.ok.inj (h₁.2.symm.trans h₂.2)
  | recv expected => exact h₁.2.2.trans h₂.2.2.symm
  | stopWrite | stopRead => exact Reply.ok.inj (h₁.symm.trans h₂)
  | done => exact Reply.ok.inj (h₁.1.symm.trans h₂.1)
  | _ => exact h₁.trans h₂.symm

/-- **Commands that go well lead to one place only.** -/
theorem GoesWell.unique {body : List Command} {f₁ f₂ : Standing σ}
    (h₁ : p.GoesWell transport f body f₁) (h₂ : p.GoesWell transport f body f₂) : f₁ = f₂ := by
  induction h₁ with
  | nil f =>
    cases h₂
    rfl
  | cons hpass₁ _ ih =>
    obtain ⟨-, f', hreach₁, hafter₁⟩ := hpass₁
    cases h₂ with
    | cons hpass₂ hrest₂ =>
      obtain ⟨-, f'', hreach₂, hafter₂⟩ := hpass₂
      obtain rfl := Reply.ok.inj (hreach₁.symm.trans hreach₂)
      obtain rfl := hafter₁.unique hafter₂
      exact ih hrest₂

/-- Where a command leads that goes well, it has read what it expects to hear. -/
theorem After.haul_eq (h : p.After f c f') : p.haul f c = c.heard.length := by
  cases c with
  | recv expected =>
    obtain ⟨hreader, htake, -⟩ := h
    simp [haul, hreader, htake, Command.heard]
  | _ => rfl

end Peer

namespace Task

variable {σ : Type} {p : Peer σ} {t t' : Task (Feed σ)} {c : Command} {kind : Failing}

def standing (t : Task (Feed σ)) : Standing σ :=
  ⟨t.opened, t.writerClosed, t.readerClosed, t.channel.peer⟩

@[simp] theorem standing_opened (t : Task (Feed σ)) : t.standing.opened = t.opened := rfl

@[simp] theorem standing_writerClosed (t : Task (Feed σ)) :
    t.standing.writerClosed = t.writerClosed := rfl

@[simp] theorem standing_readerClosed (t : Task (Feed σ)) :
    t.standing.readerClosed = t.readerClosed := rfl

@[simp] theorem standing_peer (t : Task (Feed σ)) : t.standing.peer = t.channel.peer := rfl

theorem usesSocket_eq (t : Task (Feed σ)) (c : Command) : t.usesSocket c = t.standing.needs c := by
  cases c <;> rfl

/-! ## What an operation comes to -/

/-- **An operation comes to what its command does**: it fails in the ways that the command can,
leads where the command leads, and reads as much. -/
structure Answers (p : Peer σ) (t : Task (Feed σ)) (c : Command)
    (r : Except IoError Bytes × Task (Feed σ)) : Prop where
  spoils : ∀ kind, (∃ e, (r.2.judge c r.1).2 = some e ∧ kind.Is e) ↔ p.Spoils t.standing c kind
  after : ∀ f, ((r.2.judge c r.1).2 = none ∧ r.2.standing = f) ↔ p.After t.standing c f
  haul : c ≠ .done → r.2.channel.taken = t.channel.taken + p.haul t.standing c

variable {r : Except IoError Bytes × Task (Feed σ)}

theorem answers_of_spoils (hspoils : p.Spoils t.standing c kind)
    (hjudge : ∃ e, (r.2.judge c r.1).2 = some e ∧ kind.Is e)
    (hhaul : c ≠ .done → r.2.channel.taken = t.channel.taken + p.haul t.standing c) :
    Answers p t c r := by
  obtain ⟨e, he, his⟩ := hjudge
  refine ⟨fun kind' => ?_, fun f => ?_, hhaul⟩
  · rw [he]
    constructor
    · rintro ⟨e', he', his'⟩
      obtain rfl := Option.some.inj he'
      rwa [his'.unique his]
    · intro h
      rw [h.unique hspoils]
      exact ⟨e, rfl, his⟩
  · simp [he, hspoils.not_after]

theorem answers_of_after (hafter : p.After t.standing c r.2.standing)
    (hjudge : (r.2.judge c r.1).2 = none)
    (hhaul : c ≠ .done → r.2.channel.taken = t.channel.taken + p.haul t.standing c) :
    Answers p t c r := by
  refine ⟨fun kind => ?_, fun f => ?_, hhaul⟩
  · simpa [hjudge] using fun h => Peer.Spoils.not_after h hafter
  · constructor
    · rintro ⟨-, rfl⟩
      exact hafter
    · exact fun h => ⟨hjudge, hafter.unique h⟩

theorem judge_error (t : Task (Feed σ)) (c : Command) (e : IoError) :
    ∃ e', (t.judge c (.error e)).2 = some e' ∧ Failing.presentation.Is e' := by
  cases c <;> exact ⟨_, rfl, trivial⟩

/-- A task does as a peer replies. -/
structure Obeys {α : Type} (reply : Reply (Standing σ)) (t : Task (Feed σ))
    (r : Except IoError α × Task (Feed σ)) : Prop where
  ok : ∀ f, reply = .ok f → (∃ a, r.1 = .ok a) ∧ r.2.standing = f
  fault : ∀ e, reply = .fault e → r.1 = .error e
  taken : r.2.channel.taken = t.channel.taken

theorem obeys_closeWriter (t : Task (Feed σ)) :
    Obeys (p.hush t.standing) t (t.closeWriter p.channel) := by
  unfold closeWriter Peer.hush
  cases hw : t.writerClosed with
  | true => exact ⟨by simp [standing, hw], by simp [hw], rfl⟩
  | false =>
    cases hstop : p.stopWrite t.channel.peer <;>
      exact ⟨by simp [Peer.channel, hstop, Reply.result, Reply.map, standing, hw],
        by simp [Peer.channel, hstop, Reply.result, Reply.map, hw],
        by simp [Peer.channel, hstop, Reply.result]⟩

theorem obeys_closeReader (t : Task (Feed σ)) :
    Obeys (p.deafen t.standing) t (t.closeReader p.channel) := by
  unfold closeReader Peer.deafen
  cases hr : t.readerClosed with
  | true => exact ⟨by simp [standing, hr], by simp [hr], rfl⟩
  | false =>
    cases hstop : p.stopRead t.channel.peer <;>
      exact ⟨by simp [Peer.channel, hstop, Reply.result, Reply.map, standing, hr],
        by simp [Peer.channel, hstop, Reply.result, Reply.map, hr],
        by simp [Peer.channel, hstop, Reply.result]⟩

theorem obeys_send {data : Bytes} (hw : t.writerClosed = false) :
    Obeys (p.say data t.standing) t (t.operate p.channel (.send data)) := by
  unfold operate Peer.say
  by_cases hdata : data = []
  · exact ⟨by simp [hdata], by simp [hdata], by simp [hdata]⟩
  · cases hwrite : p.write data t.channel.peer <;>
      exact ⟨by simp [Peer.channel, hwrite, Reply.result, Reply.map, standing, hw, hdata],
        by simp [Peer.channel, hwrite, Reply.result, Reply.map, hw, hdata],
        by simp [Peer.channel, hwrite, Reply.result, hw, hdata]⟩

theorem obeys_map {reply : Reply (Standing σ)} {r : Except IoError Unit × Task (Feed σ)}
    (h : Obeys reply t r) : Obeys reply t (r.1.map fun _ => ([] : Bytes), r.2) where
  ok f hf := by
    obtain ⟨⟨a, ha⟩, hstanding⟩ := h.ok f hf
    exact ⟨⟨[], by rw [ha]; rfl⟩, hstanding⟩
  fault e he := by
    rw [h.fault e he]
    rfl
  taken := h.taken

/-- **A command that is a reply of the peer**: it fails as the reply does, and leads where the reply
leads. -/
theorem Obeys.answers {reply : Reply (Standing σ)} (h : Obeys reply t r) (hnever : reply ≠ .never)
    (hfaulty : ∀ e, reply = .fault e → p.Faulty t.standing c)
    (hafter : ∀ f, reply = .ok f → p.After t.standing c f) (hhaul : p.haul t.standing c = 0)
    (hjudge : ∀ bytes, r.1 = .ok bytes → (r.2.judge c (.ok bytes)).2 = none) : Answers p t c r := by
  have htaken : r.2.channel.taken = t.channel.taken + p.haul t.standing c := by
    rw [hhaul, h.taken, Nat.add_zero]
  cases reply with
  | ok f =>
    obtain ⟨⟨bytes, hbytes⟩, rfl⟩ := h.ok f rfl
    have hnone : (r.2.judge c r.1).2 = none := by rw [hbytes, hjudge bytes hbytes]
    exact answers_of_after (hafter _ rfl) hnone fun _ => htaken
  | fault e =>
    have hspoils : p.Spoils t.standing c .presentation := hfaulty e rfl
    refine answers_of_spoils hspoils ?_ fun _ => htaken
    rw [h.fault e rfl]
    exact judge_error r.2 c e
  | never => exact absurd rfl hnever

theorem answers_send {data : Bytes} (h : ¬ p.Waits t.standing (.send data)) :
    Answers p t (.send data) (t.operate p.channel (.send data)) := by
  cases hw : t.writerClosed with
  | true =>
    have hspoils : p.Spoils t.standing (.send data) .wrongAnswer := hw
    have hoperate : t.operate p.channel (.send data) = (.ok [], t) := by
      simp [operate, hw]
    rw [hoperate]
    exact answers_of_spoils hspoils (by simp [judge, hw, Failing.Is]) fun _ => rfl
  | false =>
    have hwriter : (t.operate p.channel (.send data)).2.writerClosed = false := by
      simp only [operate]
      split
      · exact hw
      · split <;> exact hw
    exact (obeys_send hw).answers (fun hnever => h ⟨hw, hnever⟩) (fun e he => ⟨hw, e, he⟩)
      (fun f hf => ⟨hw, hf⟩) rfl fun bytes _ => by simp [judge, hwriter]

theorem answers_stopWrite (h : ¬ p.Waits t.standing .stopWrite) :
    Answers p t .stopWrite (t.operate p.channel .stopWrite) :=
  (obeys_map (obeys_closeWriter t)).answers h (fun e he => ⟨e, he⟩) (fun _ => id) rfl
    fun _ _ => rfl

theorem answers_stopRead (h : ¬ p.Waits t.standing .stopRead) :
    Answers p t .stopRead (t.operate p.channel .stopRead) :=
  (obeys_map (obeys_closeReader t)).answers h (fun e he => ⟨e, he⟩) (fun _ => id) rfl
    fun _ _ => rfl

/-- What a command that listens does, in whatever pieces the bytes come. -/
theorem operate_recv_feed (expected : Bytes) (hr : t.readerClosed = false) :
    ∃ reads, t.operate p.channel (.recv expected) =
      ((p.outcome expected.length t.channel.peer).map ([] ++ ·),
        { t with channel := t.channel.after (p.take expected.length t.channel.peer) reads }) := by
  obtain ⟨reads, hread⟩ :=
    p.readAll_eq expected.length expected.length [] t.channel (Nat.le_refl _)
  refine ⟨reads, ?_⟩
  simp only [operate, hr, hread]
  rfl

theorem answers_recv {expected : Bytes} (h : ¬ p.Waits t.standing (.recv expected)) :
    Answers p t (.recv expected) (t.operate p.channel (.recv expected)) := by
  cases hr : t.readerClosed with
  | true =>
    have hspoils : p.Spoils t.standing (.recv expected) .wrongAnswer := .inl hr
    have hoperate : t.operate p.channel (.recv expected) = (.ok [], t) := by
      simp [operate, hr]
    rw [hoperate]
    refine answers_of_spoils hspoils (by simp [judge, hr, Failing.Is]) fun _ => ?_
    simp [Peer.haul, hr]
  | false =>
    obtain ⟨reads, hoperate⟩ := operate_recv_feed (p := p) expected hr
    rw [hoperate]
    have hhaul : (t.channel.after (p.take expected.length t.channel.peer) reads).taken =
        t.channel.taken + p.haul t.standing (.recv expected) := by
      simp [Feed.after, Peer.haul, hr]
    -- the length alone decides between the two classes; the bytes count only if there are enough
    by_cases hshort : (p.take expected.length t.channel.peer).1.length < expected.length
    · cases hnext : p.next (p.take expected.length t.channel.peer).2 with
      | byte b s => exact absurd hnext (p.stops_of_short hshort b s)
      | ending =>
        have hspoils : p.Spoils t.standing (.recv expected) .presentation :=
          ⟨hr, hshort, .inl hnext⟩
        refine answers_of_spoils hspoils ?_ fun _ => hhaul
        simp [Peer.outcome, hshort, hnext, Except.map, judge, hr, Failing.Is]
      | fault e =>
        have hspoils : p.Spoils t.standing (.recv expected) .presentation :=
          ⟨hr, hshort, .inr ⟨e, hnext⟩⟩
        refine answers_of_spoils hspoils ?_ fun _ => hhaul
        simp only [Peer.outcome, hshort, hnext]
        exact judge_error _ _ e
      | never => exact absurd ⟨hr, hshort, hnext⟩ h
    · have hfull : (p.take expected.length t.channel.peer).1.length = expected.length :=
        Nat.le_antisymm (p.length_take_le _ _) (Nat.le_of_not_lt hshort)
      by_cases heq : (p.take expected.length t.channel.peer).1 = expected
      · refine answers_of_after ⟨hr, heq, rfl⟩ ?_ fun _ => hhaul
        simp [Peer.outcome, Except.map, judge, hr, heq]
      · have hspoils : p.Spoils t.standing (.recv expected) .wrongAnswer := .inr ⟨hfull, heq⟩
        refine answers_of_spoils hspoils ?_ fun _ => hhaul
        simp [Peer.outcome, hfull, Except.map, judge, hr, heq, Failing.Is]

theorem answers_done (h : ¬ p.Waits t.standing .done) :
    Answers p t .done (t.operate p.channel .done) := by
  have hobeys := obeys_closeWriter (p := p) t
  rcases hclose : t.closeWriter p.channel with ⟨outcome, t₁⟩
  rw [hclose] at hobeys
  cases hhush : p.hush t.standing with
  | never => exact absurd (.inl hhush) h
  | fault e =>
    obtain rfl : outcome = .error e := hobeys.fault e hhush
    have hspoils : p.Spoils t.standing .done .presentation := .inl ⟨e, hhush⟩
    have hoperate : t.operate p.channel .done = (.error e, t₁) := by
      simp only [operate, hclose]
    rw [hoperate]
    exact answers_of_spoils hspoils (judge_error _ _ e) (absurd rfl)
  | ok f =>
    obtain ⟨⟨_, rfl⟩, rfl⟩ := hobeys.ok f hhush
    have hreader : t₁.readerClosed = t.readerClosed := Peer.hush_readerClosed hhush
    cases hr : t.readerClosed with
    | true =>
      have hoperate : t.operate p.channel .done = (.ok [], t₁) := by
        simp only [operate, hclose, hreader, hr, if_true]
      rw [hoperate]
      exact answers_of_after ⟨hhush, by simp [hr]⟩ (by simp [judge, hreader, hr]) (absurd rfl)
    | false =>
      have hoperate : t.operate p.channel .done = ((p.channel.read tailProbe t₁.channel).1,
          { t₁ with channel := (p.channel.read tailProbe t₁.channel).2 }) := by
        simp only [operate, hclose, hreader, hr]
        rfl
      rw [hoperate]
      cases hnext : p.next t₁.channel.peer with
      | byte b s =>
        have hspoils : p.Spoils t.standing .done .wrongAnswer :=
          ⟨hr, t₁.standing, b, s, hhush, hnext⟩
        obtain ⟨more, hmore⟩ : ∃ more, min tailProbe (t₁.channel.sizes 0 + 1) = more + 1 :=
          ⟨min 9 (t₁.channel.sizes 0), by unfold tailProbe; omega⟩
        refine answers_of_spoils hspoils ?_ (absurd rfl)
        simp [Peer.channel, hnext, hmore, Peer.take, judge, hreader, hr, Failing.Is]
      | ending =>
        have hstops : p.Stops t₁.channel.peer := by simp [Peer.Stops, hnext]
        have hsame : (p.channel.read tailProbe t₁.channel).2.peer = t₁.channel.peer := by
          simp [Peer.channel, Feed.after, p.take_of_stops hstops]
        refine answers_of_after ⟨?_, fun _ => ?_⟩ ?_ (absurd rfl)
        · rw [hhush, standing, standing, hsame]
        · rw [standing_peer, hsame, hnext]
        · simp [Peer.channel, hnext, p.take_of_stops hstops, judge, hreader, hr]
      | fault e =>
        have hspoils : p.Spoils t.standing .done .presentation :=
          .inr ⟨hr, t₁.standing, e, hhush, hnext⟩
        refine answers_of_spoils hspoils ?_ (absurd rfl)
        simp only [Peer.channel, hnext]
        exact judge_error _ _ e
      | never => exact absurd (.inr ⟨hr, t₁.standing, hhush, hnext⟩) h

/-- **An operation that comes back comes to what its command does.** -/
theorem operate_answers (h : ¬ p.Waits t.standing c) : Answers p t c (t.operate p.channel c) := by
  cases c with
  | send data => exact answers_send h
  | recv expected => exact answers_recv h
  | stopWrite => exact answers_stopWrite h
  | stopRead => exact answers_stopRead h
  | done => exact answers_done h
  | _ => exact answers_of_after rfl rfl fun _ => rfl

end Task

end Judge
