import Judge.Proofs.FailureClasses
import Mathlib.Tactic.MkIffOfInductiveProp

/-!
# Proofs/Exchange — a conversation that succeeds is the scripted one

One connection and a peer that has something to say and says it whatever is done to it
(`Wire.peer`).  Whether their conversation succeeds is settled before it begins
(`Task.meets_iff_comesTo`), and here by what the two have to say: the commands come to their end if
and only if they agree with the peer, and then in one way only (`Wire.comesTo_ending_iff`).
-/

namespace Judge

open List

/-! ## What a script expects of a peer -/

/-- What a command says. -/
def Command.said : Command → Bytes
  | .send data => data
  | _ => []

/-- All that commands say, in their order. -/
def spoken (commands : List Command) : Bytes := commands.flatMap Command.said

/-- **Commands and a peer agree**: nobody uses a side after closing it, the peer says what the
commands expect to hear, and unless they stop listening it then ends. -/
structure Scripted (commands : List Command) (stream : Bytes) (ends : Bool) : Prop where
  writes : commands.Pairwise fun a b => a = .stopWrite → ∀ data, b ≠ .send data
  reads : commands.Pairwise fun a b => a = .stopRead → ∀ expected, b ≠ .recv expected
  hears : heard commands <+: stream
  ended : .stopRead ∉ commands → stream = heard commands ∧ ends = true

/-! ## A peer with something to say -/

/-- What a peer has yet to say, and what was done to it. -/
structure Wire where
  incoming : Bytes
  sent : Bytes := []
  opens : Nat := 0

namespace Wire

variable {ends : Bool} {f f' : Standing Wire} {c : Command} {q : List Command}
  {transport : Transport}

/-- **The peer of a wire.**  After what it has to say it ends, or stays silent for ever. -/
def peer (ends : Bool) : Peer Wire where
  connect _ w := .ok { w with opens := w.opens + 1 }
  write data w := .ok { w with sent := w.sent ++ data }
  next w :=
    match w.incoming with
    | b :: rest => .byte b { w with incoming := rest }
    | [] => if ends then .ending else .never
  stopWrite w := .ok w
  stopRead w := .ok w
  pause _ w := w

theorem take_eq (ends : Bool) (n : Nat) (w : Wire) :
    (peer ends).take n w = (w.incoming.take n, { w with incoming := w.incoming.drop n }) := by
  induction n generalizing w with
  | zero => rfl
  | succ n ih =>
    obtain ⟨incoming, sent, opens⟩ := w
    cases incoming with
    | nil => cases ends <;> rfl
    | cons b rest =>
      have hrest := ih { incoming := rest, sent, opens }
      rw [Peer.take, show (peer ends).next ⟨b :: rest, sent, opens⟩ = .byte b _ from rfl]
      simp [hrest]

theorem next_eq_ending_iff (w : Wire) :
    (peer ends).next w = .ending ↔ w.incoming = [] ∧ ends = true := by
  cases hw : w.incoming <;> cases ends <;> simp [peer, hw]

/-- The connection with its socket open, if the command needs it. -/
def touch (f : Standing Wire) (c : Command) : Standing Wire :=
  if f.opened || !f.needs c then f
  else { f with opened := true, peer := { f.peer with opens := f.peer.opens + 1 } }

/-- The connection after a command, on a socket that is open. -/
def follow (f : Standing Wire) : Command → Standing Wire
  | .send data => { f with peer := { f.peer with sent := f.peer.sent ++ data } }
  | .recv expected =>
    { f with peer := { f.peer with incoming := f.peer.incoming.drop expected.length } }
  | .stopWrite | .done => { f with writerClosed := true }
  | .stopRead => { f with readerClosed := true }
  | _ => f

/-- The connection after a command. -/
def move (f : Standing Wire) (c : Command) : Standing Wire := follow (touch f c) c

/-- A command goes well on a wire. -/
def Suits (ends : Bool) (f : Standing Wire) : Command → Prop
  | .send _ => f.writerClosed = false
  | .recv expected =>
    f.readerClosed = false ∧ f.peer.incoming.take expected.length = expected
  | .done => f.readerClosed = false → f.peer.incoming = [] ∧ ends = true
  | _ => True

theorem reach_eq : (peer ends).reach transport f c = .ok (touch f c) := by
  unfold Peer.reach touch
  split <;> rfl

theorem hush_eq : (peer ends).hush f = .ok { f with writerClosed := true } := by
  unfold Peer.hush
  split
  · rename_i h
    rw [← h]
  · rfl

theorem deafen_eq : (peer ends).deafen f = .ok { f with readerClosed := true } := by
  unfold Peer.deafen
  split
  · rename_i h
    rw [← h]
  · rfl

theorem say_eq (data : Bytes) :
    (peer ends).say data f = .ok { f with peer := { f.peer with sent := f.peer.sent ++ data } } := by
  unfold Peer.say
  split
  · rename_i h
    simp [isEmpty_iff.mp h]
  · rfl

/-- **Where a command leads on a wire.** -/
theorem after_iff : (peer ends).After f c f' ↔ Suits ends f c ∧ f' = follow f c := by
  cases c with
  | send data => simp [Peer.After, Suits, follow, say_eq, eq_comm (b := f')]
  | recv expected => simp [Peer.After, Suits, follow, take_eq, and_assoc]
  | stopWrite => simp [Peer.After, Suits, follow, hush_eq, eq_comm (b := f')]
  | stopRead => simp [Peer.After, Suits, follow, deafen_eq, eq_comm (b := f')]
  | done =>
    simp only [Peer.After, Suits, follow, hush_eq, Reply.ok.injEq, next_eq_ending_iff]
    grind
  | _ => simp [Peer.After, Suits, follow, peer]

/-! ## Agreement is kept -/

/-- Commands agree with what is left of the stream, for the sides as they are. -/
@[mk_iff]
structure Fits (ends : Bool) (f : Standing Wire) (commands : List Command) : Prop where
  silent : f.writerClosed = true → ∀ data, .send data ∉ commands
  deaf : f.readerClosed = true → ∀ expected, .recv expected ∉ commands
  writes : commands.Pairwise fun a b => a = .stopWrite → ∀ data, b ≠ .send data
  reads : commands.Pairwise fun a b => a = .stopRead → ∀ expected, b ≠ .recv expected
  hears : heard commands <+: f.peer.incoming
  ended : f.readerClosed = false → .stopRead ∉ commands →
    f.peer.incoming = heard commands ∧ ends = true

theorem fits_fresh_iff {stream : Bytes} :
    Fits ends { peer := { incoming := stream } } q ↔ Scripted q stream ends :=
  ⟨fun h => ⟨h.writes, h.reads, h.hears, h.ended rfl⟩,
    fun h => ⟨by simp, by simp, h.writes, h.reads, h.hears, fun _ => h.ended⟩⟩

theorem fits_done_iff : Fits ends f [.done] ↔ Suits ends f .done := by
  constructor
  · exact fun h hreader => h.ended hreader (by simp)
  · exact fun h => ⟨by simp, by simp, by simp, by simp, nil_prefix, fun hreader _ => h hreader⟩

/-- **Commands agree with a peer if the first one goes well and the others agree then.** -/
theorem fits_cons_iff (hc : c ≠ .done) :
    Fits ends f (c :: q) ↔ Suits ends f c ∧ Fits ends (follow f c) q := by
  cases c with
  | done => exact absurd rfl hc
  | send data =>
    cases hw : f.writerClosed with
    | true =>
      refine iff_of_false (fun h => h.silent hw data mem_cons_self) fun h => ?_
      exact absurd (hw.symm.trans h.1) nofun
    | false => simp [Suits, follow, fits_iff, heard, Command.heard, hw]
  | recv expected =>
    cases hr : f.readerClosed with
    | true =>
      refine iff_of_false (fun h => h.deaf hr expected mem_cons_self) fun h => ?_
      exact absurd (hr.symm.trans h.1.1) nofun
    | false =>
      by_cases hlead : expected <+: f.peer.incoming
      · obtain ⟨rest, hrest⟩ := hlead
        simp [Suits, follow, fits_iff, heard, Command.heard, hr, ← hrest]
      · refine iff_of_false (fun h => hlead ?_) fun h => hlead ?_
        · have hfirst : expected <+: heard (.recv expected :: q) := ⟨heard q, rfl⟩
          exact hfirst.trans h.hears
        · exact List.prefix_iff_eq_take.mpr h.1.2.symm
  | stopWrite | stopRead =>
    simp only [Suits, follow, fits_iff, pairwise_cons, mem_cons, heard, flatMap_cons,
      Command.heard]
    grind
  | _ => simp [Suits, follow, fits_iff, heard, Command.heard]

theorem fits_touch : Fits ends (touch f c) q ↔ Fits ends f q := by
  unfold touch
  split <;> simp [fits_iff]

/-- **Commands come to their end on a wire if and only if they agree with its peer**, and in one
way only. -/
theorem comesTo_ending_iff (hends : EndsInDone q) :
    (peer ends).ComesTo transport (.ending f') f q ↔ Fits ends f q ∧ f' = q.foldl move f := by
  induction q generalizing f with
  | nil =>
    obtain ⟨body, hbody, -⟩ := hends
    exact absurd hbody.symm (by simp)
  | cons c q ih =>
    rw [Peer.comesTo_of_ok reach_eq, ← fits_touch (c := c)]
    simp only [after_iff, reduceCtorEq, false_and, exists_false, false_or, foldl_cons]
    by_cases hc : c = .done
    · subst hc
      obtain rfl : q = [] := (show EndsInDone ([] ++ .done :: q) from hends).rest_eq_nil
      simp [fits_done_iff, move]
    · simp only [hc, if_false, fits_cons_iff hc, ih (hends.of_cons hc), move]
      grind

theorem sent_foldl (q : List Command) (f : Standing Wire) :
    (q.foldl move f).peer.sent = f.peer.sent ++ spoken q := by
  induction q generalizing f with
  | nil => simp [spoken]
  | cons c q ih =>
    have hmove : (move f c).peer.sent = f.peer.sent ++ c.said := by
      unfold move touch
      cases c <;> split <;> simp [follow, Command.said]
    rw [foldl_cons, ih, hmove, append_assoc]
    rfl

/-- **A connection is opened before it is used**, and once. -/
structure OpensOnce (f : Standing Wire) : Prop where
  opens : f.peer.opens = if f.opened then 1 else 0
  writer : f.writerClosed = true → f.opened = true
  reader : f.readerClosed = true → f.opened = true

theorem OpensOnce.touch (h : OpensOnce f) (c : Command) : OpensOnce (touch f c) := by
  unfold Wire.touch
  split
  · exact h
  · rename_i hclosed
    have hopened : f.opened = false := by
      rw [Bool.or_eq_true_iff, not_or] at hclosed
      simpa using hclosed.1
    exact ⟨by simp [h.opens, hopened], fun _ => rfl, fun _ => rfl⟩

/-- What closes a side has the socket open. -/
theorem OpensOnce.opened_touch (h : OpensOnce f) (hc : c = .stopWrite ∨ c = .stopRead ∨ c = .done) :
    (Wire.touch f c).opened = true := by
  cases hopened : f.opened with
  | true => simp [Wire.touch, hopened]
  | false =>
    have hwriter : f.writerClosed = false := by simpa [hopened] using h.writer
    have hreader : f.readerClosed = false := by simpa [hopened] using h.reader
    rcases hc with rfl | rfl | rfl <;>
      simp [Wire.touch, Standing.needs, hopened, hwriter, hreader]

theorem OpensOnce.move (h : OpensOnce f) (c : Command) : OpensOnce (move f c) := by
  have htouch := h.touch c
  cases c with
  | stopWrite | done => exact ⟨htouch.opens, fun _ => h.opened_touch (by simp), htouch.reader⟩
  | stopRead => exact ⟨htouch.opens, htouch.writer, fun _ => h.opened_touch (by simp)⟩
  | _ => exact ⟨htouch.opens, htouch.writer, htouch.reader⟩

theorem OpensOnce.foldl (h : OpensOnce f) (q : List Command) : OpensOnce (q.foldl Wire.move f) := by
  induction q generalizing f with
  | nil => exact h
  | cons c q ih => exact ih (h.move c)

theorem opens_foldl (hends : EndsInDone q) (h : OpensOnce f) : (q.foldl move f).peer.opens = 1 := by
  obtain ⟨body, rfl, -⟩ := hends
  have hopened : (move (body.foldl move f) .done).opened = true :=
    (h.foldl body).opened_touch (.inr (.inr rfl))
  rw [foldl_append]
  exact ((h.foldl body).move .done).opens.trans (if_pos hopened)

end Wire

/-! ## Whole conversations -/

namespace Task

/-- **A conversation that succeeds is the scripted one.**  A connection of a script meets a peer
that says `stream` in pieces of any sizes, and then ends or not.  Its conversation comes to an end,
and where it can go no further it has succeeded if and only if commands and peer agree.  The peer
has then heard what the commands say, over a connection that was opened once. -/
theorem exchange_succeeds_iff {text : List Char} {script : Script}
    (hread : Script.read text = .ok script) {k : ConnectionScript} (hk : k ∈ script.connections)
    (stream : Bytes) (ends : Bool) (sizes : Nat → Nat) {t : Task (Feed Wire)}
    (hrun : Relation.ReflTransGen (Talks (Wire.peer ends))
      (start k { peer := { incoming := stream }, sizes }) t) :
    Acc (fun t₂ t₁ => Talks (Wire.peer ends) t₁ t₂) t ∧
    ((∀ t', ¬ Talks (Wire.peer ends) t t') →
      (t.phase = .finished ↔ Scripted k.commands stream ends)) ∧
    (t.phase = .finished →
      t.channel.peer.sent = spoken k.commands ∧ t.channel.peer.opens = 1) := by
  have hends := Script.read_ends hread k hk
  have hcomes (f : Standing Wire) :
      (∃ t', Relation.ReflTransGen (Talks (Wire.peer ends)) t t' ∧ t'.Met (.ending f)) ↔
        Scripted k.commands stream ends ∧
          f = k.commands.foldl Wire.move { peer := { incoming := stream } } := by
    rw [meets_iff_comesTo hrun, Wire.comesTo_ending_iff hends, Wire.fits_fresh_iff]
  have hdone (hp : t.phase = .finished) := (hcomes t.standing).mp ⟨t, .refl, .inl ⟨hp, rfl⟩⟩
  refine ⟨(wellFounded_talks _).apply t, fun hstuck => ⟨fun hp => (hdone hp).1, fun hagrees => ?_⟩,
    fun hp => ?_⟩
  · obtain ⟨t', hrun', hmet⟩ := (hcomes _).mpr ⟨hagrees, rfl⟩
    rcases Relation.ReflTransGen.cases_head hrun' with rfl | ⟨t₁, hstep, -⟩
    · rcases hmet with ⟨hp, -⟩ | ⟨e, -, kind, hfate, -⟩
      · exact hp
      · cases hfate
    · exact absurd hstep (hstuck t₁)
  · have hstanding := (hdone hp).2
    rw [← standing_peer, hstanding, Wire.sent_foldl]
    exact ⟨nil_append _, Wire.opens_foldl hends ⟨rfl, by simp, by simp⟩⟩

/-! A script that greets, listens, and says no more after a barrier. -/

def greetingText : List Char := "a type tcp\na send hi\na recv ok\n=\na stop\n".toList

/-- The connection that is read from it. -/
def greeting : ConnectionScript where
  name := "a"
  transport := .tcp
  commands := [.send [104, 105, 10], .recv [111, 107, 10], .arrive 0, .stopWrite, .done]

theorem read_greetingText : Script.read greetingText = .ok ⟨[greeting], [⟨0, 1⟩]⟩ := by
  decide +kernel

theorem scripted_greeting : Scripted greeting.commands [111, 107, 10] true := by
  constructor <;> simp [greeting, heard, Command.heard]

/-- A peer that answers byte by byte hears the greeting. -/
theorem greeting_heard :
    ∃ t, Relation.ReflTransGen (Talks (Wire.peer true))
        (start greeting { peer := { incoming := [111, 107, 10] }, sizes := fun _ => 0 }) t ∧
      t.phase = .finished ∧ t.channel.peer.sent = [104, 105, 10] ∧ t.channel.peer.opens = 1 := by
  have hends := Script.read_ends read_greetingText greeting List.mem_cons_self
  obtain ⟨t, hrun, ⟨hp, -⟩ | ⟨e, -, kind, hfate, -⟩⟩ :=
    (meets_iff_comesTo .refl).mpr
      ((Wire.comesTo_ending_iff hends).mpr ⟨Wire.fits_fresh_iff.mpr scripted_greeting, rfl⟩)
  · obtain ⟨hsent, hopens⟩ :=
      (exchange_succeeds_iff read_greetingText List.mem_cons_self _ _ (fun _ => 0) hrun).2.2 hp
    exact ⟨t, hrun, hp, hsent, hopens⟩
  · cases hfate

end Task

end Judge
