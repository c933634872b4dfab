import Judge.Proofs.Peers

/-!
# Proofs/FailureClasses — which failure a conversation ends with

A connection talks to a peer that may do anything.  No step changes what is to come of it
(`Onward.prospect_iff`), and every step brings the end nearer, so its fate is settled before it
begins, by its commands and its peer, in whatever pieces the bytes come (`meets_iff_prospect`).  On
the way it reads what its commands expect to hear and no more (`Onward.tracks`).
-/

namespace Judge.Task

variable {σ : Type} {p : Peer σ} {latches : List Latch} {t t' : Task (Feed σ)}
  {a : Advance (Feed σ)} {c : Command}

/-! ## Steps of a connection -/

/-- **The peer keeps the task waiting for ever.** -/
def Hangs (p : Peer σ) (t : Task (Feed σ)) : Prop :=
  match t.phase with
  | .opening _ => p.connect t.transport t.channel.peer = .never
  | .operating c => p.Waits t.standing c
  | _ => False

/-- **A step of a connection with its peer**, with the latches as the others have left them. -/
inductive Talks (p : Peer σ) : Task (Feed σ) → Task (Feed σ) → Prop
  | step {t : Task (Feed σ)} {latches : List Latch} {a : Advance (Feed σ)}
      (hanswered : ¬ t.Hangs p) (hexpected : t.Expected latches)
      (hadvance : t.advance p.channel latches = some a) : Talks p t a.task

theorem Talks.onward (h : Talks p t t') :
    ∃ latches a, Onward p.channel latches t a ∧ ¬ t.Hangs p ∧ a.task = t' := by
  obtain ⟨hanswered, hexpected, hadvance⟩ := h
  exact ⟨_, _, advance_onward hexpected hadvance, hanswered, rfl⟩

theorem wellFounded_talks (p : Peer σ) : WellFounded fun t' t : Task (Feed σ) => Talks p t t' :=
  Subrelation.wf (fun ⟨_, _, hadvance⟩ => (advance_nearer hadvance).2) (measure stepsLeft).wf

/-- A task operates on an open socket, and opens it when it needs it. -/
def Settled (t : Task (Feed σ)) : Prop :=
  match t.phase with
  | .opening c => t.opened = false ∧ t.usesSocket c = true
  | .opened _ => t.opened = true
  | .operating c => t.usesSocket c = true → t.opened = true
  | _ => True

theorem settled_conclude (t : Task (Feed σ)) (c : Command) (failure : Option InteractError) :
    (t.conclude c failure).Settled := by
  cases failure with
  | some e => trivial
  | none => by_cases hc : c = .done <;> simp [Settled, conclude, hc]

theorem Onward.settled (h : Onward p.channel latches t a) (hsettled : t.Settled) :
    a.task.Settled := by
  unfold Settled at hsettled
  cases h with
  | reach hp hq hc hopen huses => exact ⟨hopen, huses⟩
  | take hp hq hc hopen => exact hopen
  | connect hp hs => rfl
  | proceed hp =>
    rw [hp] at hsettled
    exact fun _ => hsettled
  | conclude hp => exact settled_conclude _ _ _
  | _ => trivial

/-! ## What is to come -/

/-- A failure is the fate of a task. -/
def Dooms (fate : Fate σ) (e : InteractError) : Prop := ∃ kind, fate = .failing kind ∧ kind.Is e

/-- What a task comes to once its command has failed or not. -/
def Upshot (p : Peer σ) (fate : Fate σ) (t : Task (Feed σ)) (c : Command) :
    Option InteractError → Prop
  | some e => Dooms fate e
  | none =>
    if c = .done then fate = .ending t.standing
    else p.ComesTo t.transport fate t.standing t.queue

/-- **What a task has yet to do comes to the given fate.** -/
def Prospect (p : Peer σ) (fate : Fate σ) (t : Task (Feed σ)) : Prop :=
  match t.phase with
  | .idle | .blocked _ => p.ComesTo t.transport fate t.standing t.queue
  | .opening c | .opened c | .operating c =>
    p.ComesTo t.transport fate t.standing (c :: t.queue)
  | .concluding c outcome => t.Upshot p fate c (t.judge c outcome).2
  | .finished => fate = .ending t.standing
  | .failed e => Dooms fate e

/-- **A task has met its fate.** -/
def Met (fate : Fate σ) (t : Task (Feed σ)) : Prop :=
  (t.phase = .finished ∧ fate = .ending t.standing) ∨ ∃ e, t.phase = .failed e ∧ Dooms fate e

theorem Met.prospect {fate : Fate σ} (h : t.Met fate) : t.Prospect p fate := by
  rcases h with ⟨hp, hfate⟩ | ⟨e, hp, hfate⟩
  · rwa [Prospect, hp]
  · rwa [Prospect, hp]

theorem Settled.reach_operating (h : t.Settled) (hp : t.phase = .operating c)
    (transport : Transport) : p.reach transport t.standing c = .ok t.standing := by
  rw [Settled, hp] at h
  exact Peer.reach_of_settled (by rwa [← usesSocket_eq])

theorem Settled.reach_opening (h : t.Settled) (hp : t.phase = .opening c) :
    p.reach t.transport t.standing c = (p.connect t.transport t.channel.peer).map
      fun s => { t.standing with opened := true, peer := s } := by
  rw [Settled, hp] at h
  refine if_neg ?_
  simp [← usesSocket_eq, h.1, h.2]

variable {fate : Fate σ}

theorem conclude_prospect_iff (failure : Option InteractError) :
    (t.conclude c failure).Prospect p fate ↔ t.Upshot p fate c failure := by
  cases failure with
  | some e => rfl
  | none => by_cases hc : c = .done <;> simp [Prospect, Upshot, conclude, hc, standing]

theorem operate_prospect_iff (hp : t.phase = .operating c) (hsettled : t.Settled)
    (hanswered : ¬ p.Waits t.standing c) :
    Prospect p fate { (t.operate p.channel c).2 with
        phase := .concluding c (t.operate p.channel c).1 } ↔ t.Prospect p fate := by
  obtain ⟨hspoils, hafter, -⟩ := operate_answers hanswered
  have hbefore : t.Prospect p fate ↔ p.ComesTo t.transport fate t.standing (c :: t.queue) := by
    rw [Prospect, hp]
  rw [hbefore, Peer.comesTo_of_ok (hsettled.reach_operating hp _),
    ← operate_transport p.channel t c, ← operate_queue p.channel t c]
  simp only [← hspoils, ← hafter]
  change (t.operate p.channel c).2.Upshot p fate c
    ((t.operate p.channel c).2.judge c (t.operate p.channel c).1).2 ↔ _
  cases (t.operate p.channel c).2.judge c (t.operate p.channel c).1 |>.2 with
  | some e => simp [Upshot, Dooms]
  | none => simp [Upshot]

/-- **No step changes what a task will come to.** -/
theorem Onward.prospect_iff (h : Onward p.channel latches t a) (hsettled : t.Settled)
    (hanswered : ¬ t.Hangs p) : a.task.Prospect p fate ↔ t.Prospect p fate := by
  cases h with
  | finish hp hq =>
    rw [Prospect, Prospect, hp, hq]
    rfl
  | hold hp hq hc =>
    rw [Prospect, Prospect, hp, hq]
    exact (Peer.comesTo_of_latch hc.latch?).symm
  | reach hp hq hc hopen huses | take hp hq hc hopen =>
    rw [Prospect, Prospect, hp, hq]
    rfl
  | release hp hl hzero =>
    rw [Prospect, Prospect, hp]
    rfl
  | @connect c feed hp hs =>
    rw [Hangs, hp] at hanswered
    obtain ⟨s, hreply, rfl⟩ := Reply.result_eq_ok hs hanswered
    have hreach := hsettled.reach_opening (p := p) hp
    rw [hreply] at hreach
    have hopen : p.reach t.transport { t.standing with opened := true, peer := s } c
        = .ok { t.standing with opened := true, peer := s } :=
      Peer.reach_of_settled fun _ => rfl
    rw [Prospect, Prospect, hp]
    exact (Peer.comesTo_of_ok hopen).trans (Peer.comesTo_of_ok hreach).symm
  | refuse hp hs =>
    have hreach := hsettled.reach_opening (p := p) hp
    rw [Reply.result_eq_error hs] at hreach
    rw [Prospect, Prospect, hp]
    refine Iff.trans ?_ (Peer.comesTo_of_fault hreach).symm
    constructor
    · rintro ⟨_ | _, rfl, hkind⟩
      · exact hkind.elim
      · rfl
    · exact fun h => ⟨.presentation, h, trivial⟩
  | proceed hp =>
    rw [Prospect, Prospect, hp]
    rfl
  | operate hp =>
    rw [Hangs, hp] at hanswered
    exact operate_prospect_iff hp hsettled hanswered
  | conclude hp =>
    refine (conclude_prospect_iff _).trans ?_
    rw [Prospect, hp]

/-- A task that comes to something is not kept waiting for ever. -/
theorem Prospect.not_hangs (h : t.Prospect p fate) (hsettled : t.Settled) : ¬ t.Hangs p := by
  intro hhangs
  cases hp : t.phase with
  | opening c =>
    have hreach := hsettled.reach_opening (p := p) hp
    rw [Hangs, hp] at hhangs
    rw [Prospect, hp] at h
    rw [hhangs] at hreach
    exact Peer.not_comesTo_of_never hreach h
  | operating c =>
    rw [Hangs, hp] at hhangs
    rw [Prospect, hp] at h
    rcases (Peer.comesTo_of_ok (hsettled.reach_operating hp _)).mp h with
      ⟨kind, -, hspoils⟩ | ⟨f, hafter, -⟩
    · exact hhangs.not_spoils hspoils
    · exact hhangs.not_after hafter
  | _ =>
    rw [Hangs, hp] at hhangs
    exact hhangs

/-- **A task that comes to something can go on**, once the others let it, until it has met its
fate. -/
theorem Prospect.exists_talks (h : t.Prospect p fate) (hsettled : t.Settled) :
    t.Met fate ∨ ∃ t', Talks p t t' := by
  by_cases hfailed : ∃ e, t.phase = .failed e
  · obtain ⟨e, hp⟩ := hfailed
    rw [Prospect, hp] at h
    exact .inl (.inr ⟨e, hp, h⟩)
  by_cases hfinished : t.phase = .finished
  · rw [Prospect, hfinished] at h
    exact .inl (.inl ⟨hfinished, h⟩)
  · obtain ⟨latches, a, hexpected, ha⟩ :=
      exists_advance p.channel hfinished (not_exists.mp hfailed)
    exact .inr ⟨a.task, .step (h.not_hangs hsettled) hexpected ha⟩

theorem settled_of_talks (hrun : Relation.ReflTransGen (Talks p) t t') (h : t.Settled) :
    t'.Settled := by
  induction hrun with
  | refl => exact h
  | tail _ hstep ih =>
    obtain ⟨_, a, honward, -, rfl⟩ := hstep.onward
    exact honward.settled ih

/-- **No run changes what a task will come to.** -/
theorem prospect_of_talks (hrun : Relation.ReflTransGen (Talks p) t t') (h : t.Settled) :
    t'.Prospect p fate ↔ t.Prospect p fate := by
  induction hrun with
  | refl => rfl
  | tail hrun hstep ih =>
    obtain ⟨_, a, honward, hanswered, rfl⟩ := hstep.onward
    exact (honward.prospect_iff (settled_of_talks hrun h) hanswered).trans ih

/-- **A task meets the fate that it comes to, and no other.** -/
theorem meets_iff_prospect (hsettled : t.Settled) :
    (∃ t', Relation.ReflTransGen (Talks p) t t' ∧ t'.Met fate) ↔ t.Prospect p fate := by
  constructor
  · rintro ⟨t', hrun, hmet⟩
    exact (prospect_of_talks hrun hsettled).mp hmet.prospect
  · intro h
    induction t using (wellFounded_talks p).induction with
    | h t ih =>
      rcases h.exists_talks hsettled with hmet | ⟨t₁, hstep⟩
      · exact ⟨t, .refl, hmet⟩
      · obtain ⟨_, a, honward, hanswered, rfl⟩ := hstep.onward
        obtain ⟨t', hrun, hmet⟩ := ih a.task hstep (honward.settled hsettled)
          ((honward.prospect_iff hsettled hanswered).mpr h)
        exact ⟨t', hrun.head hstep, hmet⟩

/-- **What a connection comes to, from wherever it has come.** -/
theorem meets_iff_comesTo {k : ConnectionScript} {s : σ} {sizes : Nat → Nat}
    (hrun : Relation.ReflTransGen (Talks p) (start k { peer := s, sizes }) t) :
    (∃ t', Relation.ReflTransGen (Talks p) t t' ∧ t'.Met fate) ↔
      p.ComesTo k.transport fate { peer := s } k.commands :=
  (meets_iff_prospect (settled_of_talks hrun trivial)).trans (prospect_of_talks hrun trivial)

/-! ## What was read -/

/-- A task that has done the commands `body` of its script, which led it to `f`: it has read what
they expect to hear, and what its present command reads. -/
def At (p : Peer σ) (k : ConnectionScript) (body : List Command) (f : Standing σ)
    (t : Task (Feed σ)) : Prop :=
  match t.phase with
  | .idle | .blocked _ =>
    k.commands = body ++ t.queue ∧ t.standing = f ∧ t.channel.taken = (heard body).length
  | .opening c =>
    k.commands = body ++ c :: t.queue ∧ t.standing = f ∧ t.channel.taken = (heard body).length
  | .opened c | .operating c =>
    k.commands = body ++ c :: t.queue ∧ p.reach k.transport f c = .ok t.standing ∧
      t.channel.taken = (heard body).length
  | .concluding c outcome =>
    k.commands = body ++ c :: t.queue ∧ ∃ f₁, p.reach k.transport f c = .ok f₁ ∧
      (c ≠ .done → t.channel.taken = (heard body).length + p.haul f₁ c) ∧
      ((t.judge c outcome).2 = none → c ≠ .done → p.After f₁ c t.standing)
  | .finished | .failed _ => True

/-- **A task keeps to its script**: the commands that it has done went well. -/
def Tracks (p : Peer σ) (k : ConnectionScript) (s : σ) (t : Task (Feed σ)) : Prop :=
  t.transport = k.transport ∧
    ∃ body f, p.GoesWell k.transport { peer := s } body f ∧ t.At p k body f

variable {k : ConnectionScript}

/-- A task that is between two commands has done one more that went well. -/
theorem Tracks.of_passes {s : σ} {body : List Command} {f : Standing σ}
    (hp : t.phase = .idle ∨ ∃ m, t.phase = .blocked m) (htransport : t.transport = k.transport)
    (hwell : p.GoesWell k.transport { peer := s } body f)
    (hpass : p.Passes k.transport f c t.standing) (hcommands : k.commands = body ++ c :: t.queue)
    (htaken : t.channel.taken = (heard body).length + c.heard.length) : t.Tracks p k s := by
  have hdone : k.commands = (body ++ [c]) ++ t.queue ∧ t.standing = t.standing ∧
      t.channel.taken = (heard (body ++ [c])).length :=
    ⟨by simp [hcommands], rfl, by simp [htaken, heard, List.flatMap_append]⟩
  refine ⟨htransport, body ++ [c], t.standing, hwell.concat hpass, ?_⟩
  rcases hp with hp | ⟨m, hp⟩
  · rw [At, hp]
    exact hdone
  · rw [At, hp]
    exact hdone

/-- **A step keeps to the script.** -/
theorem Onward.tracks {s : σ} (h : Onward p.channel latches t a) (hsettled : t.Settled)
    (hanswered : ¬ t.Hangs p) (htracks : t.Tracks p k s) : a.task.Tracks p k s := by
  obtain ⟨htransport, body, f, hwell, hat⟩ := htracks
  unfold At at hat
  cases h with
  | finish hp hq => exact ⟨htransport, body, f, hwell, trivial⟩
  | @hold c q m latches' hp hq hc =>
    rw [hp, hq] at hat
    obtain ⟨hcommands, rfl, htaken⟩ := hat
    obtain ⟨hreach, -, hafter⟩ := Peer.latch_alone hc.latch? p k.transport t.standing
    have hdone : c ≠ .done := by cases hc <;> nofun
    have hpass : p.Passes k.transport t.standing c t.standing :=
      ⟨hdone, _, hreach, (hafter _).mpr rfl⟩
    have hheard : c.heard = [] := by cases hc <;> rfl
    exact .of_passes (.inr ⟨m, rfl⟩) htransport hwell hpass hcommands (by rw [hheard]; exact htaken)
  | reach hp hq hc hopen huses =>
    rw [hp, hq] at hat
    exact ⟨htransport, body, f, hwell, hat⟩
  | take hp hq hc hopen =>
    rw [hp, hq] at hat
    obtain ⟨hcommands, rfl, htaken⟩ := hat
    refine ⟨htransport, body, _, hwell, hcommands, ?_, htaken⟩
    exact Peer.reach_of_settled (by rwa [← usesSocket_eq])
  | release hp hl hzero =>
    rw [hp] at hat
    exact ⟨htransport, body, f, hwell, hat⟩
  | @connect c feed hp hs =>
    have hreach := hsettled.reach_opening (p := p) hp
    rw [Hangs, hp] at hanswered
    obtain ⟨s, hreply, rfl⟩ := Reply.result_eq_ok hs hanswered
    rw [hp] at hat
    obtain ⟨hcommands, rfl, htaken⟩ := hat
    rw [hreply, htransport] at hreach
    exact ⟨htransport, body, _, hwell, hcommands, hreach, htaken⟩
  | refuse hp hs => exact ⟨htransport, body, f, hwell, trivial⟩
  | proceed hp =>
    rw [hp] at hat
    exact ⟨htransport, body, f, hwell, hat⟩
  | @operate c hp =>
    rw [Hangs, hp] at hanswered
    rw [hp] at hat
    obtain ⟨hcommands, hreach, htaken⟩ := hat
    obtain ⟨hspoils, hafter, hhaul⟩ := operate_answers hanswered
    refine ⟨?_, body, f, hwell, ?_, t.standing, hreach, ?_, ?_⟩
    · exact (operate_transport p.channel t c).trans htransport
    · exact hcommands.trans (by rw [operate_queue])
    · intro hc
      rw [← htaken]
      exact hhaul hc
    · intro hjudge hc
      exact (hafter _).mp ⟨hjudge, rfl⟩
  | @conclude c outcome hp =>
    rw [hp] at hat
    obtain ⟨hcommands, f₁, hreach, htaken, hafter⟩ := hat
    cases hjudge : (t.judge c outcome).2 with
    | some e => exact ⟨htransport, body, f, hwell, trivial⟩
    | none =>
      by_cases hc : c = .done
      · refine ⟨htransport, body, f, hwell, ?_⟩
        simp [At, Task.conclude, hc]
      · have hpass : p.Passes k.transport f c t.standing := ⟨hc, f₁, hreach, hafter hjudge hc⟩
        have hidle : (t.conclude c none).phase = .idle := if_neg hc
        refine .of_passes (.inl hidle) htransport hwell hpass hcommands ?_
        rw [← (hafter hjudge hc).haul_eq]
        exact htaken hc

/-- **What every run keeps**: a task is settled and keeps to its script. -/
theorem tracks_of_talks {s : σ} {sizes : Nat → Nat}
    (hrun : Relation.ReflTransGen (Talks p) (start k { peer := s, sizes }) t) :
    t.Settled ∧ t.Tracks p k s := by
  induction hrun with
  | refl => exact ⟨trivial, rfl, [], { peer := s }, .nil _, rfl, rfl, rfl⟩
  | tail _ hstep ih =>
    obtain ⟨_, a, honward, hanswered, rfl⟩ := hstep.onward
    exact ⟨honward.settled ih.1, honward.tracks ih.1 hanswered ih.2⟩

/-- A step fails through the peer only. -/
theorem Onward.not_crash (h : Onward p.channel latches t a) (m : String) :
    a.task.phase ≠ .failed (.crash m) := by
  intro hcrash
  cases h with
  | @conclude c outcome hp =>
    cases hjudge : (t.judge c outcome).2 with
    | some e =>
      rw [hjudge] at hcrash
      exact judge_not_crash t c outcome hjudge m (Phase.failed.inj hcrash)
    | none =>
      rw [hjudge] at hcrash
      by_cases hc : c = .done <;> simp [Task.conclude, hc] at hcrash
  | _ => cases hcrash

theorem not_crash_of_talks {feed : Feed σ} (hrun : Relation.ReflTransGen (Talks p) (start k feed) t)
    (m : String) : t.phase ≠ .failed (.crash m) := by
  rcases Relation.ReflTransGen.cases_tail hrun with rfl | ⟨t₀, -, hstep⟩
  · intro hcrash
    cases hcrash
  · obtain ⟨_, a, honward, -, rfl⟩ := hstep.onward
    exact honward.not_crash m

/-- **What was read by the end of a command that reads.** -/
theorem taken_of_talks {s : σ} {sizes : Nat → Nat} {expected : Bytes}
    {outcome : Except IoError Bytes}
    (hrun : Relation.ReflTransGen (Talks p) (start k { peer := s, sizes }) t)
    (hp : t.phase = .concluding (.recv expected) outcome) :
    ∃ body f f₁, k.commands = body ++ .recv expected :: t.queue ∧
      p.GoesWell k.transport { peer := s } body f ∧
      p.reach k.transport f (.recv expected) = .ok f₁ ∧
      t.channel.taken = (heard body).length + p.haul f₁ (.recv expected) := by
  obtain ⟨-, body, f, hwell, hat⟩ := (tracks_of_talks hrun).2
  rw [At, hp] at hat
  obtain ⟨hcommands, f₁, hreach, htaken, -⟩ := hat
  exact ⟨body, f, f₁, hcommands, hwell, hreach, htaken nofun⟩

/-- **The failure of a conversation is settled by its commands and its peer.**  From wherever a
connection has come, it can end with a wrong answer if and only if the first command that fails gets
one, with a failure of the connection if and only if that command is one whose operation fails or
whose answer ends too early, and with no other failure.  A command that reads has read by its end
what the commands before it expect to hear and what there is of its own answer, as it has when the
bytes come in other pieces. -/
theorem failure_settled_by_peer {k : ConnectionScript} {s : σ} {sizes : Nat → Nat}
    (hrun : Relation.ReflTransGen (Talks p) (start k { peer := s, sizes }) t) :
    ((∃ t' m, Relation.ReflTransGen (Talks p) t t' ∧ t'.phase = .failed (.wrongAnswer m)) ↔
      p.FirstFailure k.transport .wrongAnswer { peer := s } k.commands) ∧
    ((∃ t' m, Relation.ReflTransGen (Talks p) t t' ∧ t'.phase = .failed (.presentation m)) ↔
      p.FirstFailure k.transport .presentation { peer := s } k.commands) ∧
    (∀ m, t.phase ≠ .failed (.crash m)) ∧
    ∀ expected outcome, t.phase = .concluding (.recv expected) outcome →
      (∃ body f f₁, k.commands = body ++ .recv expected :: t.queue ∧
        p.GoesWell k.transport { peer := s } body f ∧
        p.reach k.transport f (.recv expected) = .ok f₁ ∧
        t.channel.taken = (heard body).length + p.haul f₁ (.recv expected)) ∧
      ∀ sizes' t' expected' outcome',
        Relation.ReflTransGen (Talks p) (start k { peer := s, sizes := sizes' }) t' →
        t'.phase = .concluding (.recv expected') outcome' → t'.queue = t.queue →
        t'.channel.taken = t.channel.taken := by
  have hfails (kind : Failing) : (∃ t' e, Relation.ReflTransGen (Talks p) t t' ∧
      t'.phase = .failed e ∧ kind.Is e) ↔
      p.FirstFailure k.transport kind { peer := s } k.commands := by
    rw [← Peer.comesTo_failing_iff, ← meets_iff_comesTo hrun]
    simp [Met, Dooms]
  refine ⟨?_, ?_, not_crash_of_talks hrun, ?_⟩
  · simp only [← hfails, Failing.is_wrongAnswer_iff]
    grind
  · simp only [← hfails, Failing.is_presentation_iff]
    grind
  · intro expected outcome hp
    have htaken := taken_of_talks hrun hp
    refine ⟨htaken, ?_⟩
    intro sizes' t' expected' outcome' hrun' hp' hqueue
    obtain ⟨body, f, f₁, hcommands, hwell, hreach, htaken⟩ := htaken
    obtain ⟨body', f', f₁', hcommands', hwell', hreach', htaken'⟩ := taken_of_talks hrun' hp'
    rw [hcommands, hqueue] at hcommands'
    obtain ⟨rfl, hcommand⟩ := List.append_inj' hcommands' rfl
    obtain rfl : expected = expected' := by simpa using hcommand
    obtain rfl := hwell.unique hwell'
    obtain rfl := Reply.ok.inj (hreach.symm.trans hreach')
    rw [htaken, htaken']

/-- A peer that says what it has to say and ends, whatever is said to it. -/
def reciter : Peer Bytes where
  connect _ s := .ok s
  write _ s := .ok s
  next
    | [] => .ending
    | b :: s => .byte b s
  stopWrite s := .ok s
  stopRead s := .ok s
  pause _ s := s

/-- A connection that expects three bytes. -/
def listener : ConnectionScript := ⟨"a", .tcp, [.recv [97, 98, 99], .done]⟩

/-- It is to receive them, from a peer that says two bytes and is heard one at a time. -/
def listening (phase : Phase) (opened : Bool) (rest : Bytes) (taken : Nat) : Task (Feed Bytes) :=
  { name := "a", transport := .tcp, queue := [.done], phase, opened,
    channel := ⟨rest, fun _ => 0, taken⟩ }

/-- The first of the bytes is wrong, but as the peer ends too early it is the connection that
fails. -/
theorem early_end_is_no_wrong_answer :
    Relation.ReflTransGen (Talks reciter)
        (start listener { peer := [120, 98], sizes := fun _ => 0 })
        (listening (.concluding (.recv [97, 98, 99]) (.ok [120, 98])) true [] 2) ∧
      (∃ t' m, Relation.ReflTransGen (Talks reciter)
          (listening (.concluding (.recv [97, 98, 99]) (.ok [120, 98])) true [] 2) t' ∧
        t'.phase = .failed (.presentation m)) ∧
      ¬ ∃ t' m, Relation.ReflTransGen (Talks reciter)
          (listening (.concluding (.recv [97, 98, 99]) (.ok [120, 98])) true [] 2) t' ∧
        t'.phase = .failed (.wrongAnswer m) := by
  have hstep : ∀ {t t' : Task (Feed Bytes)} {log : List String}, ¬ t.Hangs reciter →
      (∀ m q, t.queue ≠ .arrive m :: q) → t.advance reciter.channel [] = some ⟨t', [], log⟩ →
      Talks reciter t t' := fun hanswered hqueue hadvance =>
    .step hanswered (fun m q _ hq => absurd hq (hqueue m q)) hadvance
  have hbegin : Talks reciter (start listener { peer := [120, 98], sizes := fun _ => 0 })
      (listening (.opening (.recv [97, 98, 99])) false [120, 98] 0) :=
    hstep id (by simp [start, listener]) rfl
  have hopen : Talks reciter (listening (.opening (.recv [97, 98, 99])) false [120, 98] 0)
      (listening (.opened (.recv [97, 98, 99])) true [120, 98] 0) :=
    hstep nofun (by simp [listening]) rfl
  have hready : Talks reciter (listening (.opened (.recv [97, 98, 99])) true [120, 98] 0)
      (listening (.operating (.recv [97, 98, 99])) true [120, 98] 0) :=
    hstep id (by simp [listening]) rfl
  have hread : Talks reciter (listening (.operating (.recv [97, 98, 99])) true [120, 98] 0)
      (listening (.concluding (.recv [97, 98, 99]) (.ok [120, 98])) true [] 2) :=
    hstep (fun hwaits => nomatch hwaits.2.2) (by simp [listening]) rfl
  have hrun := ((Relation.ReflTransGen.single hbegin).tail hopen).tail hready |>.tail hread
  obtain ⟨hwrong, hpresentation, -⟩ := failure_settled_by_peer hrun
  refine ⟨hrun, hpresentation.mpr ?_, fun h => ?_⟩
  · exact ⟨[], _, _, _, rfl, .nil _, .inr ⟨_, rfl, rfl, by decide, .inl rfl⟩⟩
  · rcases (Peer.comesTo_of_ok rfl).mp (Peer.comesTo_failing_iff.mpr (hwrong.mp h)) with
      ⟨_, ⟨⟩, hclosed | ⟨hlength, -⟩⟩ | ⟨f, ⟨-, htake, -⟩, -⟩
    · exact nomatch hclosed
    · exact absurd hlength (by decide)
    · exact absurd htake (by decide)

end Judge.Task
