import Judge.Proofs.Schedules

/-!
# Proofs/LogLines — no peer writes a line of the log

A line of the log has a name of the script and a message, and a message is one of a few texts
(`Task.Says`).  What a peer says comes into it as a shown text only.  No shown character begins
another, and none has a line feed (`quoteChar_append_inj`, `quoteChar_cases`).  So the log is taken
apart into its lines again, and a shown text tells which bytes it shows, if they are valid.
-/

namespace Judge

open List

/-! ## Shown texts -/

/-- A sign that is no digit does not occur in a number. -/
theorem notMem_toDigits {b : Nat} (hb : 1 < b) {c : Char} (hc : ∀ i, Nat.digitChar i ≠ c)
    (n : Nat) : c ∉ Nat.toDigits b n := by
  induction n using Nat.strongRecOn with
  | ind n ih =>
    rw [Nat.toDigits_eq_if hb]
    split
    · simpa using (hc n).symm
    · have hrest := ih (n / b) (Nat.div_lt_self (by omega) hb)
      simpa [hrest] using (hc _).symm

theorem hexDigits_injective : Function.Injective hexDigits := by
  have hdigit : ∀ i < 16, ∀ j < 16, Nat.digitChar i = Nat.digitChar j → i = j := by decide
  intro m
  induction m using Nat.strongRecOn with
  | ind m ih =>
    intro n h
    rw [hexDigits, hexDigits, Nat.toDigits_eq_if (by decide),
      Nat.toDigits_eq_if (by decide) (n := n)] at h
    split at h <;> split at h
    · exact hdigit m ‹_› n ‹_› (singleton_inj.mp h)
    · exact absurd (append_eq_singleton_iff.mp h.symm) (by simp [Nat.toDigits_ne_nil])
    · exact absurd (append_eq_singleton_iff.mp h) (by simp [Nat.toDigits_ne_nil])
    · obtain ⟨hfront, hlast⟩ := append_inj' h rfl
      have hfront := ih (m / 16) (by omega) hfront
      have hlast := hdigit _ (Nat.mod_lt m (by decide)) _ (Nat.mod_lt n (by decide))
        (singleton_inj.mp hlast)
      omega

/-- The character that a short form stands for. -/
def ofShort (c : Char) : Char :=
  if c = '0' then '\x00' else if c = 't' then '\t' else if c = 'n' then '\n'
  else if c = 'r' then '\r' else c

/-- **How a character is shown**: by itself, by a short form, or by its number. -/
theorem quoteChar_cases (c : Char) :
    (quoteChar c = [c] ∧ c ≠ '\\' ∧ c ≠ '\n') ∨
    (∃ s, quoteChar c = ['\\', s] ∧ s ≠ 'u' ∧ s ≠ '\n' ∧ ofShort s = c) ∨
    quoteChar c = '\\' :: 'u' :: '\x7b' :: (hexDigits c.toNat ++ ['\x7d']) := by
  unfold quoteChar
  split_ifs with _ _ hn _ _ hb
  all_goals first
    | subst c; exact .inr (.inl ⟨_, rfl, by decide, by decide, rfl⟩)
    | exact .inr (.inr rfl)
    | exact .inl ⟨rfl, hb, hn⟩

/-- **No shown character begins another.** -/
theorem quoteChar_append_inj {c d : Char} {xs ys : List Char}
    (h : quoteChar c ++ xs = quoteChar d ++ ys) : c = d ∧ xs = ys := by
  have hhex (n : Nat) : '\x7d' ∉ hexDigits n :=
    notMem_toDigits (by decide) (fun _ => Nat.digitChar_ne '\x7d' rfl) n
  -- two forms differ in the first sign or, after a backslash, in the second
  rcases quoteChar_cases c with ⟨hc, hne, -⟩ | ⟨s, hc, hs, -, rfl⟩ | hc <;>
    rcases quoteChar_cases d with ⟨hd, hne', -⟩ | ⟨s', hd, hs', -, rfl⟩ | hd <;>
    rw [hc, hd] at h
  · simpa using h
  · exact absurd (cons.inj h).1 hne
  · exact absurd (cons.inj h).1 hne
  · exact absurd (cons.inj h).1.symm hne'
  · simp only [cons_append, nil_append, cons.injEq, true_and] at h
    exact ⟨congrArg ofShort h.1, h.2⟩
  · exact absurd (cons.inj (cons.inj h).2).1 hs
  · exact absurd (cons.inj h).1.symm hne'
  · exact absurd (cons.inj (cons.inj h).2).1.symm hs'
  · simp only [cons_append, append_assoc, nil_append, cons.injEq, true_and] at h
    obtain ⟨hcode, hrest⟩ := cut_unique (hhex _) (hhex _) h
    exact ⟨Char.toNat_inj.mp (hexDigits_injective hcode), hrest⟩

theorem quoteChars_injective : Function.Injective quoteChars := by
  have hne : ∀ c cs, quoteChar c ++ cs ≠ [] := fun c cs => by
    rcases quoteChar_cases c with ⟨h, -⟩ | ⟨s, h, -⟩ | h <;> simp [h]
  intro cs ds h
  have hbody : cs.flatMap quoteChar = ds.flatMap quoteChar := by simpa [quoteChars] using h
  clear h
  induction cs generalizing ds with
  | nil =>
    cases ds with
    | nil => rfl
    | cons d ds => exact absurd hbody.symm (hne d _)
  | cons c cs ih =>
    cases ds with
    | nil => exact absurd hbody (hne c _)
    | cons d ds =>
      obtain ⟨rfl, hrest⟩ := quoteChar_append_inj hbody
      rw [ih hrest]

/-- **Valid bytes are told by how they are shown.** -/
theorem shownBytes_inj {xs ys : Bytes} (hxs : (Utf8.decode? xs).isSome)
    (hys : (Utf8.decode? ys).isSome) (h : shownBytes xs = shownBytes ys) : xs = ys := by
  have hchars := quoteChars_injective (String.ofList_injective h)
  rw [← Utf8.mended_eq_self hxs, ← Utf8.mended_eq_self hys, Utf8.mended, Utf8.mended, hchars]

/-! ## Messages -/

/-- A text without a line feed. -/
abbrev OneLine (s : String) : Prop := '\n' ∉ s.toList

theorem OneLine.append {s t : String} (hs : OneLine s) (ht : OneLine t) : OneLine (s ++ t) := by
  simp [OneLine, hs, ht]

theorem newline_notMem_toDigits {b : Nat} (hb : 1 < b) (n : Nat) : '\n' ∉ Nat.toDigits b n :=
  notMem_toDigits hb (fun _ => Nat.digitChar_ne '\n' rfl) n

theorem oneLine_shownBytes (bs : Bytes) : OneLine (shownBytes bs) := by
  have hchar (c : Char) : '\n' ∉ quoteChar c := by
    rcases quoteChar_cases c with ⟨hq, -, hc⟩ | ⟨s, hq, -, hs, -⟩ | hq
    · simpa [hq] using hc.symm
    · simpa [hq] using hs.symm
    · simpa [hq, hexDigits] using newline_notMem_toDigits (by decide) c.toNat
  simp [OneLine, shownBytes, quoteChars, hchar]

theorem oneLine_render (l : FloatLayout) (x : Binary64) : OneLine (l.render x) := by
  have hdigits := newline_notMem_toDigits (b := 10) (by decide)
  have htake (n k : Nat) : '\n' ∉ (Nat.toDigits 10 n).take k := fun h => hdigits n (mem_of_mem_take h)
  have hdrop (n k : Nat) : '\n' ∉ (Nat.toDigits 10 n).drop k := fun h => hdigits n (mem_of_mem_drop h)
  unfold FloatLayout.render FloatLayout.plain FloatLayout.scientific
  split
  · decide
  · split <;> decide
  · dsimp only
    split_ifs <;> simp [OneLine, hdigits, htake, hdrop, -drop_one]

theorem Command.oneLine_text (c : Command) : OneLine c.text := by
  have hnumber (n : Nat) : OneLine (toString n) := by
    rw [OneLine, Nat.toString_eq_ofList_toDigits, String.toList_ofList]
    exact newline_notMem_toDigits (by decide) n
  cases c with
  | sleep span => exact .append (by decide) (oneLine_render _ _)
  | wait m | arrive m => exact .append (by decide) (hnumber m)
  | send data | recv data => exact .append (by decide) (oneLine_shownBytes data)
  | _ => decide

namespace Task

variable {σ : Type} {ch : Channel σ} {latches : List Latch} {t : Task σ} {a : Advance σ}

/-- **What a task says** in the phase that it is in. -/
inductive Says (t : Task σ) : String → Prop
  | method {c : Command} {q : List Command} (hp : t.phase = .idle) (hq : t.queue = c :: q) :
      Says t ("method: " ++ c.text)
  | starting {c : Command} (hp : t.phase = .opening c) : Says t "starting connection"
  | started {c : Command} (hp : t.phase = .opened c) : Says t "started connection"
  | cannotSend {data bs : Bytes} (hp : t.phase = .concluding (.send data) (.ok bs)) :
      Says t "Cannot send(), writer is closed"
  | cannotReceive {data bs : Bytes} (hp : t.phase = .concluding (.recv data) (.ok bs)) :
      Says t "Cannot recv(), reader is closed"
  | received {data bs : Bytes} (hp : t.phase = .concluding (.recv data) (.ok bs)) :
      Says t ("received: " ++ shownBytes bs)
  | tail {bs : Bytes} (hp : t.phase = .concluding .done (.ok bs)) :
      Says t ("tail: " ++ shownBytes bs)

theorem Says.oneLine {m : String} (h : t.Says m) : OneLine m := by
  cases h with
  | method hp hq => exact .append (by decide) (Command.oneLine_text _)
  | received hp | tail hp => exact .append (by decide) (oneLine_shownBytes _)
  | _ => decide

theorem judge_says {c : Command} {outcome : Except IoError Bytes}
    (hp : t.phase = .concluding c outcome) : ∀ m ∈ (t.judge c outcome).1, t.Says m := by
  unfold judge
  split
  · split <;> simp [Says.cannotSend hp]
  · split
    · simp [Says.cannotReceive hp]
    · split_ifs <;> simp [Says.received hp]
  · split
    · simp
    · split <;> simp [Says.tail hp]
  · simp
  · simp

/-- **A step adds what the task says.** -/
theorem advance_says (h : t.advance ch latches = some a) : ∀ m ∈ a.log, t.Says m := by
  rcases advance_cases h with honward | ⟨hp, hq, hl, hzero⟩
  · cases honward with
    | hold hp hq hc | reach hp hq hc hopen huses | take hp hq hc hopen => simp [Says.method hp hq]
    | connect hp hs | refuse hp hs => simp [Says.starting hp]
    | proceed hp => simp [Says.started hp]
    | conclude hp => exact judge_says hp
    | _ => simp
  · simp [Says.method hp hq]

end Task

namespace Conversation

variable {σ : Type} {script : Script} {channel : ConnectionScript → σ} {v w : Conversation σ}

/-! ## The log of a conversation -/

/-- **A line that was said** on the way to `v`. -/
def Said (v : Conversation σ) (script : Script) (channel : ConnectionScript → σ) (l : LogLine) :
    Prop :=
  ∃ u, (start script channel).Reaches u ∧ u.Reaches v ∧
    ∃ t ∈ u.tasks, t.name = l.name ∧ t.Says l.message

/-- **Every line was said.** -/
theorem said_of_mem (hv : (start script channel).Reaches v) :
    ∀ l ∈ v.lines, v.Said script channel l := by
  induction hv with
  | refl => nofun
  | @tail v v' hv hmove ih =>
    have hold : ∀ l ∈ v.lines, v'.Said script channel l := fun l hl => by
      obtain ⟨u, hu, huv, hsaid⟩ := ih l hl
      exact ⟨u, hu, huv.tail hmove, hsaid⟩
    cases hmove with
    | drift index f => exact hold
    | step h =>
      obtain ⟨t, a, ht, ha, rfl⟩ := exists_of_step? h
      rw [lines_update]
      exact forall_mem_append.mpr ⟨hold, forall_mem_map.mpr fun m hm =>
        ⟨v, hv, .single (.step h), t, mem_of_getElem? ht, rfl, Task.advance_says ha m hm⟩⟩

theorem names_of_reaches (hv : (start script channel).Reaches v) :
    v.tasks.map (·.name) = script.connections.map (·.name) := by
  induction hv with
  | refl => exact map_map ..
  | tail hv hmove ih =>
    rw [← ih]
    cases hmove with
    | drift index f => exact map_drift (fun _ _ => rfl) _ index f
    | step h =>
      obtain ⟨t, a, ht, ha, rfl⟩ := exists_of_step? h
      obtain ⟨hi, rfl⟩ := List.getElem?_eq_some_iff.mp ht
      rw [update, map_set, (Task.advance_nearer ha).1]
      exact (congrArg _ (getElem_map ..).symm).trans (set_getElem_self (by simpa))

theorem plain_of_mem {text : List Char} (hread : Script.read text = .ok script)
    (hv : (start script channel).Reaches v) {l : LogLine} (hl : l ∈ v.lines) :
    Script.Plain l.name ∧ OneLine l.message := by
  obtain ⟨u, hu, -, t, ht, hname, hsays⟩ := said_of_mem hv l hl
  refine ⟨Script.read_plain hread _ ?_, hsays.oneLine⟩
  rw [← names_of_reaches hu, ← hname]
  exact mem_map_of_mem ht

/-- The bytes of a line without its line feed. -/
def lineBytes (l : LogLine) : Bytes := utf8 (l.name ++ ": " ++ l.message)

/-- The name of a line ends before the first space, so that a line tells who said what. -/
theorem lineBytes_inj {k l : LogLine} (hk : Script.Plain k.name) (hl : Script.Plain l.name)
    (h : lineBytes k = lineBytes l) : k = l := by
  have hchars := congrArg Utf8.decode? h
  rw [lineBytes, lineBytes, Utf8.decode?_utf8, Utf8.decode?_utf8] at hchars
  have hcut : (k.name.toList ++ [':']) ++ ' ' :: k.message.toList =
      (l.name.toList ++ [':']) ++ ' ' :: l.message.toList := by simpa using hchars
  obtain ⟨hname, hmessage⟩ := cut_unique (by simpa using hk.1) (by simpa using hl.1) hcut
  exact (LogLine.mk.injEq ..).mpr
    ⟨String.toList_inj.mp (append_cancel_right hname), String.toList_inj.mp hmessage⟩

theorem splitWhere_logText {text : List Char} (hread : Script.read text = .ok script)
    (hv : (start script channel).Reaches v) :
    splitWhere (· == 0x0A) v.logText = v.lines.map lineBytes ++ [[]] := by
  have htext : v.logText = (v.lines.map lineBytes).flatMap (· ++ [0x0A]) := by
    rw [logText, flatMap_map]
    refine flatMap_congr fun l _ => ?_
    rw [LogLine.text, utf8, String.toList_append, Utf8.encode_append]
    rfl
  rw [htext]
  refine splitWhere_lines (forall_mem_map.mpr fun l hl => ?_)
  obtain ⟨⟨-, hname⟩, hmessage⟩ := plain_of_mem hread hv hl
  rw [lineBytes]
  exact fun hmem => ((OneLine.append hname (by decide)).append hmessage)
    ((Utf8.mem_utf8 (c := '\n') (by decide) _).mp hmem)

/-- **No peer writes a line of the log.**  In every state that the conversation of a script can
reach, each line of the log was said by a connection; the log has one line feed for each line, at
its end; who said what is told by the log; and so are bytes that were shown, if they are valid.  A
conversation on a machine ends in such a state. -/
theorem log_cannot_be_forged {text : List Char} (hread : Script.read text = .ok script)
    (hv : (start script channel).Reaches v) :
    (∀ l ∈ v.lines, v.Said script channel l) ∧
    splitWhere (· == 0x0A) v.logText = v.lines.map lineBytes ++ [[]] ∧
    (∀ (channel' : ConnectionScript → σ) (w : Conversation σ), (start script channel').Reaches w →
      w.logText = v.logText → w.lines = v.lines) ∧
    (∀ xs ys, (Utf8.decode? xs).isSome → (Utf8.decode? ys).isSome →
      shownBytes xs = shownBytes ys → xs = ys) ∧
    ∀ e T r w, Program.Makes (converse script e) T (r, w) → Reaches (start script fun _ => {}) w := by
  refine ⟨said_of_mem hv, splitWhere_logText hread hv, fun channel' w hw hlog => ?_,
    fun _ _ => shownBytes_inj, fun _ _ _ _ => reaches_converse⟩
  have hlines := splitWhere_logText hread hw
  rw [hlog, splitWhere_logText hread hv, append_cancel_right_eq] at hlines
  -- the lines agree one by one, since each of them is told by its bytes
  refine ext_getElem? fun i => ?_
  have hi := congrArg (·[i]?) hlines
  simp only [getElem?_map] at hi
  cases hk : w.lines[i]? <;> cases hl : v.lines[i]? <;> simp only [hk, hl, Option.map] at hi
  · rfl
  · cases hi
  · cases hi
  · exact congrArg some (lineBytes_inj (plain_of_mem hread hw (mem_of_getElem? hk)).1
      (plain_of_mem hread hv (mem_of_getElem? hl)).1 (Option.some.inj hi).symm)

/-- A peer that says what looks like a line of another connection. -/
def forgingChannel : Channel Unit :=
  { quietChannel with read := fun _ s => (.ok (utf8 "\nb: tail: \"\""), s) }

def forgedEnd : Conversation Unit :=
  (runFrom forgingChannel 100 0 [0, 1, 2] (start lateScript fun _ => ())).2

theorem forged_line_shown :
    forgedEnd.lines.getLast? = some ⟨"a", "tail: \"\\nb: tail: \\\"\\\"\""⟩ ∧
      splitWhere (· == 0x0A) forgedEnd.logText = forgedEnd.lines.map lineBytes ++ [[]] :=
  ⟨by decide +kernel, (log_cannot_be_forged read_lateText (reaches_runFrom ..)).2.1⟩

end Conversation

end Judge
