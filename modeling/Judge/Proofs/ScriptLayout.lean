import Judge.Conversation.Script
import Judge.Proofs.Basic
import Judge.Proofs.Cuts

/-!
# Proofs/ScriptLayout — where the lines of a script end up

A script is read line by line, and a line only ever adds to the ends of queues.  Three facts about
the queues of a script follow, and all that is known of barriers rests on them:

* `Laid` — the latches of a queue come in increasing order, and a latch expects exactly the
  connections that arrive at it;
* `read_ends` — a queue ends with the one command that ends it;
* `placeOf?_spec` — the command of a line stands at the place that the script had for it when the
  line was read, and `mark_before` / `arrive_after` say which latches stand around that place.
-/

namespace Judge

open List

/-! ## Latches in a queue -/

/-- The latch that a command is held by. -/
def Command.latch? : Command → Option Nat
  | .wait latch | .arrive latch => some latch
  | _ => none

/-- The latches of a queue, in order. -/
def marks (queue : List Command) : List Nat := queue.filterMap Command.latch?

theorem marks_append (p q : List Command) : marks (p ++ q) = marks p ++ marks q :=
  filterMap_append

theorem mem_marks {queue : List Command} {k : Nat} :
    k ∈ marks queue ↔ .wait k ∈ queue ∨ .arrive k ∈ queue := by
  have hlatch : ∀ c : Command, c.latch? = some k ↔ c = .wait k ∨ c = .arrive k := by
    intro c
    cases c <;> simp [Command.latch?]
  simp only [marks, mem_filterMap, hlatch]
  constructor
  · rintro ⟨c, hc, rfl | rfl⟩
    · exact Or.inl hc
    · exact Or.inr hc
  · rintro (hc | hc)
    · exact ⟨_, hc, Or.inl rfl⟩
    · exact ⟨_, hc, Or.inr rfl⟩

variable {c : Command}

/-- A command that no latch holds leaves the latches of a queue alone. -/
theorem marks_append_plain (hc : c.latch? = none) (queue : List Command) :
    marks (queue ++ [c]) = marks queue := by
  rw [marks_append]
  simp [marks, hc]

/-- The last of some commands, and no other, is the end of the conversation. -/
def EndsInDone (commands : List Command) : Prop :=
  ∃ body, commands = body ++ [.done] ∧ .done ∉ body

theorem EndsInDone.of_cons {c : Command} {q : List Command} (h : EndsInDone (c :: q))
    (hc : c ≠ .done) : EndsInDone q := by
  obtain ⟨body, hbody, hnot⟩ := h
  cases body with
  | nil => exact absurd (cons.inj hbody).1 hc
  | cons b body =>
    cases hbody
    exact ⟨body, rfl, fun h => hnot (mem_cons_of_mem _ h)⟩

/-- Nothing is left behind the end. -/
theorem EndsInDone.rest_eq_nil {begun q : List Command} (h : EndsInDone (begun ++ .done :: q)) :
    q = [] := by
  obtain ⟨body, hbody, hnot⟩ := h
  by_contra hq
  obtain ⟨front, last, rfl⟩ := eq_nil_or_concat q |>.resolve_left hq
  have hfront : (begun ++ .done :: front) ++ [last] = body ++ [.done] := by simpa using hbody
  exact hnot ((append_inj' hfront rfl).1 ▸ by simp)

namespace Script

/-! ## What a line does -/

/-- How long to sleep is all that a verb with a read argument says. -/
theorem readSleep_plain {name arg : List Char} (h : readSleep name arg = .ok c) :
    c.latch? = none ∧ c ≠ .done := by
  unfold readSleep at h
  dsimp only at h
  split at h
  · cases h
  · split at h
    · split at h
      · cases h
        exact ⟨rfl, nofun⟩
      · cases h
    · cases h

/-- **The command of a line** is neither held by a latch nor the end of its connection. -/
theorem readCommand_plain {name verb : List Char} {arg : Option (List Char)}
    (h : readCommand name verb arg = .ok c) : c.latch? = none ∧ c ≠ .done := by
  unfold readCommand at h
  split at h
  · obtain ⟨raw, -, hraw⟩ := ok_of_bind h
    exact readSleep_plain hraw
  split at h
  · cases h
    exact ⟨rfl, nofun⟩
  split at h
  · obtain ⟨data, -, rfl⟩ := ok_of_map h
    exact ⟨rfl, nofun⟩
  split at h
  · obtain ⟨data, -, rfl⟩ := ok_of_map h
    exact ⟨rfl, nofun⟩
  split at h
  · cases h
    exact ⟨rfl, nofun⟩
  split at h
  · cases h
    exact ⟨rfl, nofun⟩
  · cases h

variable {s s' script : Script} {line : Line} {ls : List (List Char)} {k : ConnectionScript}
  {text : List Char}

/-- **What a line can do to a script**: nothing, a barrier, a command more, or a connection more. -/
theorem applyLine_cases (h : s.applyLine line = .ok s') :
    s' = s ∨ (line = .barrier ∧ s' = s.addBarrier) ∨
    (∃ name verb arg c, line = .command name verb arg ∧ readCommand name verb arg = .ok c ∧
      s' = s.addWhere (·.name == String.ofList name) c) ∨
    (∃ name t, (∃ verb arg, line = .command (String.toList name) verb arg) ∧
      s.declares name = false ∧ s' = s.addConnection name t) := by
  cases line with
  | nothing => exact Or.inl (Except.ok.inj h).symm
  | barrier => exact Or.inr (Or.inl ⟨rfl, (Except.ok.inj h).symm⟩)
  | incomplete line => cases h
  | command name verb arg =>
    simp only [applyLine] at h
    split at h
    · obtain ⟨c, hc, rfl⟩ := ok_of_map h
      exact Or.inr (Or.inr (Or.inl ⟨name, verb, arg, c, rfl, hc, rfl⟩))
    · rename_i hd
      obtain ⟨t, -, rfl⟩ := ok_of_map h
      exact Or.inr (Or.inr (Or.inr ⟨_, t, ⟨verb, arg, by rw [String.toList_ofList]⟩,
        by simpa using hd, rfl⟩))

/-! ## Reading line by line -/

/-- The script after further lines. -/
def readFrom (s : Script) (ls : List (List Char)) : Except Error Script :=
  ls.foldlM (fun (s : Script) line => s.applyLine (Line.read line)) s

theorem readFrom_cons (s : Script) (line : List Char) (ls : List (List Char)) :
    s.readFrom (line :: ls) = (s.applyLine (Line.read line)).bind (·.readFrom ls) :=
  foldlM_cons

theorem readFrom_append (s : Script) (ls more : List (List Char)) :
    s.readFrom (ls ++ more) = (s.readFrom ls).bind (·.readFrom more) :=
  foldlM_append

/-- **What every line keeps, a reading keeps.** -/
theorem readFrom_induction {P : Script → Prop}
    (step : ∀ {s s' line}, line ∈ ls → s.applyLine (Line.read line) = .ok s' → P s → P s')
    (h : s.readFrom ls = .ok s') (hs : P s) : P s' := by
  induction ls generalizing s with
  | nil =>
    cases h
    exact hs
  | cons line ls ih =>
    rw [readFrom_cons] at h
    obtain ⟨s₁, h₁, h⟩ := ok_of_bind h
    exact ih (fun hmem => step (mem_cons_of_mem line hmem)) h (step mem_cons_self h₁ hs)

/-! ## Queues only grow -/

/-- Every connection of `s` is there in `s'`, at the same position, with its queue continued. -/
def Extends (s s' : Script) : Prop :=
  ∀ (j : Nat) (k : ConnectionScript), s.connections[j]? = some k →
    ∃ k' : ConnectionScript, s'.connections[j]? = some k' ∧ k'.name = k.name ∧
      k.commands <+: k'.commands

theorem Extends.refl (s : Script) : s.Extends s := fun _ k hk => ⟨k, hk, rfl, prefix_rfl⟩

theorem Extends.trans {s₁ s₂ s₃ : Script} (h : s₁.Extends s₂) (h' : s₂.Extends s₃) :
    s₁.Extends s₃ := by
  intro j k hk
  obtain ⟨k₂, hk₂, hn₂, hp₂⟩ := h j k hk
  obtain ⟨k₃, hk₃, hn₃, hp₃⟩ := h' j k₂ hk₂
  exact ⟨k₃, hk₃, hn₃.trans hn₂, hp₂.trans hp₃⟩

theorem Extends.getElem? (h : s.Extends s') {j p : Nat} (hk : s.connections[j]? = some k)
    (hc : k.commands[p]? = some c) :
    ∃ k', s'.connections[j]? = some k' ∧ k'.commands[p]? = some c := by
  obtain ⟨k', hk', -, t, ht⟩ := h j k hk
  have hp : p < k.commands.length := (List.getElem?_eq_some_iff.mp hc).1
  exact ⟨k', hk', by rw [← ht, getElem?_append_left hp, hc]⟩

@[simp] theorem addIf_name (p : ConnectionScript → Bool) (c : Command) (k : ConnectionScript) :
    (addIf p c k).name = k.name := by
  unfold addIf
  split <;> rfl

theorem addIf_commands (p : ConnectionScript → Bool) (c : Command) (k : ConnectionScript) :
    (addIf p c k).commands = k.commands ++ (if p k then [c] else []) := by
  unfold addIf
  split <;> simp

theorem getElem?_addWhere (s : Script) (p : ConnectionScript → Bool) (c : Command) (j : Nat) :
    (s.addWhere p c).connections[j]? = (s.connections[j]?).map (addIf p c) :=
  getElem?_map

theorem extends_addWhere (s : Script) (p : ConnectionScript → Bool) (c : Command) :
    s.Extends (s.addWhere p c) := by
  intro j k hk
  refine ⟨addIf p c k, by rw [getElem?_addWhere, hk]; rfl, addIf_name p c k, ?_⟩
  rw [addIf_commands]
  exact prefix_append _ _

theorem extends_addConnection (s : Script) (name : String) (t : Transport) :
    s.Extends (s.addConnection name t) := by
  intro j k hk
  have hj : j < s.connections.length := (List.getElem?_eq_some_iff.mp hk).1
  exact ⟨k, (getElem?_append_left hj).trans hk, rfl, prefix_rfl⟩

theorem applyLine_extends (h : s.applyLine line = .ok s') : s.Extends s' := by
  rcases applyLine_cases h with rfl | ⟨-, rfl⟩ | ⟨name, _, _, c, -, -, rfl⟩ | ⟨name, t, -, -, rfl⟩
  · exact Extends.refl _
  · exact fun j k hk => extends_addWhere s _ _ j k hk
  · exact extends_addWhere s _ c
  · exact extends_addConnection s name t

theorem readFrom_extends (h : s.readFrom ls = .ok s') : s.Extends s' :=
  readFrom_induction (P := s.Extends) (fun _ hline hs => hs.trans (applyLine_extends hline)) h
    (Extends.refl s)

/-! ## The order of the latches -/

/-- **How barriers are laid into a script**: a queue meets its latches in the order of the barriers
and has met the last of them, and a latch expects the connections that arrive at it. -/
structure Laid (s : Script) : Prop where
  increasing : ∀ k ∈ s.connections, (marks k.commands).Pairwise (· < ·)
  bounded : ∀ k ∈ s.connections, ∀ m ∈ marks k.commands, m < s.latches.length
  current : ∀ k ∈ s.connections, ∀ m, s.latches.length = m + 1 → m ∈ marks k.commands
  expected : ∀ (m : Nat) (l : Latch), s.latches[m]? = some l →
    l.remaining = s.connections.countP fun k => .arrive m ∈ k.commands

theorem laid_empty : Laid {} where
  increasing := by simp
  bounded := by simp
  current := by simp
  expected := by simp

/-- Counting after a change of every connection that does not change what is counted. -/
theorem countP_map_of_iff {f : ConnectionScript → ConnectionScript} {m : Nat}
    {ks : List ConnectionScript}
    (hf : ∀ k ∈ ks, .arrive m ∈ (f k).commands ↔ .arrive m ∈ k.commands) :
    (ks.map f).countP (fun k => .arrive m ∈ k.commands)
      = ks.countP fun k => .arrive m ∈ k.commands := by
  rw [countP_map]
  exact countP_congr fun k hk => by simpa using hf k hk

theorem laid_addWhere (h : s.Laid) (p : ConnectionScript → Bool) (hc : c.latch? = none) :
    (s.addWhere p c).Laid := by
  have hmarks : ∀ k, marks (addIf p c k).commands = marks k.commands := by
    intro k
    rw [addIf_commands]
    split
    · exact marks_append_plain hc _
    · rw [append_nil]
  have hmem : ∀ k' ∈ (s.addWhere p c).connections,
      ∃ k ∈ s.connections, marks k'.commands = marks k.commands := by
    intro k' hk'
    obtain ⟨k, hk, rfl⟩ := mem_map.mp hk'
    exact ⟨k, hk, hmarks k⟩
  refine ⟨fun k' hk' => ?_, fun k' hk' => ?_, fun k' hk' => ?_, fun m l hl => ?_⟩
  · obtain ⟨k, hk, he⟩ := hmem k' hk'
    rw [he]
    exact h.increasing k hk
  · obtain ⟨k, hk, he⟩ := hmem k' hk'
    rw [he]
    exact h.bounded k hk
  · obtain ⟨k, hk, he⟩ := hmem k' hk'
    rw [he]
    exact h.current k hk
  · rw [h.expected m l hl]
    refine (countP_map_of_iff fun k _ => ?_).symm
    have hne : Command.arrive m ≠ c := by
      rintro rfl
      cases hc
    rw [addIf_commands]
    split <;> simp [hne]

/-- A barrier is met by everyone, and nobody has met it before. -/
theorem laid_addBarrier (h : s.Laid) : s.addBarrier.Laid := by
  have hcommands : ∀ k' ∈ s.addBarrier.connections,
      ∃ k ∈ s.connections, k'.commands = k.commands ++ [.arrive s.latches.length] := by
    intro k' hk'
    obtain ⟨k, hk, rfl⟩ := mem_map.mp hk'
    exact ⟨k, hk, addIf_commands _ _ k⟩
  have hlength : s.addBarrier.latches.length = s.latches.length + 1 := length_append
  refine ⟨fun k' hk' => ?_, fun k' hk' m hm => ?_, fun k' hk' m hm => ?_, fun m l hl => ?_⟩
  · obtain ⟨k, hk, he⟩ := hcommands k' hk'
    rw [he, marks_append, pairwise_append]
    refine ⟨h.increasing k hk, pairwise_singleton _ _, fun a ha b hb => ?_⟩
    obtain rfl : b = s.latches.length := by simpa [marks, Command.latch?] using hb
    exact h.bounded k hk a ha
  · obtain ⟨k, hk, he⟩ := hcommands k' hk'
    rw [he, marks_append, mem_append] at hm
    rw [hlength]
    rcases hm with hm | hm
    · exact Nat.lt_succ_of_lt (h.bounded k hk m hm)
    · obtain rfl : m = s.latches.length := by simpa [marks, Command.latch?] using hm
      exact Nat.lt_succ_self _
  · obtain ⟨k, hk, he⟩ := hcommands k' hk'
    obtain rfl : s.latches.length = m := by omega
    rw [mem_marks, he]
    exact Or.inr (by simp)
  · have hcount : s.addBarrier.connections.countP (fun k => .arrive m ∈ k.commands)
        = if m = s.latches.length then s.connections.length
          else s.connections.countP fun k => .arrive m ∈ k.commands := by
      split
      · rename_i hm
        subst hm
        rw [countP_eq_length.mpr, show s.addBarrier.connections.length = s.connections.length
          from length_map _]
        intro k' hk'
        obtain ⟨k, -, he⟩ := hcommands k' hk'
        simp [he]
      · rename_i hm
        refine countP_map_of_iff fun k _ => ?_
        rw [addIf_commands]
        simp [hm]
    rw [hcount]
    have hl : (s.latches ++ [⟨s.latches.length, s.connections.length⟩])[m]? = some l := hl
    rcases Nat.lt_trichotomy m s.latches.length with hm | hm | hm
    · rw [getElem?_append_left hm] at hl
      rw [if_neg (Nat.ne_of_lt hm)]
      exact h.expected m l hl
    · subst hm
      rw [getElem?_append_right (Nat.le_refl _)] at hl
      rw [if_pos rfl]
      obtain rfl : (⟨s.latches.length, s.connections.length⟩ : Latch) = l := by simpa using hl
      rfl
    · rw [getElem?_eq_none (by simp; omega)] at hl
      cases hl

/-- Who joins late waits for the last barrier so far and takes part in none. -/
theorem laid_addConnection (h : s.Laid) (name : String) (t : Transport) :
    (s.addConnection name t).Laid := by
  have hmem : ∀ k' ∈ (s.addConnection name t).connections, k' ∈ s.connections ∨
      k'.commands = if s.latches.isEmpty then [] else [.wait (s.latches.length - 1)] := by
    intro k' hk'
    rcases mem_append.mp hk' with hk | hk
    · exact Or.inl hk
    · rw [mem_singleton.mp hk]
      exact Or.inr rfl
  refine ⟨fun k' hk' => ?_, fun k' hk' => ?_, fun k' hk' => ?_, fun m l hl => ?_⟩
  · rcases hmem k' hk' with hk | hk
    · exact h.increasing k' hk
    · rw [hk]
      split <;> simp [marks, Command.latch?]
  · rcases hmem k' hk' with hk | hk
    · exact h.bounded k' hk
    · rw [hk]
      intro m hm
      split at hm
      · cases hm
      · rename_i hne
        obtain rfl : m = s.latches.length - 1 := by simpa [marks, Command.latch?] using hm
        have : s.latches.length ≠ 0 := by simpa using hne
        exact Nat.sub_lt (Nat.pos_of_ne_zero this) Nat.one_pos
  · rcases hmem k' hk' with hk | hk
    · exact h.current k' hk
    · rw [hk]
      intro m hm
      have hm : s.latches.length = m + 1 := hm
      have hne : s.latches.isEmpty = false := by
        rw [isEmpty_eq_false_iff]
        rintro hnil
        rw [hnil] at hm
        cases hm
      simp [hne, hm, marks, Command.latch?]
  · rw [h.expected m l hl]
    unfold addConnection
    rw [countP_append]
    split <;> simp

theorem applyLine_laid (h : s.applyLine line = .ok s') (hs : s.Laid) : s'.Laid := by
  rcases applyLine_cases h with rfl | ⟨-, rfl⟩ | ⟨_, _, _, c, -, hc, rfl⟩ | ⟨name, t, -, -, rfl⟩
  · exact hs
  · exact laid_addBarrier hs
  · exact laid_addWhere hs _ (readCommand_plain hc).1
  · exact laid_addConnection hs name t

theorem readFrom_laid (h : readFrom {} ls = .ok s) : s.Laid :=
  readFrom_induction (fun _ => applyLine_laid) h laid_empty

/-- **Every script that is read has its barriers laid.** -/
theorem read_laid (h : read text = .ok s) : s.Laid := by
  obtain ⟨s₀, h₀, rfl⟩ := ok_of_map h
  exact laid_addWhere (readFrom_laid h₀) _ rfl

/-! ## The end of a queue -/

theorem applyLine_no_done (h : s.applyLine line = .ok s')
    (hs : ∀ k ∈ s.connections, .done ∉ k.commands) : ∀ k ∈ s'.connections, .done ∉ k.commands := by
  have hadd : ∀ (p : ConnectionScript → Bool) {c : Command}, c ≠ .done →
      ∀ k' ∈ s.connections.map (addIf p c), .done ∉ k'.commands := by
    intro p c hc k' hk'
    obtain ⟨k, hk, rfl⟩ := mem_map.mp hk'
    rw [addIf_commands]
    split <;> simp [hs k hk, hc.symm]
  rcases applyLine_cases h with rfl | ⟨-, rfl⟩ | ⟨_, _, _, c, -, hc, rfl⟩ | ⟨name, t, -, -, rfl⟩
  · exact hs
  · exact hadd _ nofun
  · exact hadd _ (readCommand_plain hc).2
  · intro k' hk'
    rcases mem_append.mp hk' with hk | hk
    · exact hs k' hk
    · rw [mem_singleton.mp hk]
      split <;> simp

/-- **A queue ends once**, with its last command. -/
theorem read_ends (h : read text = .ok s) :
    ∀ k ∈ s.connections, EndsInDone k.commands := by
  obtain ⟨s₀, h₀, rfl⟩ := ok_of_map h
  have hopen := readFrom_induction (fun _ => applyLine_no_done) h₀ (by simp)
  intro k hk
  obtain ⟨k₀, hk₀, rfl⟩ := mem_map.mp hk
  exact ⟨k₀.commands, addIf_commands _ _ k₀, hopen k₀ hk₀⟩

/-! ## The names of connections -/

theorem names_addWhere (s : Script) (p : ConnectionScript → Bool) (c : Command) :
    (s.addWhere p c).connections.map (·.name) = s.connections.map (·.name) := by
  rw [addWhere, map_map]
  exact map_congr_left fun k _ => addIf_name p c k

theorem applyLine_names (h : s.applyLine line = .ok s') (hs : (s.connections.map (·.name)).Nodup) :
    (s'.connections.map (·.name)).Nodup := by
  rcases applyLine_cases h with rfl | ⟨-, rfl⟩ | ⟨name, _, _, c, -, -, rfl⟩ | ⟨name, t, -, hnew, rfl⟩
  · exact hs
  · exact (names_addWhere s _ _).symm ▸ hs
  · exact (names_addWhere s _ _).symm ▸ hs
  · have hfresh : name ∉ s.connections.map (·.name) := fun hmem => by
      obtain ⟨k, hk, rfl⟩ := mem_map.mp hmem
      have hdeclared : s.declares k.name = true := any_eq_true.mpr ⟨k, hk, BEq.rfl⟩
      rw [hnew] at hdeclared
      cases hdeclared
    rw [addConnection, map_append]
    refine nodup_append.mpr ⟨hs, pairwise_singleton _ _, fun x hx y hy => ?_⟩
    rw [mem_singleton.mp hy]
    rintro rfl
    exact hfresh hx

/-- **No two connections have one name.** -/
theorem read_names (h : read text = .ok s) : (s.connections.map (·.name)).Nodup := by
  obtain ⟨s₀, h₀, rfl⟩ := ok_of_map h
  rw [close, names_addWhere]
  exact readFrom_induction (fun _ => applyLine_names) h₀ nodup_nil

/-- A line feed stands at most at the end of a line. -/
theorem newline_notMem_dropLast {line : List Char} (h : line ∈ lines text) :
    '\n' ∉ line.dropLast := by
  have hpieces := (splitWhere_spec '\n' text).2
  rcases mem_append.mp h with h | h
  · obtain ⟨piece, hpiece, rfl⟩ := mem_map.mp h
    rw [dropLast_concat]
    exact hpieces piece (dropLast_subset _ hpiece)
  · have hlast := (Option.filter_eq_some_iff.mp (Option.mem_toList.mp h)).1
    exact fun hmem => hpieces line (mem_of_getLast? hlast) (dropLast_subset _ hmem)

/-- A name that is told apart from whatever follows it after a space. -/
def Plain (name : String) : Prop := ' ' ∉ name.toList ∧ '\n' ∉ name.toList

theorem plain_of_read {raw verb : List Char} {name : String} {arg : Option (List Char)}
    (hraw : '\n' ∉ raw.dropLast) (h : Line.read raw = .command name.toList verb arg) :
    Plain name := by
  unfold Line.read fields at h
  rcases hcut : cutAt [' '] raw with _ | ⟨first, rest⟩
  · simp only [hcut] at h
    split_ifs at h
  · obtain rfl : first = name.toList := by
      rcases hrest : cutAt [' '] rest with _ | ⟨second, more⟩ <;> simp only [hcut, hrest] at h <;>
        split_ifs at h <;> exact (Line.command.inj h).1
    obtain ⟨rfl, hspace⟩ := cutAt_singleton_eq_some_iff.mp hcut
    rw [dropLast_append_of_ne_nil (cons_ne_nil ' ' rest)] at hraw
    exact ⟨hspace, fun hmem => hraw (mem_append_left _ hmem)⟩

/-- **Every connection has a plain name.** -/
theorem read_plain (h : read text = .ok s) : ∀ name ∈ s.connections.map (·.name), Plain name := by
  obtain ⟨s₀, h₀, rfl⟩ := ok_of_map h
  rw [close, names_addWhere]
  refine readFrom_induction (P := fun s => ∀ name ∈ s.connections.map (·.name), Plain name)
    (fun hmem h hs => ?_) h₀ (by simp)
  rcases applyLine_cases h with
    rfl | ⟨-, rfl⟩ | ⟨_, _, _, c, -, -, rfl⟩ | ⟨name, t, ⟨_, _, hline⟩, -, rfl⟩
  · exact hs
  · exact (names_addWhere _ _ _).symm ▸ hs
  · exact (names_addWhere _ _ _).symm ▸ hs
  · rw [addConnection, map_append]
    exact forall_mem_append.mpr ⟨hs, by
      simpa using plain_of_read (newline_notMem_dropLast hmem) hline⟩

/-! ## Places

The command of a line goes to the end of a queue, so its place is known when the line is read. -/

/-- A place in a script: a connection, and a position in its queue. -/
structure Place where
  connection : Nat
  position : Nat
deriving DecidableEq, Repr

def at? (s : Script) (p : Place) : Option Command :=
  (s.connections[p.connection]?).bind fun k => k.commands[p.position]?

/-- The place at which a script takes the next command of a connection. -/
def nextPlace? (s : Script) (name : String) : Option Place :=
  (s.connections.findIdx? (·.name == name)).map fun j =>
    ⟨j, ((s.connections[j]?).map (·.commands.length)).getD 0⟩

/-- **The place that the command of a line takes**, where lines count from zero; a line that is no
command has none. -/
def placeOf? (text : List Char) (line : Nat) : Option Place :=
  match (lines text)[line]?, readFrom {} ((lines text).take line) with
  | some raw, .ok s =>
    match Line.read raw with
    | .command name _ _ => s.nextPlace? (String.ofList name)
    | _ => none
  | _, _ => none

def isBarrier (text : List Char) (line : Nat) : Bool :=
  ((lines text)[line]?).map Line.read == some .barrier

/-- The number of barriers before a line. -/
def barriersBefore (text : List Char) (line : Nat) : Nat :=
  ((lines text).take line).countP fun raw => Line.read raw = .barrier

/-- A barrier between two lines is counted at the later one only. -/
theorem barriersBefore_lt {a b c : Nat} (hab : a < b) (hbc : b < c) (hb : isBarrier text b = true) :
    barriersBefore text a < barriersBefore text c := by
  obtain ⟨raw, hraw, hbar⟩ : ∃ raw, (lines text)[b]? = some raw ∧ Line.read raw = .barrier := by
    simpa [isBarrier] using hb
  have hcount : barriersBefore text (b + 1) = barriersBefore text b + 1 := by
    simp [barriersBefore, take_add_one, hraw, hbar]
  have hmono : ∀ {i j : Nat}, i ≤ j → barriersBefore text i ≤ barriersBefore text j := fun hij =>
    (take_sublist_take_left hij).countP_le
  calc barriersBefore text a ≤ barriersBefore text b := hmono (Nat.le_of_lt hab)
    _ < barriersBefore text (b + 1) := by omega
    _ ≤ barriersBefore text c := hmono hbc

/-- **A script has a latch for each of its barriers.** -/
theorem readFrom_latches (h : s.readFrom ls = .ok s') :
    s'.latches.length = s.latches.length + ls.countP fun raw => Line.read raw = .barrier := by
  induction ls generalizing s with
  | nil =>
    cases h
    rfl
  | cons raw ls ih =>
    rw [readFrom_cons] at h
    obtain ⟨s₁, h₁, h⟩ := ok_of_bind h
    have hs₁ : s₁.latches.length
        = s.latches.length + if Line.read raw = .barrier then 1 else 0 := by
      cases hline : Line.read raw with
      | barrier =>
        rw [hline] at h₁
        cases h₁
        simp [addBarrier]
      | nothing =>
        rw [hline] at h₁
        cases h₁
        rfl
      | incomplete line =>
        rw [hline] at h₁
        cases h₁
      | command name verb arg =>
        rw [hline] at h₁
        simp only [applyLine] at h₁
        split at h₁
        · obtain ⟨c, -, rfl⟩ := ok_of_map h₁
          rfl
        · obtain ⟨t, -, rfl⟩ := ok_of_map h₁
          rfl
    rw [ih h, hs₁, countP_cons]
    simp only [decide_eq_true_eq]
    omega

/-- No line has more barriers before it than there are latches in the end. -/
theorem barriersBefore_le (h : read text = .ok script) (line : Nat) :
    barriersBefore text line ≤ script.latches.length := by
  obtain ⟨s, hs, rfl⟩ := ok_of_map h
  calc barriersBefore text line
      ≤ (lines text).countP fun raw => Line.read raw = .barrier :=
        (take_sublist line _).countP_le
    _ = s.latches.length := by
        rw [readFrom_latches hs]
        exact (Nat.zero_add _).symm

/-- What a reading does before a line, at it and after it. -/
theorem read_at {raw : List Char} {line : Nat} (h : read text = .ok script)
    (hraw : (lines text)[line]? = some raw) :
    ∃ before after last, readFrom {} ((lines text).take line) = .ok before ∧
      before.applyLine (Line.read raw) = .ok after ∧
      after.readFrom ((lines text).drop (line + 1)) = .ok last ∧ script = last.close := by
  obtain ⟨hlt, rfl⟩ := List.getElem?_eq_some_iff.mp hraw
  obtain ⟨last, hlast, rfl⟩ := ok_of_map h
  rw [← take_append_drop line (lines text)] at hlast
  obtain ⟨before, hbefore, hlast⟩ := ok_of_bind ((readFrom_append _ _ _).symm.trans hlast)
  rw [drop_eq_getElem_cons hlt, readFrom_cons] at hlast
  obtain ⟨after, hafter, hlast⟩ := ok_of_bind hlast
  exact ⟨before, after, last, hbefore, hafter, hlast, rfl⟩

variable {p : Place}

theorem placeOf?_cases {line : Nat} (h : placeOf? text line = some p) :
    ∃ raw name verb arg s k, (lines text)[line]? = some raw ∧
      Line.read raw = .command name verb arg ∧ readFrom {} ((lines text).take line) = .ok s ∧
      s.connections[p.connection]? = some k ∧ k.name = String.ofList name ∧
      k.commands.length = p.position := by
  unfold placeOf? at h
  split at h
  · rename_i raw s hraw hs
    split at h
    · rename_i name verb arg hline
      obtain ⟨j, hj, rfl⟩ := Option.map_eq_some_iff.mp h
      obtain ⟨hlt, hname, -⟩ := findIdx?_eq_some_iff_getElem.mp hj
      refine ⟨raw, name, verb, arg, s, _, hraw, hline, hs, getElem?_eq_getElem hlt,
        by simpa using hname, ?_⟩
      simp [getElem?_eq_getElem hlt]
    · cases h
  · cases h

/-- **A reading passes the place of a line**: the script before it, the command that the line adds
there, and the lines that follow. -/
theorem read_place {line : Nat} (h : read text = .ok script) (hp : placeOf? text line = some p) :
    ∃ raw name verb arg c s k last, (lines text)[line]? = some raw ∧
      Line.read raw = .command name verb arg ∧ readCommand name verb arg = .ok c ∧
      readFrom {} ((lines text).take line) = .ok s ∧ s.connections[p.connection]? = some k ∧
      k.name = String.ofList name ∧ k.commands.length = p.position ∧
      (s.addWhere (·.name == String.ofList name) c).readFrom ((lines text).drop (line + 1))
        = .ok last ∧ script = last.close := by
  obtain ⟨raw, name, verb, arg, s, k, hraw, hline, hs, hk, hname, hlength⟩ := placeOf?_cases hp
  obtain ⟨before, after, last, hbefore, hafter, hlast, rfl⟩ := read_at h hraw
  obtain rfl : before = s := Except.ok.inj (hbefore.symm.trans hs)
  have hdeclared : before.declares (String.ofList name) = true := by
    refine any_eq_true.mpr ⟨k, mem_of_getElem? hk, ?_⟩
    simpa using hname
  rw [hline] at hafter
  simp only [applyLine, hdeclared, if_true] at hafter
  obtain ⟨c, hc, rfl⟩ := ok_of_map hafter
  exact ⟨raw, name, verb, arg, c, before, k, last, hraw, hline, hc, hs, hk, hname, hlength, hlast,
    rfl⟩

/-- What a queue holds at some time, it holds in the end. -/
theorem at?_of_extends (h : s.Extends script) {j p : Nat} (hk : s.connections[j]? = some k)
    (hc : k.commands[p]? = some c) : script.at? ⟨j, p⟩ = some c := by
  obtain ⟨k', hk', hc'⟩ := h.getElem? hk hc
  simp [at?, hk', hc']

/-- **The command of a line stands at its place.** -/
theorem placeOf?_spec {line : Nat} (h : read text = .ok script) (hp : placeOf? text line = some p) :
    ∃ raw name verb arg c, (lines text)[line]? = some raw ∧
      Line.read raw = .command name verb arg ∧ readCommand name verb arg = .ok c ∧
      script.at? p = some c := by
  obtain ⟨raw, name, verb, arg, c, s, k, last, hraw, hline, hc, -, hk, hname, hlength, hlast,
    rfl⟩ := read_place h hp
  refine ⟨raw, name, verb, arg, c, hraw, hline, hc, ?_⟩
  refine at?_of_extends ((readFrom_extends hlast).trans (extends_addWhere last _ _))
    ((getElem?_addWhere _ _ _ _).trans (congrArg _ hk)) ?_
  rw [addIf_commands, ← hlength]
  simp [hname]

/-- **Before the place of a line stands the latch of the last barrier before the line.** -/
theorem mark_before {line m : Nat} (h : read text = .ok script) (hp : placeOf? text line = some p)
    (hm : barriersBefore text line = m + 1) :
    ∃ q < p.position, script.at? ⟨p.connection, q⟩ = some (.wait m) ∨
      script.at? ⟨p.connection, q⟩ = some (.arrive m) := by
  obtain ⟨raw, name, verb, arg, c, s, k, last, -, -, -, hs, hk, -, hlength, hlast, rfl⟩ :=
    read_place h hp
  have hext : s.Extends last.close :=
    ((extends_addWhere s _ c).trans (readFrom_extends hlast)).trans (extends_addWhere last _ _)
  have hlatches : s.latches.length = m + 1 := by
    rw [← hm, readFrom_latches hs]
    exact Nat.zero_add _
  have hplace : ∀ c ∈ k.commands, ∃ q < p.position, last.close.at? ⟨p.connection, q⟩ = some c := by
    intro c hc
    obtain ⟨q, hq, rfl⟩ := getElem_of_mem hc
    exact ⟨q, hlength ▸ hq, at?_of_extends hext hk (getElem?_eq_getElem hq)⟩
  rcases mem_marks.mp ((readFrom_laid hs).current k (mem_of_getElem? hk) m hlatches)
    with hc | hc
  · obtain ⟨q, hq, hat⟩ := hplace _ hc
    exact ⟨q, hq, Or.inl hat⟩
  · obtain ⟨q, hq, hat⟩ := hplace _ hc
    exact ⟨q, hq, Or.inr hat⟩

/-- The barriers of further lines come after all that a queue held before them. -/
theorem readFrom_arrive (h : s.readFrom ls = .ok s') {j : Nat} (hk : s.connections[j]? = some k)
    {m : Nat} (hm : s.latches.length ≤ m) (hm' : m < s'.latches.length) :
    ∃ k', s'.connections[j]? = some k' ∧
      ∃ q, k.commands.length ≤ q ∧ k'.commands[q]? = some (.arrive m) := by
  refine (readFrom_induction (P := fun s' => s.Extends s' ∧ (m < s'.latches.length →
    ∃ k', s'.connections[j]? = some k' ∧
      ∃ q, k.commands.length ≤ q ∧ k'.commands[q]? = some (.arrive m)))
    ?_ h ⟨Extends.refl s, fun hlt => absurd hm (by omega)⟩).2 hm'
  rintro s₁ s₂ line - hline ⟨hext, ih⟩
  refine ⟨hext.trans (applyLine_extends hline), fun hlt => ?_⟩
  by_cases hold : m < s₁.latches.length
  · obtain ⟨k₁, hk₁, q, hq, hc⟩ := ih hold
    obtain ⟨k₂, hk₂, hc₂⟩ := (applyLine_extends hline).getElem? hk₁ hc
    exact ⟨k₂, hk₂, q, hq, hc₂⟩
  · -- the latch is new, so the line is its barrier
    rcases applyLine_cases hline with rfl | ⟨-, rfl⟩ | ⟨_, _, _, c, -, -, rfl⟩ | ⟨name, t, -, -, rfl⟩
    · exact absurd hlt hold
    · obtain rfl : m = s₁.latches.length := by
        have : (s₁.addBarrier).latches.length = s₁.latches.length + 1 := length_append
        omega
      obtain ⟨k₁, hk₁, -, hprefix⟩ := hext j k hk
      refine ⟨_, (getElem?_addWhere _ _ _ _).trans (congrArg _ hk₁), k₁.commands.length,
        hprefix.length_le, ?_⟩
      rw [addIf_commands]
      simp
    · exact absurd hlt hold
    · exact absurd hlt hold

/-- **After the place of a line its connection arrives at every later barrier.** -/
theorem arrive_after {line m : Nat} (h : read text = .ok script) (hp : placeOf? text line = some p)
    (hm : barriersBefore text line ≤ m) (hm' : m < script.latches.length) :
    ∃ q > p.position, script.at? ⟨p.connection, q⟩ = some (.arrive m) := by
  obtain ⟨raw, name, verb, arg, c, s, k, last, -, -, -, hs, hk, hname, hlength, hlast, rfl⟩ :=
    read_place h hp
  have hlatches : s.latches.length ≤ m := by
    refine Nat.le_trans (Nat.le_of_eq ?_) hm
    rw [readFrom_latches hs]
    exact Nat.zero_add _
  obtain ⟨k', hk', q, hq, hc⟩ := readFrom_arrive hlast
    ((getElem?_addWhere _ _ _ _).trans (congrArg _ hk)) hlatches hm'
  refine ⟨q, ?_, at?_of_extends (extends_addWhere last _ _) hk' hc⟩
  rw [addIf_commands] at hq
  simp only [beq_iff_eq, hname, if_true, length_append, length_singleton] at hq
  omega

end Script

end Judge
