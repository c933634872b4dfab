import Mathlib.Data.List.Perm.Basic
import Judge.Proofs.Comparisons
import Judge.Proofs.HexNumerals
import Judge.Proofs.Outcomes
import Judge.Suite.Runner

/-!
# Proofs/Census — no process hides behind its name

A process chooses its name, and the name stands in front of what is read from its row.  `Row` is a
row of the process table with any bytes for the name.  Since nothing behind the name has a closing
parenthesis, the last one ends the name, whatever is in it (`Row.parseStat?_stat`).

`Shows h Calm root rows` says that a machine answers from a table with these rows, in any order and
with other entries between them.  A walk over the rows then finds the children, each of them once
(`Shows.childrenAmong_gives`), and the check for processes left behind counts those of them that live
(`orphan_census`).
-/

namespace Judge

open Program (Gives Handler Returns run_perform)

/-! ## Numbers as they are written -/

namespace Integer

theorem numeral_toString (n : Nat) : Numeral (toString n).toList n := by
  rw [Nat.toString_eq_ofList_toDigits, String.toList_ofList]
  exact ⟨Nat.toDigits_ne_nil, fun c => Nat.isDigit_of_mem_toDigits (by decide) (by decide),
    Nat.ofDigitChars_ten_toDigits⟩

theorem toString_negSucc (n : Nat) :
    (toString (Int.negSucc n)).toList = '-' :: (toString (n + 1)).toList := by
  rw [show toString (Int.negSucc n) = "-" ++ toString (n + 1) from rfl, String.toList_append]
  rfl

theorem signed_toString (i : Int) : Signed (toString i).toList i := by
  cases i with
  | ofNat n => exact .inl ⟨n, .inl (numeral_toString n), rfl⟩
  | negSucc n => exact .inr ⟨_, n + 1, toString_negSucc n, numeral_toString (n + 1), rfl⟩

theorem toString_ne_nil (i : Int) : (toString i).toList ≠ [] := by
  cases i with
  | ofNat n => exact (numeral_toString n).1
  | negSucc n => rw [toString_negSucc]; exact List.cons_ne_nil _ _

/-- A number is written with digits and a minus sign. -/
theorem mem_toString {i : Int} {c : Char} (hc : c ∈ (toString i).toList) :
    c.isDigit = true ∨ c = '-' := by
  cases i with
  | ofNat n => exact .inl ((numeral_toString n).2.1 c hc)
  | negSucc n =>
    rw [toString_negSucc, List.mem_cons] at hc
    exact hc.symm.imp_left ((numeral_toString (n + 1)).2.1 c)

end Integer

namespace ProcessTable

/-! ## A row -/

/-- A sign of a field: no blank, and no closing parenthesis. -/
def Visible (c : Char) : Prop := c ∉ [' ', '\t', '\n', '\x0c', '\r', ')']

instance (c : Char) : Decidable (Visible c) := inferInstanceAs (Decidable (_ ∉ _))

/-- **A row of the process table.** -/
structure Row where
  pid : Int
  name : Bytes
  state : Char
  parent : Int
  fields : List Int
  ended : Bool
  cmdline : Except OsError Bytes
  pid_fits : -2 ^ 31 ≤ pid ∧ pid < 2 ^ 31
  parent_fits : -2 ^ 31 ≤ parent ∧ parent < 2 ^ 31
  state_visible : Visible state

namespace Row

/-- What follows the state and the parent. -/
def ending (r : Row) : List Char :=
  r.fields.flatMap (fun n => ' ' :: (toString n).toList) ++ if r.ended then ['\n'] else []

/-- What follows the name. -/
def details (r : Row) : List Char :=
  r.state :: ' ' :: ((toString r.parent).toList ++ r.ending)

/-- **The text of a row**: the number, the name in parentheses, and the rest. -/
def stat (r : Row) : Bytes :=
  utf8 (toString r.pid) ++ utf8 " (" ++ r.name ++ utf8 ") " ++ Utf8.encode r.details

/-- What is to be found out about the process. -/
def entry (r : Row) : ProcessEntry where
  pid := r.pid
  parent := r.parent
  state := r.state
  cmdline := match r.cmdline with
    | .ok raw => parseCmdline raw
    | .error _ => []

end Row

/-! ## Reading a row -/

theorem fieldBreak_of_visible {c : Char} (hc : Visible c) : fieldBreak c = false := by
  refine Bool.eq_false_iff.mpr fun h => hc ?_
  obtain ⟨hblank, hascii⟩ := Bool.and_eq_true_iff.mp h
  have hbyte : (UInt8.ofNat c.toNat).toNat = c.toNat :=
    Nat.mod_eq_of_lt (Nat.lt_trans (of_decide_eq_true hascii) (by decide))
  have hchar : ∀ d : Char, UInt8.ofNat c.toNat = UInt8.ofNat d.toNat → d.toNat < 256 → c = d := by
    intro d hd hlt
    have := congrArg UInt8.toNat hd
    rw [hbyte] at this
    exact Char.toNat_inj.mp (this.trans (Nat.mod_eq_of_lt hlt))
  simp only [isBlankByte, Bool.or_eq_true, beq_iff_eq] at hblank
  rcases hblank with (((h | h) | h) | h) | h
  · rw [hchar ' ' h (by decide)]; decide
  · rw [hchar '\t' h (by decide)]; decide
  · rw [hchar '\n' h (by decide)]; decide
  · rw [hchar '\x0c' h (by decide)]; decide
  · rw [hchar '\r' h (by decide)]; decide

theorem visible_of_mem_toString {i : Int} {c : Char} (hc : c ∈ (toString i).toList) :
    Visible c := by
  rcases Integer.mem_toString hc with hdigit | rfl
  · intro hmem
    simp only [List.mem_cons, List.not_mem_nil, or_false] at hmem
    rcases hmem with rfl | rfl | rfl | rfl | rfl | rfl <;> exact absurd hdigit (by decide)
  · decide

/-- **The last closing parenthesis ends the name**, whatever stands before it. -/
theorem afterName?_append {front tail : Bytes} (htail : 0x29 ∉ tail) (b : UInt8) (hb : b ≠ 0x29) :
    afterName? (front ++ 0x29 :: b :: tail) = some tail := by
  have hlast : (front ++ 0x29 :: b :: tail).reverse.takeWhile (· != 0x29) = (b :: tail).reverse := by
    have hfree : ∀ x ∈ (b :: tail).reverse, (x != 0x29) = true := by
      intro x hx
      refine bne_iff_ne.mpr ?_
      rintro rfl
      rcases List.mem_cons.mp (List.mem_reverse.mp hx) with h | h
      · exact hb h.symm
      · exact htail h
    rw [List.reverse_append, List.reverse_cons, List.append_assoc,
      List.takeWhile_append_of_pos hfree]
    simp
  have hlength : (b :: tail).length ≠ (front ++ 0x29 :: b :: tail).length := by
    rw [List.length_append, List.length_cons, List.length_cons, List.length_cons]
    omega
  rw [afterName?, hlast, List.reverse_reverse]
  exact if_neg (by simpa using hlength)

namespace Row

variable (r : Row)

theorem halts_ending : Halts (OneOf fieldBreak) r.ending := by
  unfold ending
  cases r.fields with
  | nil =>
    cases r.ended with
    | false => exact .inl rfl
    | true => exact .inr ⟨['\n'], ⟨'\n', rfl, rfl⟩, List.prefix_rfl⟩
  | cons n ns => exact .inr ⟨[' '], ⟨' ', rfl, rfl⟩, _, rfl⟩

theorem not_mem_details : ')' ∉ r.details := by
  have hnumber : ∀ i : Int, ')' ∉ (toString i).toList := fun i h =>
    visible_of_mem_toString h (by decide)
  have hstate : ')' ≠ r.state := fun h => r.state_visible (h ▸ by decide)
  unfold details ending
  simp only [List.mem_cons, List.mem_append, List.mem_flatMap, not_or]
  refine ⟨hstate, by decide, hnumber _, ?_, by cases r.ended <;> decide⟩
  rintro ⟨n, -, h | h⟩
  · exact absurd h (by decide)
  · exact hnumber n h

theorem afterName?_stat : afterName? r.stat = some (Utf8.encode r.details) := by
  have htail : (0x29 : UInt8) ∉ Utf8.encode r.details := by
    intro h
    obtain ⟨c, hc, hmem⟩ := List.mem_flatMap.mp h
    obtain rfl : c = ')' := Char.toNat_inj.mp ((Utf8.mem_encodeChar (by decide) c).mp hmem)
    exact r.not_mem_details hc
  have hsplit : r.stat = (utf8 (toString r.pid) ++ utf8 " (" ++ r.name) ++
      0x29 :: 0x20 :: Utf8.encode r.details := by
    rw [stat, show utf8 ") " = [0x29, 0x20] from by decide, List.append_assoc]
    rfl
  rw [hsplit]
  exact afterName?_append htail 0x20 (by decide)

/-- State and parent are the first fields. -/
theorem runsWhere_details : runsWhere fieldBreak r.details =
    [r.state] :: (toString r.parent).toList :: runsWhere fieldBreak r.ending := by
  have hstate : ∀ c ∈ [r.state], fieldBreak c = false := by
    intro c hc
    rw [List.mem_singleton.mp hc]
    exact fieldBreak_of_visible r.state_visible
  have hbreak : Halts (OneOf fieldBreak) (' ' :: ((toString r.parent).toList ++ r.ending)) :=
    .inr ⟨[' '], ⟨' ', rfl, rfl⟩, _, rfl⟩
  rw [details, ← List.singleton_append, runsWhere_append (List.cons_ne_nil _ _) hstate hbreak,
    runsWhere_cons_of_pos (by rfl), runsWhere_append (Integer.toString_ne_nil r.parent)
      (fun c hc => fieldBreak_of_visible (visible_of_mem_toString hc)) r.halts_ending]

/-- **A row is read as it was written**, whatever the name. -/
theorem parseStat?_stat : parseStat? r.stat = some (r.state, r.parent) := by
  have hread : Integer.readSigned32 (toString r.parent).toList = .ok r.parent :=
    HexFloat.readSigned32_eq_ok_iff.mpr ⟨Integer.signed_toString r.parent, r.parent_fits⟩
  simp only [parseStat?, r.afterName?_stat, Utf8.decode?_eq_some_iff.mpr rfl, Option.bind_eq_bind,
    Option.bind_some, r.runsWhere_details, hread]

/-- The name of the directory of a process, which is its number. -/
def dirName : Bytes := utf8 (toString r.pid)

theorem pidOfName?_dirName : pidOfName? r.dirName = some r.pid := by
  have hread : Integer.readSigned32 (toString r.pid).toList = .ok r.pid :=
    HexFloat.readSigned32_eq_ok_iff.mpr ⟨Integer.signed_toString r.pid, r.pid_fits⟩
  simp only [pidOfName?, dirName, Utf8.decode?_utf8, hread, Except.toOption]

end Row

/-! ## A table -/

variable {σ : Type} {h : Handler σ} {Calm : σ → Prop} {root : Path} {rows : List Row}
  {s : σ}

/-- **A machine shows a process table** with these rows, in every state where `Calm` holds: no
process comes or goes there.  The rows are listed in any order, with other entries between them. -/
structure Shows (h : Handler σ) (Calm : σ → Prop) (root : Path) (rows : List Row) :
    Prop where
  distinct : (rows.map Row.pid).Nodup
  list {s : σ} : Calm s → ∃ (names others : List Bytes) (s' : σ),
    h (.file (.list root)) s = some (.ok names, s') ∧ Calm s' ∧
      (∀ n ∈ others, pidOfName? n = none) ∧ names.Perm (rows.map Row.dirName ++ others)
  stat {s : σ} {r : Row} : Calm s → r ∈ rows → ∃ s' : σ,
    h (.file (.read ((dirOf root r.pid).child "stat"))) s = some (.ok r.stat, s') ∧ Calm s'
  cmdline {s : σ} {r : Row} : Calm s → r ∈ rows → ∃ s' : σ,
    h (.file (.read ((dirOf root r.pid).child "cmdline"))) s = some (r.cmdline, s') ∧ Calm s'

/-- **Certain rows of a table**: each of them once, by increasing number. -/
structure Listed (rows : List Row) (who : Row → Bool) (entries : List ProcessEntry) : Prop where
  perm : entries.Perm ((rows.filter who).map Row.entry)
  increasing : entries.Pairwise fun e f => e.pid < f.pid

namespace Shows

theorem readEntry_gives (hshows : Shows h Calm root rows) {r : Row} (hr : r ∈ rows) :
    Gives h Calm (readEntry root r.pid).run (.ok r.entry) := by
  have hstat : Gives h Calm (Program.fetch ((dirOf root r.pid).child "stat")) (.ok r.stat) :=
    .onFiles fun _ hs => hshows.stat hs hr
  have hraw : Gives h Calm (Program.fetch ((dirOf root r.pid).child "cmdline")) r.cmdline :=
    .onFiles fun _ hs => hshows.cmdline hs hr
  have hcmdline : Gives h Calm (readCmdline (dirOf root r.pid)) r.entry.cmdline := by
    refine .bind hraw ?_
    rw [Row.entry]
    cases r.cmdline <;> exact .pure _
  refine .act_bind (.orElse hstat) (g := fun _ => .ok r.entry) ?_
  rintro _ ⟨⟩
  rw [r.parseStat?_stat]
  exact .act_bind (.ofProgram hcmdline) (g := fun _ => .ok r.entry) (by rintro _ ⟨⟩; exact .pure _)

theorem childrenAmong_gives (hshows : Shows h Calm root rows) (parent : Int) {found : List Row}
    (hfound : found ⊆ rows) :
    Gives h Calm (childrenAmong root parent (found.map Row.pid))
      ((found.filter (·.parent = parent)).map Row.entry) := by
  induction found with
  | nil => exact .pure _
  | cons r found ih =>
    obtain ⟨hr, hfound⟩ := List.cons_subset.mp hfound
    refine .bind (hshows.readEntry_gives hr) (.bind (ih hfound) ?_)
    rw [List.filter_cons]
    by_cases hparent : r.parent = parent
    · simpa [Row.entry, hparent] using Program.Gives.pure _
    · simpa [Row.entry, hparent] using Program.Gives.pure _

/-- Sorting puts the rows of different processes in their only order. -/
theorem listed_sortEntries {found : List Row} (hdistinct : (rows.map Row.pid).Nodup)
    (hfound : found.Perm rows) (who : Row → Bool) :
    Listed rows who (sortEntries ((found.filter who).map Row.entry)) := by
  have hperm : (sortEntries ((found.filter who).map Row.entry)).Perm
      ((rows.filter who).map Row.entry) :=
    (List.mergeSort_perm _ _).trans ((hfound.filter who).map Row.entry)
  refine ⟨hperm, ?_⟩
  have hsorted : (sortEntries ((found.filter who).map Row.entry)).Pairwise
      fun e f => e.pid ≤ f.pid := by
    refine (List.pairwise_mergeSort ?_ ?_ _).imp of_decide_eq_true
    · simp only [decide_eq_true_eq]
      exact fun _ _ _ => Int.le_trans
    · simp only [Bool.or_eq_true, decide_eq_true_eq]
      exact fun e f => Int.le_total e.pid f.pid
  have hne : (sortEntries ((found.filter who).map Row.entry)).Pairwise
      fun e f => e.pid ≠ f.pid := by
    rw [← List.pairwise_map (f := ProcessEntry.pid) (R := (· ≠ ·))]
    have hpids : ((rows.filter who).map Row.pid).Nodup :=
      hdistinct.sublist (List.filter_sublist.map Row.pid)
    refine (hperm.map ProcessEntry.pid).nodup_iff.mpr ?_
    rwa [List.map_map]
  exact (hsorted.and hne).imp fun h => Int.lt_iff_le_and_ne.mpr h

/-- The rows in the order in which they are listed. -/
theorem exists_listing {names others : List Bytes} (hothers : ∀ n ∈ others, pidOfName? n = none)
    (hperm : names.Perm (rows.map Row.dirName ++ others)) :
    ∃ found : List Row, found.Perm rows ∧ names.filterMap pidOfName? = found.map Row.pid := by
  have hpids : (names.filterMap pidOfName?).Perm (rows.map Row.pid) := by
    have := hperm.filterMap pidOfName?
    rw [List.filterMap_append, List.filterMap_eq_nil_iff.mpr hothers, List.append_nil,
      List.filterMap_map, show pidOfName? ∘ Row.dirName = some ∘ Row.pid from
        funext Row.pidOfName?_dirName, List.filterMap_eq_map] at this
    exact this
  obtain ⟨found, hfound, hperm⟩ : Relation.Comp _ _ _ _ :=
    (congrFun (congrFun (List.eq_map_comp_perm Row.pid) _) _).mpr hpids
  exact ⟨found, hperm, hfound⟩

/-- **The children of a process are found**, each of them once and no one else. -/
theorem childrenOf_returns (hshows : Shows h Calm root rows) (parent : Int) (hs : Calm s) :
    Returns h (childrenOf root parent).run s fun result t =>
      Calm t ∧ ∃ children, result = .ok children ∧ Listed rows (·.parent = parent) children := by
  obtain ⟨names, others, t, hlist, ht, hothers, hnames⟩ := hshows.list hs
  obtain ⟨found, hfound, hpids⟩ := exists_listing hothers hnames
  refine .after_act (Program.run_ofSystem (Program.run_onFiles hlist)) ?_
  rw [hpids]
  refine .ofProgram_bind (hshows.childrenAmong_gives parent hfound.subset t ht) ?_
  rintro _ u ⟨rfl, hu⟩
  exact .pure ⟨hu, _, rfl, listed_sortEntries hshows.distinct hfound _⟩

end Shows

end ProcessTable

/-! ## Processes left behind -/

namespace Runner

open ProcessTable

variable {σ : Type} {h : Handler σ} {Calm : σ → Prop} {rows : List Row} {s : σ}

/-- **A machine answers the check for processes left behind.**  Which process asks does not change;
what is said of a process that is waited for or killed is free. -/
structure Answers (h : Handler σ) (Calm : σ → Prop) (own : Pid) : Prop where
  ownPid {s : σ} : Calm s → ∃ s' : σ, h .ownPid s = some (own, s') ∧ Calm s'
  poll (pid : Pid) (s : σ) : ∃ r, h (.poll pid) s = some r
  kill (pid : Int) (s : σ) : ∃ r, h (.kill pid Signal.kill) s = some r
  wait (pid : Pid) (s : σ) : ∃ r, h (.wait pid) s = some r

variable {own : Pid}

theorem Answers.living_returns (hanswers : Answers h Calm own) (entries : List ProcessEntry) (s : σ) :
    Returns h (living entries) s fun left _ => left = entries.filter (!·.isZombie) := by
  induction entries generalizing s with
  | nil => exact .pure rfl
  | cons e entries ih =>
    unfold living
    cases hzombie : e.isZombie with
    | true =>
      obtain ⟨⟨r, t⟩, hpoll⟩ := hanswers.poll e.pid.toNat s
      rw [if_pos rfl, List.filter_cons_of_neg (by simp [hzombie])]
      exact .after (run_perform hpoll) (ih t)
    | false =>
      rw [if_neg (by decide), List.filter_cons_of_pos (by simp [hzombie])]
      refine .bind (ih s) ?_
      rintro _ t rfl
      exact .pure rfl

theorem Answers.killAll_returns (hanswers : Answers h Calm own) (entries : List ProcessEntry)
    (s : σ) : Returns h (killAll entries) s fun _ _ => True := by
  induction entries generalizing s with
  | nil => exact .pure trivial
  | cons e entries ih =>
    obtain ⟨⟨killed, t⟩, hkill⟩ := hanswers.kill e.pid s
    obtain ⟨⟨ended, u⟩, hwait⟩ := hanswers.wait e.pid.toNat t
    exact .after (run_perform hkill) (.after (run_perform hwait) (ih u))

theorem listed_living {who : Row → Bool} {children : List ProcessEntry}
    (hlisted : Listed rows who children) :
    Listed rows (fun r => r.state != 'Z' && who r) (children.filter (!·.isZombie)) := by
  refine ⟨?_, hlisted.increasing.filter _⟩
  have hfilter := hlisted.perm.filter (!·.isZombie)
  rw [List.filter_map, List.filter_filter] at hfilter
  exact hfilter

theorem listed_nil_iff {who : Row → Bool} {entries : List ProcessEntry}
    (hlisted : Listed rows who entries) : entries = [] ↔ ∀ r ∈ rows, who r = false := by
  have hnil : entries = [] ↔ (rows.filter who).map Row.entry = [] :=
    ⟨fun h => List.nil_perm.mp (h ▸ hlisted.perm), fun h => (h ▸ hlisted.perm).eq_nil⟩
  rw [hnil, List.map_eq_nil_iff, List.filter_eq_nil_iff]
  simp only [Bool.not_eq_true]

/-- **No process hides behind its name.**  Whatever bytes the names are, each row is read with its
state and its parent; the children of a process are the rows that have it for a parent, by
increasing number; and the check for processes left behind fails if and only if a child is alive,
with the number of those that are and the first five of them. -/
theorem orphan_census {root : Path} (hshows : Shows h Calm root rows) (hs : Calm s) :
    (∀ r : Row, parseStat? r.stat = some (r.state, r.parent)) ∧
    (∀ parent, Program.Returns h (childrenOf root parent).run s fun result t =>
      Calm t ∧ ∃ children, result = .ok children ∧ Listed rows (·.parent = parent) children) ∧
    ∀ own, root = ProcessTable.root → Answers h Calm own →
      Program.Returns h verifyNoOrphans.run s fun result _ =>
        ∃ orphans, Listed rows (fun r => r.state != 'Z' && decide (r.parent = own)) orphans ∧
          (result = .ok () ↔ ∀ r ∈ rows, r.parent = own → r.state = 'Z') ∧
          (result ≠ .ok () → result = .error (.orphans orphans.length (min 5 orphans.length)
            ("[" ++ ", ".intercalate ((orphans.take 5).map (·.text)) ++ "]"))) := by
  refine ⟨Row.parseStat?_stat, fun parent => hshows.childrenOf_returns parent hs, ?_⟩
  rintro own rfl hanswers
  obtain ⟨t, hown, ht⟩ := hanswers.ownPid hs
  refine .after_act (Program.run_ofProgram (Program.run_perform hown)) ?_
  refine .act_bind (hshows.childrenOf_returns own ht) ?_ (fun e u h => by simp at h)
  rintro children u ⟨-, _, ⟨⟩, hchildren⟩
  refine .ofProgram_bind (hanswers.living_returns children u) ?_
  rintro _ v rfl
  have horphans := listed_living hchildren
  generalize children.filter (!·.isZombie) = orphans at horphans ⊢
  have hnone : orphans = [] ↔ ∀ r ∈ rows, r.parent = own → r.state = 'Z' := by
    rw [listed_nil_iff horphans]
    simp only [Bool.and_eq_false_iff, bne_eq_false_iff_eq, decide_eq_false_iff_not]
    exact forall₂_congr fun r _ => ⟨fun h hp => h.resolve_right (not_not.mpr hp), fun h => by tauto⟩
  cases horphan : orphans with
  | nil => exact .pure ⟨orphans, horphans, iff_of_true rfl (hnone.mp horphan), (absurd rfl ·)⟩
  | cons e others =>
    rw [← horphan, if_neg (by simp [horphan])]
    refine .ofProgram_bind (hanswers.killAll_returns orphans v) fun _ w _ => ?_
    refine .pure ⟨orphans, horphans, iff_of_false nofun fun h => ?_, fun _ => ?_⟩
    · simp [hnone.mpr h] at horphan
    · rw [orphanError, orphanSample, List.length_take]

/-! ### A process that imitates a row -/

/-- A child of process 7 with a name that ends as a row of a zombie would, and goes on with a byte
that is no text. -/
def imitator : Row where
  pid := 31
  name := utf8 "x) Z 1 0\n(" ++ [0xFF]
  state := 'S'
  parent := 7
  fields := [31, -1]
  ended := true
  cmdline := .error .noEntry
  pid_fits := by decide
  parent_fits := by decide
  state_visible := by decide

/-- A machine with the one process, and the directory `self` beside it. -/
def imitated : Handler Unit
  | .file (.list _), _ => some (.ok [utf8 "self", imitator.dirName], ())
  | .file (.read p), _ =>
    if p = (dirOf ProcessTable.root 31).child "stat" then some (.ok imitator.stat, ())
    else some (.error .noEntry, ())
  | .ownPid, _ => some ((7 : Nat), ())
  | .poll _, _ => some (none, ())
  | .kill .., _ => some (.ok (), ())
  | .wait _, _ => some (.error .noProcess, ())
  | _, _ => none

theorem shows_imitated : Shows imitated (fun _ => True) ProcessTable.root [imitator] where
  distinct := by simp
  list _ := ⟨_, [utf8 "self"], (), rfl, trivial, by decide +kernel, List.Perm.swap _ _ _⟩
  stat {_ r} _ hr := by
    obtain rfl := List.mem_singleton.mp hr
    exact ⟨(), rfl, trivial⟩
  cmdline {_ r} _ hr := by
    obtain rfl := List.mem_singleton.mp hr
    exact ⟨(), rfl, trivial⟩

theorem answers_imitated : Answers imitated (fun _ => True) 7 where
  ownPid _ := ⟨(), rfl, trivial⟩
  poll _ _ := ⟨_, rfl⟩
  kill _ _ := ⟨_, rfl⟩
  wait _ _ := ⟨_, rfl⟩

theorem imitator_found :
    ∃ text, (verifyNoOrphans.run.run imitated ()).map Prod.fst = some (.error (.orphans 1 1 text)) := by
  obtain ⟨-, -, hcheck⟩ := orphan_census shows_imitated (s := ()) trivial
  obtain ⟨result, _, hrun, orphans, hlisted, hok, herror⟩ := hcheck 7 rfl answers_imitated
  have hfails : result ≠ .ok () := fun h => absurd (hok.mp h imitator (by simp) rfl) (by decide)
  have hone : orphans.length = 1 := hlisted.perm.length_eq
  rw [hrun, herror hfails, hone]
  exact ⟨_, rfl⟩

end Runner

end Judge
