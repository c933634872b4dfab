import Judge.Conversation.Endpoints
import Judge.Proofs.RecordMeaning

/-!
# Proofs/SharedParams — two readers of the same parameters

The candidate is configured with the parameters of its record; the interactor looks for them in the
same text with a reader of its own, which cuts each line at its first equals sign and lets the last
line of a key count.  On the lines that give the record a value the two cuts find the same words
(`entry_of_given`).  They differ over a line that ends in an equals sign and has no value for the
record, such as `params =` or `params=7 /t =`: to the interactor it gives parameters, empty ones or
others (`Overrides`).  So all depends on the last line that gives any (`get?_entries_cases`).
-/

namespace Judge

open List
open Metadata

variable {m : Metadata} {text line : List Char} {ls : List (List Char)} {k : Key}
  {value : List Char}

/-- The last assignment to a variable counts. -/
theorem Vars.get?_ofList (entries : List (String × String)) (name : String) :
    (Vars.ofList entries).get? name = entries.reverse.lookup name := by
  rw [ofList, get?_overlay, get?_empty, Option.or_none]

namespace Endpoints

theorem get?_entries (text : List Char) (name : String) :
    (entries text).get? name = ((lines text).map entry).reverse.lookup name :=
  Vars.get?_ofList _ name

/-! ## The lenient cut on the lines of a record -/

theorem entry_of_cut {key rest : List Char} (hfree : '=' ∉ key) :
    entry (key ++ '=' :: rest) = (String.ofList (trim key), String.ofList (trim rest)) := by
  rw [entry, cutAt_singleton_eq_some_iff.2 ⟨rfl, hfree⟩]

/-- Where the record has a value for a key, the lenient reader finds the same value, under the word
that stands there. -/
theorem entry_of_given (h : given? line = some (k, value)) :
    ∃ word, (word, k) ∈ Key.table ∧ entry line = (word, String.ofList value) := by
  have hwords : ∀ e ∈ Key.table,
      '=' ∉ e.1.toList ++ [' '] ∧ trim (e.1.toList ++ [' ']) = e.1.toList := by decide
  obtain ⟨word, rest, hword, rfl, rfl⟩ := exists_of_given? h
  obtain ⟨hfree, htrim⟩ := hwords _ hword
  refine ⟨word, hword, ?_⟩
  have hcut : word.toList ++ " = ".toList ++ rest =
      (word.toList ++ [' ']) ++ '=' :: ' ' :: rest := by simp
  rw [hcut, entry_of_cut hfree, htrim, String.ofList_toList, trim,
    trimWhere_cons_of_pos (by decide)]
  rfl

theorem entry_of_token (f : Flag) : (entry f.token).1 ≠ "params" := by
  cases f <;> decide

/-- **A line that gives the parameters `p` to the lenient reader alone**: it has no value for the
record, and the word `params` stands before its first equals sign. -/
def Overrides (line : List Char) (p : String) : Prop :=
  Unset line ∧ ∃ key rest, line = key ++ '=' :: rest ∧ '=' ∉ key ∧ trim key = "params".toList ∧
    p = String.ofList (trim rest)

/-- The line gives the parameters `p`, to both readers or to the lenient one. -/
def Gives (line : List Char) (p : String) : Prop :=
  (∃ value, given? line = some (.params, value) ∧ p = String.ofList value) ∨ Overrides line p

theorem overrides_iff {p : String} :
    Overrides line p ↔ Unset line ∧ entry line = ("params", p) := by
  constructor
  · rintro ⟨hunset, key, rest, rfl, hfree, hkey, rfl⟩
    refine ⟨hunset, ?_⟩
    rw [entry_of_cut hfree, hkey, String.ofList_toList]
  · rintro ⟨hunset, hentry⟩
    have hcut : cutAt ['='] line ≠ none := by
      rw [ne_eq, cutAt_eq_none_iff (by decide), not_not]
      exact IsInfix.trans (by decide) hunset.2.isInfix
    obtain ⟨⟨key, rest⟩, hcut⟩ := Option.ne_none_iff_exists'.1 hcut
    obtain ⟨hline, hfree⟩ := cutAt_singleton_eq_some_iff.1 hcut
    rw [hline, entry_of_cut hfree] at hentry
    obtain ⟨hkey, hvalue⟩ := Prod.mk.inj hentry
    refine ⟨hunset, key, rest, hline, hfree, ?_, hvalue.symm⟩
    rw [← hkey, String.toList_ofList]

/-- On a line of a record, the lenient reader finds the parameters that the line gives. -/
theorem entry_eq_iff {p : String} (hsound : Sound line) :
    entry line = ("params", p) ↔ Gives line p := by
  have hkey : ∀ e ∈ Key.table, e.1 = "params" ↔ e.2 = .params := by decide
  constructor
  · intro hentry
    rcases hsound with ⟨k, value, hgiven, -⟩ | hunset | ⟨f, rfl⟩
    · obtain ⟨word, hword, heq⟩ := entry_of_given hgiven
      obtain ⟨hparams, hp⟩ := Prod.mk.inj (heq.symm.trans hentry)
      obtain rfl := (hkey _ hword).1 hparams
      exact .inl ⟨value, hgiven, hp.symm⟩
    · exact .inr (overrides_iff.2 ⟨hunset, hentry⟩)
    · exact absurd (congrArg Prod.fst hentry) (entry_of_token f)
  · rintro (⟨value, hgiven, rfl⟩ | hoverrides)
    · obtain ⟨word, hword, heq⟩ := entry_of_given hgiven
      obtain rfl : word = "params" := (hkey _ hword).2 rfl
      exact heq
    · exact (overrides_iff.1 hoverrides).2

/-! ## The last line that gives parameters -/

section Last

variable (hsound : ∀ line ∈ lines text, Sound line)

include hsound

/-- **The last line that gives parameters counts.** -/
theorem get?_entries_of_last {before after : List (List Char)} {p : String}
    (hsplit : lines text = before ++ line :: after) (hgives : Gives line p)
    (hlast : ∀ later ∈ after, ∀ q, ¬ Gives later q) :
    (entries text).get? "params" = some p := by
  have hmem : ∀ later ∈ after, later ∈ lines text := fun later hlater => by simp [hsplit, hlater]
  have hentry := (entry_eq_iff (hsound line (by simp [hsplit]))).2 hgives
  rw [get?_entries, lookup_eq_some_iff]
  refine ⟨(after.map entry).reverse, (before.map entry).reverse, by simp [hsplit, hentry], ?_⟩
  intro e he
  obtain ⟨later, hlater, rfl⟩ := mem_map.1 (mem_reverse.1 he)
  refine bne_iff_ne.2 fun hname => hlast later hlater (entry later).2 ?_
  exact (entry_eq_iff (hsound later (hmem later hlater))).1 (Prod.ext hname.symm rfl)

/-- Either no line gives parameters or there is a last one that does. -/
theorem get?_entries_cases :
    ((entries text).get? "params" = none ∧ ∀ line ∈ lines text, ∀ p, ¬ Gives line p) ∨
      ∃ before line after p, lines text = before ++ line :: after ∧ Gives line p ∧
        (∀ later ∈ after, ∀ q, ¬ Gives later q) ∧ (entries text).get? "params" = some p := by
  have hnone {part : List (List Char)} (hpart : part ⊆ lines text)
      (h : ∀ e ∈ (part.map entry).reverse, ("params" != e.1) = true) :
      ∀ line ∈ part, ∀ p, ¬ Gives line p := by
    intro line hline p hgives
    have hname := h _ (mem_reverse.2 (mem_map_of_mem hline))
    rw [(entry_eq_iff (hsound line (hpart hline))).2 hgives] at hname
    contradiction
  cases hget : (entries text).get? "params" with
  | none =>
    rw [get?_entries, lookup_eq_none_iff] at hget
    exact .inl ⟨rfl, hnone (Subset.refl _) hget⟩
  | some p =>
    rw [get?_entries, lookup_eq_some_iff] at hget
    obtain ⟨later, earlier, hsplit, hlater⟩ := hget
    have hsplit := congrArg reverse hsplit
    rw [reverse_reverse, reverse_append, reverse_cons, append_assoc, singleton_append,
      map_eq_append_iff] at hsplit
    obtain ⟨before, rest, hlines, -, hrest⟩ := hsplit
    obtain ⟨line, after, rfl, hentry, hafter⟩ := map_eq_cons_iff.1 hrest
    refine .inr ⟨before, line, after, p, hlines, ?_, ?_, rfl⟩
    · exact (entry_eq_iff (hsound line (by simp [hlines]))).1 hentry
    · refine hnone (fun later hlater => by simp [hlines, hlater]) ?_
      rwa [hafter, reverse_reverse]

end Last

/-! ## Agreement -/

/-- The two readers agree on the parameters: both find the same ones, or neither finds any. -/
def Agree (text : List Char) (m : Metadata) : Prop :=
  (∀ p, p ≠ "" → ((entries text).get? "params" = some p ↔ m.params = some p)) ∧
    (((entries text).get? "params" = none ∨ (entries text).get? "params" = some "") ↔
      m.params = none)

theorem agree_iff (hne : m.params ≠ some "") :
    Agree text m ↔ ((entries text).get? "params").getD "" = m.params.getD "" := by
  rw [Agree]
  cases hparams : m.params with
  | none => cases (entries text).get? "params" <;> grind
  | some p =>
    have hp : p ≠ "" := fun hp => hne (hp ▸ hparams)
    cases (entries text).get? "params" <;> grind

/-- A line that gives the record parameters gives those that it has. -/
theorem params_of_given (hread : read text = .ok m) (hline : line ∈ lines text)
    (hgiven : given? line = some (.params, value)) : m.params = some (String.ofList value) := by
  have hmem : value ∈ valuesOf .params (lines text) := mem_valuesOf_iff.2 ⟨line, hline, hgiven⟩
  rcases (read_means hread).keys .params with ⟨hnone, -⟩ | ⟨only, p, hone, hfield, rfl, -⟩
  · rw [hnone] at hmem
    contradiction
  · rw [hone, mem_singleton] at hmem
    rw [hfield, hmem]

theorem params_eq_none (hread : read text = .ok m)
    (hnone : ∀ line ∈ lines text, ∀ p, ¬ Gives line p) : m.params = none := by
  rcases (read_means hread).keys .params with ⟨-, hfield⟩ | ⟨value, p, hone, -⟩
  · exact hfield
  · have hmem : value ∈ valuesOf .params (lines text) := hone ▸ mem_cons_self
    obtain ⟨line, hline, hgiven⟩ := mem_valuesOf_iff.1 hmem
    exact absurd (.inl ⟨value, hgiven, rfl⟩) (hnone line hline (String.ofList value))

theorem ofEntries_congr {v w : Vars}
    (h : (v.get? "params").getD "" = (w.get? "params").getD "") : ofEntries v = ofEntries w := by
  unfold ofEntries
  rw [h]

theorem params_ne_empty (hread : read text = .ok m) : m.params ≠ some "" := by
  rcases (read_means hread).keys .params with ⟨-, hfield⟩ | ⟨_, p, -, hfield, -, hp⟩
  · simp [hfield]
  · simpa [hfield] using hp

/-- **Two readers of one text.**  On every text that is a record, the readers agree on the
parameters unless the last line that gives any gives them to the lenient reader alone, and they are
not those of the record; and where they agree, the endpoints are looked for in the parameters of the
record. -/
theorem readers_share_params (hread : read text = .ok m) :
    (Agree text m ↔ ∀ before line after p, lines text = before ++ line :: after →
        Overrides line p → (∀ later ∈ after, ∀ q, ¬ Gives later q) → p = m.params.getD "") ∧
      (Agree text m →
        ofEntries (entries text) = ofEntries (Vars.ofList [("params", m.params.getD "")])) := by
  have hsound := (read_eq_ok_iff.1 hread).forall_mem Step.sound
  rw [agree_iff (params_ne_empty hread)]
  refine ⟨⟨fun h before line after p hsplit hoverrides hlast => ?_, fun h => ?_⟩, fun h => ?_⟩
  · rw [← h, get?_entries_of_last hsound hsplit (.inr hoverrides) hlast]
    rfl
  · obtain ⟨hget, hnone⟩ | ⟨before, line, after, p, hsplit, hgives, hlast, hget⟩ :=
      get?_entries_cases hsound
    · rw [hget, params_eq_none hread hnone]
    · rw [hget, Option.getD_some]
      rcases hgives with ⟨value, hgiven, rfl⟩ | hoverrides
      · rw [params_of_given hread (by simp [hsplit]) hgiven, Option.getD_some]
      · exact h before line after p hsplit hoverrides hlast
  · refine ofEntries_congr ?_
    rw [h, Vars.get?_ofList]
    rfl

/-- A record with two lines for the lenient reader alone before the parameters, and other equals
signs after them. -/
def earlyReset : List Char :=
  "params =7 /t =\nparams =\nparams = 8080 /s\ncomment = x=y\nfoo=bar =".toList

theorem early_reset_keeps_params :
    read earlyReset = .ok { params := some "8080 /s" } ∧
      Overrides "params =7 /t =".toList "7 /t =" ∧
      Agree earlyReset { params := some "8080 /s" } ∧
      (∀ before line after p, lines earlyReset = before ++ line :: after → Overrides line p →
        (∀ later ∈ after, ∀ q, ¬ Gives later q) → p = "8080 /s") ∧
      ofEntries (entries earlyReset) = .ok ⟨8080, "/s"⟩ := by
  have hread : read earlyReset = .ok { params := some "8080 /s" } := by decide +kernel
  have hagree : Agree earlyReset { params := some "8080 /s" } :=
    (agree_iff (by decide)).2 (by decide +kernel)
  have hshare := readers_share_params hread
  refine ⟨hread, overrides_iff.2 ⟨by decide, by decide⟩, hagree, hshare.1.1 hagree, ?_⟩
  rw [hshare.2 hagree]
  decide +kernel

/-- A record with a line after the parameters. -/
def lateReset (line : String) : List Char := ("params = 8080 /s\n" ++ line).toList

theorem not_agree_lateReset {line p : String}
    (hget : (entries (lateReset line)).get? "params" = some p) (hne : p ≠ "8080 /s") :
    ¬ Agree (lateReset line) { params := some "8080 /s" } := by
  rw [agree_iff (by decide), hget]
  exact hne

/-- A line without a value after the parameters, `params =` or `params=7 /t =`, gives others to the
interactor alone. -/
theorem late_reset_empties_params :
    (read (lateReset "params =") = .ok { params := some "8080 /s" } ∧
      (entries (lateReset "params =")).get? "params" = some "" ∧
      ¬ Agree (lateReset "params =") { params := some "8080 /s" }) ∧
    read (lateReset "params=7 /t =") = .ok { params := some "8080 /s" } ∧
      (entries (lateReset "params=7 /t =")).get? "params" = some "7 /t =" ∧
      ¬ Agree (lateReset "params=7 /t =") { params := some "8080 /s" } := by
  have hempty : (entries (lateReset "params =")).get? "params" = some "" := by decide +kernel
  have hother : (entries (lateReset "params=7 /t =")).get? "params" = some "7 /t =" := by
    decide +kernel
  exact ⟨⟨by decide +kernel, hempty, not_agree_lateReset hempty (by decide)⟩,
    by decide +kernel, hother, not_agree_lateReset hother (by decide)⟩

end Endpoints

end Judge
