import Judge.Command.Words
import Mathlib.Data.List.Basic

/-!
# Proofs/Quoting — a quoted command line is read back

Splitting undoes quoting, for every list of strings (`splitText_joinText`).  The splitter is
followed through a quoted word by its state: inside a word `u`, reading `quote w` leads back to the
same mode with `w` added to `u` (`foldl_step_quote`), whichever way `w` is quoted.  A quoted word
does not begin with a blank, so it also begins a word where there is none, and the blank between two
words ends the first.
-/

namespace Judge.Words

open List

/-! ## Characters outside quotes -/

/-- No blank lies between the space and the control characters of the second kind. -/
theorem isBlank_eq_false_of_lt {c : Char} (hlow : 0x20 < c.toNat) (hhigh : c.toNat < 0x85) :
    isBlank c = false := by
  simp [isBlank, inRanges, blankRanges]
  omega

theorem lt_of_isAlphanum {c : Char} (h : c.isAlphanum = true) :
    0x2F < c.toNat ∧ c.toNat < 0x7B := by
  delta Char.isAlphanum Char.isAlpha Char.isUpper Char.isLower Char.isDigit at h
  simp only [Bool.or_eq_true, Bool.and_eq_true, decide_eq_true_eq, UInt32.le_iff_toNat_le,
    ge_iff_le] at h
  change (((65 ≤ c.toNat ∧ c.toNat ≤ 90) ∨ (97 ≤ c.toNat ∧ c.toNat ≤ 122)) ∨
    (48 ≤ c.toNat ∧ c.toNat ≤ 57)) at h
  omega

/-- **A safe character is neither a blank nor a sign of quoting.** -/
theorem isSafe_spec {c : Char} (h : isSafe c = true) :
    isBlank c = false ∧ c ≠ '\'' ∧ c ≠ '"' ∧ c ≠ '\\' := by
  have hcases : c.isAlphanum = true ∨ c ∈ "@%+=:,./-_".toList := by simpa [isSafe] using h
  rcases hcases with halnum | hmem
  · have := lt_of_isAlphanum halnum
    refine ⟨isBlank_eq_false_of_lt (by omega) (by omega), ?_, ?_, ?_⟩ <;>
      (rintro rfl; exact absurd halnum (by decide))
  · have hall : "@%+=:,./-_".toList.all (fun c =>
        decide (isBlank c = false ∧ c ≠ '\'' ∧ c ≠ '"' ∧ c ≠ '\\')) = true := by decide
    exact of_decide_eq_true (all_eq_true.mp hall c hmem)

theorem step_safe {c : Char} (h : isSafe c = true) (u : List Char) (done : List (List Char)) :
    step ⟨.plain, some u, done⟩ c = ⟨.plain, some (c :: u), done⟩ := by
  obtain ⟨hblank, hsingle, hdouble, hescape⟩ := isSafe_spec h
  simp [step, State.push, hblank, hsingle, hdouble, hescape]

/-- A character that is no blank does the same at the beginning of a word as inside an empty one. -/
theorem step_enter {c : Char} (hblank : isBlank c = false) (done : List (List Char)) :
    step ⟨.plain, none, done⟩ c = step ⟨.plain, some [], done⟩ c := by
  simp [step, hblank, State.enter, State.push]

/-! ## Quoted words -/

theorem foldl_step_safe {w : List Char} (h : ∀ c ∈ w, isSafe c = true) (u : List Char)
    (done : List (List Char)) :
    w.foldl step ⟨.plain, some u, done⟩ = ⟨.plain, some (w.reverse ++ u), done⟩ := by
  induction w generalizing u with
  | nil => rfl
  | cons c w ih =>
    rw [foldl_cons, step_safe (h c mem_cons_self),
      ih (fun d hd => h d (mem_cons_of_mem _ hd)), reverse_cons, append_assoc]
    rfl

/-- **Between single quotes every word adds itself**; at a single quote the splitter leaves them,
reads it between double quotes, and comes back. -/
theorem foldl_step_quoteInner (w u : List Char) (done : List (List Char)) :
    (quoteInner w).foldl step ⟨.single, some u, done⟩ = ⟨.single, some (w.reverse ++ u), done⟩ := by
  induction w generalizing u with
  | nil => rfl
  | cons c w ih =>
    have hone : (quoteInner [c]).foldl step ⟨.single, some u, done⟩
        = ⟨.single, some (c :: u), done⟩ := by
      by_cases hc : c = '\''
      · subst hc
        rfl
      · simp [quoteInner, step, State.push, hc]
    have hcons : quoteInner (c :: w) = quoteInner [c] ++ quoteInner w := by simp [quoteInner]
    rw [hcons, foldl_append, hone, ih, reverse_cons, append_assoc]
    rfl

/-- **A quoted word adds the word.** -/
theorem foldl_step_quote (w u : List Char) (done : List (List Char)) :
    (quote w).foldl step ⟨.plain, some u, done⟩ = ⟨.plain, some (w.reverse ++ u), done⟩ := by
  unfold quote
  split
  · rename_i hempty
    rw [isEmpty_iff.mp hempty]
    rfl
  · split
    · rename_i hsafe
      exact foldl_step_safe (all_eq_true.mp hsafe) u done
    · rw [foldl_append, foldl_append]
      change ['\''].foldl step ((quoteInner w).foldl step ⟨.single, some u, done⟩) = _
      rw [foldl_step_quoteInner]
      rfl

/-- A quoted word begins with something other than a blank. -/
theorem quote_eq_cons (w : List Char) : ∃ c rest, quote w = c :: rest ∧ isBlank c = false := by
  unfold quote
  split
  · exact ⟨_, _, rfl, by decide⟩
  · rename_i hne
    split
    · rename_i hsafe
      obtain ⟨c, rest, rfl⟩ := exists_cons_of_ne_nil (fun h => hne (isEmpty_iff.mpr h))
      exact ⟨c, rest, rfl, (isSafe_spec (all_eq_true.mp hsafe c mem_cons_self)).1⟩
    · exact ⟨_, _, rfl, by decide⟩

/-- A quoted word begins a word where there is none. -/
theorem foldl_step_quote_none (w : List Char) (done : List (List Char)) :
    (quote w).foldl step ⟨.plain, none, done⟩ = ⟨.plain, some w.reverse, done⟩ := by
  have hinside := foldl_step_quote w [] done
  obtain ⟨c, rest, hquote, hblank⟩ := quote_eq_cons w
  rw [hquote, foldl_cons] at hinside ⊢
  rw [step_enter hblank, hinside, append_nil]

/-! ## Command lines -/

/-- **A command line of quoted words is split into these words**, after the words before it. -/
theorem finish_join (words done : List (List Char)) :
    finish ((join words).foldl step ⟨.plain, none, done⟩) = .ok (done.reverse ++ words) := by
  induction words generalizing done with
  | nil => simp [join, finish, State.close]
  | cons w words ih =>
    cases words with
    | nil =>
      rw [show join [w] = quote w from intercalate_singleton, foldl_step_quote_none]
      simp [finish, State.close]
    | cons w' words =>
      have hjoin : join (w :: w' :: words) = quote w ++ ' ' :: join (w' :: words) := by
        simp [join, intercalate_cons_cons]
      have hblank : step ⟨.plain, some w.reverse, done⟩ ' ' = ⟨.plain, none, w :: done⟩ := by
        simp [step, State.close, show isBlank ' ' = true by decide]
      rw [hjoin, foldl_append, foldl_step_quote_none, foldl_cons, hblank, ih]
      simp

theorem split_join (words : List (List Char)) : split (join words) = .ok words :=
  finish_join words []

theorem splitText_joinText (words : List String) : splitText (joinText words) = .ok words := by
  simp [splitText, joinText, split_join]

/-- **Quoting is undone by splitting.**  Every list of strings is what its command line is split
into; so what was split from any text, and then quoted, is split in the same way again. -/
theorem quoted_words_split_back (words : List String) :
    splitText (joinText words) = .ok words ∧
    ∀ text : String, splitText text = .ok words → splitText (joinText words) = splitText text := by
  have hback := splitText_joinText words
  exact ⟨hback, fun text hsplit => hback.trans hsplit.symm⟩

/-- A line with all ways of quoting, and with other blanks between its words. -/
theorem mixed_quotes_split_again :
    splitText "a\t'b c'\u00a0\"d\\\"e\" \\' ''" = .ok ["a", "b c", "d\"e", "'", ""] ∧
    splitText (joinText ["a", "b c", "d\"e", "'", ""])
      = splitText "a\t'b c'\u00a0\"d\\\"e\" \\' ''" := by
  have hsplit : splitText "a\t'b c'\u00a0\"d\\\"e\" \\' ''"
      = .ok ["a", "b c", "d\"e", "'", ""] := by decide +kernel
  exact ⟨hsplit, (quoted_words_split_back _).2 _ hsplit⟩

end Judge.Words
