import Judge.Command.Invocation
import Judge.Proofs.Splitting
import Mathlib.Data.List.Forall2

/-!
# Proofs/AppendedParams — command and parameters are split apart or together

A line that can be split ends outside of quotes, with at most one word begun.  A blank after it ends
that word, so what follows is split as if it stood alone (`split_append_blank`), and an empty word in
quotes beside the blank is neither lost nor doubled.

The run command and the parameters are split apart.  Where the command has no place for the
parameters, they come behind it, and the words are those of one line (`expandWords_eq_ok_iff`), but
for the words of the command that are paths and for the escapes of the parameters.
-/

namespace Judge

open List

namespace Words

/-- A line is complete only outside of quotes. -/
theorem finish_eq_ok_iff {s : State} {words : List (List Char)} :
    finish s = .ok words ↔ s.mode = .plain ∧ words = s.close.done.reverse := by
  unfold finish
  cases s.mode <;> simp [eq_comm]

theorem close_word (s : State) : s.close.word = none := by
  obtain ⟨mode, word, done⟩ := s
  cases word <;> rfl

theorem close_mode (s : State) : s.close.mode = s.mode := by
  obtain ⟨mode, word, done⟩ := s
  cases word <;> rfl

/-- **A blank after a complete line leaves nothing over**: the words after it are those of what
follows. -/
theorem split_append_blank {x y : List Char} {c : Char} {before : List (List Char)}
    (hx : split x = .ok before) (hc : isBlank c = true) :
    split (x ++ c :: y) = (split y).map (before ++ ·) := by
  obtain ⟨hmode, rfl⟩ := finish_eq_ok_iff.mp hx
  have hblank : step (x.foldl step {}) c = (x.foldl step {}).close := by
    rw [step, hmode]
    exact if_pos hc
  rw [split, foldl_append, foldl_cons, hblank]
  exact finish_between ((close_mode _).trans hmode) (close_word _) y

end Words

namespace Invocation

variable {cwd runDir problemDir : Path} {cmd params : List String}

/-- **What a word of the run command becomes**: a path below the problem directory is seen from the
run directory, and any other word stays as it is. -/
def Becomes (cwd runDir problemDir : Path) (word new : String) : Prop :=
  if "./".toList <+: word.toList then
    seenFrom cwd runDir (problemDir.join (.ofString word)) = .ok new
  else new = word

theorem expandWord_eq_ok_iff {word : String} (h : word ≠ paramsToken) {words : List String} :
    expandWord cwd runDir problemDir params word = .ok words ↔
      ∃ new, Becomes cwd runDir problemDir word new ∧ words = [new] := by
  unfold expandWord Becomes
  by_cases hpath : "./".toList <+: word.toList
  · rw [if_pos (List.isPrefixOf_iff_prefix.mpr hpath), map_eq_ok_iff]
    simp only [if_pos hpath, eq_comm]
  · rw [if_neg (fun hprefix => hpath (List.isPrefixOf_iff_prefix.mp hprefix)), if_neg h,
      Except.ok.injEq]
    simp only [if_neg hpath, exists_eq_left]
    exact eq_comm

/-- Without a place for the parameters, every word of the command becomes one word. -/
theorem mapM_expandWord_eq_ok_iff (h : paramsToken ∉ cmd) {words : List (List String)} :
    cmd.mapM (expandWord cwd runDir problemDir params) = .ok words ↔
      ∃ new, List.Forall₂ (Becomes cwd runDir problemDir) cmd new ∧ words = new.map ([·]) := by
  induction cmd generalizing words with
  | nil =>
    rw [mapM_nil]
    constructor
    · rintro ⟨⟩
      exact ⟨[], .nil, rfl⟩
    · rintro ⟨new, ⟨⟩, rfl⟩
      rfl
  | cons word cmd ih =>
    obtain ⟨hword, hcmd⟩ := ne_and_not_mem_of_not_mem_cons h
    rw [mapM_cons]
    constructor
    · intro hwords
      obtain ⟨one, hone, hrest⟩ := ok_of_bind hwords
      obtain ⟨more, hmore, hcons⟩ := ok_of_bind hrest
      obtain ⟨new, hnew, rfl⟩ := (expandWord_eq_ok_iff hword.symm).mp hone
      obtain ⟨news, hnews, rfl⟩ := (ih hcmd).mp hmore
      cases hcons
      exact ⟨new :: news, .cons hnew hnews, rfl⟩
    · rintro ⟨_, hbecomes, rfl⟩
      obtain ⟨new, news, hnew, hnews, rfl⟩ := forall₂_cons_left_iff.mp hbecomes
      have hone : expandWord cwd runDir problemDir params word = .ok [new] :=
        (expandWord_eq_ok_iff hword.symm).mpr ⟨_, hnew, rfl⟩
      have hmore := (ih hcmd).mpr ⟨_, hnews, rfl⟩
      exact (bind_of_ok hone).trans (bind_of_ok hmore)

/-- **Parameters without a place of their own come behind the command.** -/
theorem expandWords_eq_ok_iff (h : paramsToken ∉ cmd) {words : List String} :
    expandWords cwd runDir problemDir cmd params = .ok words ↔
      ∃ command, List.Forall₂ (Becomes cwd runDir problemDir) cmd command ∧
        words = command ++ params.map expandEscapes := by
  have hplace : cmd.contains paramsToken = false :=
    Bool.eq_false_iff.mpr fun hmem => h (contains_iff_mem.mp hmem)
  have hflatten : ∀ command : List String, (command.map ([·])).flatten = command := fun command =>
    flatMap_singleton' command
  unfold expandWords
  simp only [hplace]
  constructor
  · intro hwords
    obtain ⟨lists, hlists, hflat⟩ := ok_of_bind hwords
    obtain ⟨command, hcommand, rfl⟩ := (mapM_expandWord_eq_ok_iff h).mp hlists
    cases hflat
    exact ⟨command, hcommand, by rw [hflatten]; rfl⟩
  · rintro ⟨command, hcommand, rfl⟩
    refine (bind_of_ok ((mapM_expandWord_eq_ok_iff h).mpr ⟨command, hcommand, rfl⟩)).trans ?_
    rw [hflatten]
    rfl

/-- **Command and parameters are split apart or together.**  If a command can be split, then the
command, any blank and a further text can be split together if and only if the further text can be
split by itself, and the words are those of the command and then those of the text.  So for a command
without a place for its parameters, the words that are run are those of one line of both, in which
the words of the command that are paths are seen from the run directory, and the escapes of the
parameters are expanded. -/
theorem split_apart_or_together (command params : String) (c : Char) (before : List String)
    (hsplit : Words.splitText command = .ok before) (hc : isBlank c = true) :
    ((∃ words, Words.splitText (command ++ String.singleton c ++ params) = .ok words) ↔
      ∃ after, Words.splitText params = .ok after) ∧
    (∀ after, Words.splitText params = .ok after →
      Words.splitText (command ++ String.singleton c ++ params) = .ok (before ++ after)) ∧
    (paramsToken ∉ before → ∀ words,
      Words.splitText (command ++ String.singleton c ++ params) = .ok words →
      ∃ after, words = before ++ after ∧ Words.splitText params = .ok after ∧
        ∀ cwd runDir problemDir run,
          expandWords cwd runDir problemDir before after = .ok run ↔
            ∃ front, List.Forall₂ (Becomes cwd runDir problemDir) before front ∧
              run = front ++ after.map expandEscapes) := by
  have hjoined : Words.split (command ++ String.singleton c ++ params).toList =
      (Words.split params.toList).map (before.map String.toList ++ ·) := by
    have htext : (command ++ String.singleton c ++ params).toList =
        command.toList ++ c :: params.toList := by simp
    rw [htext]
    exact Words.split_append_blank (Words.splitText_eq_ok_iff.mp hsplit) hc
  have htogether : ∀ words,
      Words.splitText (command ++ String.singleton c ++ params) = .ok words ↔
        ∃ after, Words.splitText params = .ok after ∧ words = before ++ after := by
    intro words
    simpa using Words.splitText_eq_ok_iff_of_split hjoined words
  refine ⟨⟨?_, ?_⟩, ?_, ?_⟩
  · rintro ⟨words, hwords⟩
    obtain ⟨after, hafter, -⟩ := (htogether words).mp hwords
    exact ⟨after, hafter⟩
  · rintro ⟨after, hafter⟩
    exact ⟨_, (htogether _).mpr ⟨after, hafter, rfl⟩⟩
  · intro after hafter
    exact (htogether _).mpr ⟨after, hafter, rfl⟩
  · intro hplace words hwords
    obtain ⟨after, hafter, rfl⟩ := (htogether words).mp hwords
    exact ⟨after, rfl, hafter, fun _ _ _ _ => expandWords_eq_ok_iff hplace⟩

/-- Empty words on both sides of an ideographic space, a path in the command and an escape in the
parameters. -/
theorem empty_words_at_seam :
    Words.splitText ("./s ''" ++ String.singleton '　' ++ "\"\" 'a\\tb'") =
        .ok ["./s", "", "", "a\\tb"] ∧
      expandWords (.ofString "/") (.ofString "/p/run") (.ofString "/p") ["./s", ""] ["", "a\\tb"] =
        .ok ["../s", "", "", "a\tb"] := by
  have hcommand : Words.splitText "./s ''" = .ok ["./s", ""] := by decide +kernel
  have hparams : Words.splitText "\"\" 'a\\tb'" = .ok ["", "a\\tb"] := by decide +kernel
  obtain ⟨-, htogether, hrun⟩ := split_apart_or_together "./s ''" "\"\" 'a\\tb'" '　'
    ["./s", ""] hcommand (by decide)
  have hwords := htogether _ hparams
  obtain ⟨after, hafter, -, hexpand⟩ := hrun (by decide) _ hwords
  obtain rfl : ["", "a\\tb"] = after := List.append_cancel_left hafter
  refine ⟨hwords, (hexpand _ _ _ _).mpr ⟨["../s", ""], ?_, by decide +kernel⟩⟩
  refine .cons ?_ (.cons ?_ .nil)
  · exact (if_pos (by decide)).mpr (by decide +kernel)
  · exact (if_neg (by decide)).mpr rfl

end Invocation

end Judge
