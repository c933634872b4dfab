import Judge.Proofs.PassingRun
import Judge.Proofs.Replacing
import Judge.Proofs.SpacedWords

/-!
# Proofs/Placeholders — a placeholder is expanded alike in bytes and in text

A list is cut at a word from the left (`Leftmost`): pieces that are ended by the word for the first
time, and a last piece without it.  Replacing the word joins these pieces with the value
(`Leftmost.replaceAll_eq`).

In the bytes of a text the bytes of a word stand only where the word stands in the text, since no
character begins inside another (`Utf8.exists_of_encode_eq`).  So a cut of the text is a cut of its
bytes (`Utf8.leftmost_encode`), and the reference, which is expanded as bytes, is expanded as the
parameters and the environment are, which are text.
-/

namespace Judge

open List

/-! ## Cutting at a word from the left -/

section Leftmost

variable {α : Type} {needle xs lead last : List α} {leads : List (List α)}

/-- The word that is put after `lead` does not occur before. -/
def EndsFirst (needle lead : List α) : Prop :=
  ∀ front back, lead ++ needle = front ++ needle ++ back → back = []

/-- **The cut of a list at a word from the left**: each piece but the last is ended by the word, for
the first time, and the word does not occur in the last one. -/
structure Leftmost (needle xs : List α) (leads : List (List α)) (last : List α) : Prop where
  whole : xs = leads.flatMap (· ++ needle) ++ last
  first : ∀ lead ∈ leads, EndsFirst needle lead
  free : ¬ needle <:+: last

theorem endsFirst_of_notInfix (hne : needle ≠ []) (h : ¬ needle <:+: lead ++ needle.dropLast) :
    EndsFirst needle lead := by
  intro front back hback
  by_contra hmore
  obtain ⟨more, x, rfl⟩ := (eq_nil_or_concat back).resolve_left hmore
  have hlast : (lead ++ needle).dropLast = front ++ needle ++ more := by
    rw [hback, concat_eq_append, ← append_assoc, dropLast_concat]
  exact h ⟨front, more, by rw [← hlast, dropLast_append_of_ne_nil hne]⟩

variable [BEq α] [LawfulBEq α]

/-- **Every list has a cut at a word from the left**, from one first occurrence to the next. -/
theorem exists_leftmost (hne : needle ≠ []) (xs : List α) :
    ∃ leads last, Leftmost needle xs leads last := by
  induction hlength : xs.length using Nat.strongRecOn generalizing xs with
  | ind n ih =>
    cases hcut : cutAt needle xs with
    | none => exact ⟨[], xs, rfl, nofun, (cutAt_eq_none_iff hne).mp hcut⟩
    | some cut =>
      obtain ⟨hxs, hfirst⟩ := (cutAt_eq_some_iff hne).mp hcut
      have hshorter : cut.2.length < n := by
        have hpos := length_pos_iff.mpr hne
        rw [← hlength, hxs, length_append, length_append]
        omega
      obtain ⟨leads, last, hrest⟩ := ih _ hshorter cut.2 rfl
      refine ⟨cut.1 :: leads, last, ?_, forall_mem_cons.mpr
        ⟨endsFirst_of_notInfix hne hfirst, hrest.first⟩, hrest.free⟩
      rw [flatMap_cons, append_assoc, ← hrest.whole, hxs]

/-! ## Replacing is joining the pieces -/

theorem replaceFrom_of_endsFirst (hne : needle ≠ []) (h : EndsFirst needle lead)
    (value rest : List α) : replaceFrom needle value 0 (lead ++ needle ++ rest) =
      lead ++ value ++ replaceFrom needle value 0 rest := by
  induction lead with
  | nil => exact replaceFrom_append_self hne rest
  | cons x lead ih =>
    have hhere : ¬ needle.isPrefixOf (x :: (lead ++ needle ++ rest)) = true := by
      intro hprefix
      obtain ⟨back, hback⟩ := prefix_of_prefix_length_le
        (List.isPrefixOf_iff_prefix.mp hprefix) (prefix_append (x :: lead ++ needle) rest)
        (by simp; omega)
      have hlength := congrArg length hback
      simp [h [] back hback.symm] at hlength
      omega
    have hlead : EndsFirst needle lead := fun front back hback =>
      h (x :: front) back (congrArg (x :: ·) hback)
    rw [cons_append, cons_append, replaceFrom, if_neg hhere, ih hlead]
    rfl

/-- **Replacing a word joins the pieces of the cut with the value.** -/
theorem Leftmost.replaceAll_eq (hne : needle ≠ []) (h : Leftmost needle xs leads last)
    (value : List α) : replaceAll needle value xs = leads.flatMap (· ++ value) ++ last := by
  obtain ⟨rfl, hfirst, hfree⟩ := h
  rw [replaceAll, if_neg fun hempty => hne (isEmpty_iff.mp hempty)]
  induction leads with
  | nil => exact replaceFrom_eq_self hfree
  | cons lead leads ih =>
    obtain ⟨hlead, hleads⟩ := forall_mem_cons.mp hfirst
    simp only [flatMap_cons, append_assoc, ← ih hleads]
    simpa using replaceFrom_of_endsFirst hne hlead value (leads.flatMap (· ++ needle) ++ last)

end Leftmost

/-! ## In the bytes of a text -/

namespace Utf8

variable {text word : List Char} {front back : Bytes}

/-- **The bytes of a word stand only where the word stands.**  Its first byte begins a character, so
no occurrence begins inside one. -/
theorem exists_of_encode_eq (hne : word ≠ []) (h : encode text = front ++ encode word ++ back) :
    ∃ before after, text = before ++ word ++ after ∧ front = encode before ∧
      back = encode after := by
  have hstart : AtStart (encode word ++ back) := by
    obtain ⟨c, cs, rfl⟩ := exists_cons_of_ne_nil hne
    rw [encode_cons, append_assoc]
    exact atStart_encodeChar_append c _
  have hunits : text.map some = units front ++ (word.map some ++ units back) := by
    rw [← units_encode, h, append_assoc, units_append _ hstart, units_encode_append]
  obtain ⟨before, rest, rfl, hbefore, hrest⟩ := map_eq_append_iff.mp hunits
  obtain ⟨found, after, rfl, hfound, hafter⟩ := map_eq_append_iff.mp hrest
  obtain rfl := (map_injective_iff.mpr (Option.some_injective Char)) hfound
  exact ⟨before, after, (append_assoc ..).symm, eq_encode_of_units hbefore.symm,
    eq_encode_of_units hafter.symm⟩

theorem encode_ne_nil (hne : word ≠ []) : encode word ≠ [] :=
  fun hnil => hne (encode_injective hnil)

/-- **A cut of a text is a cut of its bytes.** -/
theorem leftmost_encode (hne : word ≠ []) {leads : List (List Char)} {last : List Char}
    (h : Leftmost word text leads last) :
    Leftmost (encode word) (encode text) (leads.map encode) (encode last) where
  whole := by
    rw [h.whole, encode_append, flatMap_map]
    simp [encode, flatMap_assoc]
  first := by
    rintro _ hmem front back hback
    obtain ⟨lead, hlead, rfl⟩ := mem_map.mp hmem
    rw [← encode_append] at hback
    obtain ⟨before, after, heq, -, rfl⟩ := exists_of_encode_eq hne hback
    rw [h.first lead hlead before after heq, encode_nil]
  free := by
    rintro ⟨front, back, hback⟩
    obtain ⟨before, after, heq, -, -⟩ := exists_of_encode_eq hne hback.symm
    exact h.free ⟨before, after, heq.symm⟩

/-- **Replacing in the bytes of a text is replacing in the text.** -/
theorem replaceAll_encode (hne : word ≠ []) (value text : List Char) :
    replaceAll (encode word) (encode value) (encode text) =
      encode (replaceAll word value text) := by
  obtain ⟨leads, last, hcut⟩ := exists_leftmost hne text
  rw [(leftmost_encode hne hcut).replaceAll_eq (encode_ne_nil hne), hcut.replaceAll_eq hne,
    encode_append, flatMap_map]
  simp [encode, flatMap_assoc]

end Utf8

namespace Invocation

/-- Replacing a token in bytes is replacing it in the text that they write. -/
theorem utf8_replaceToken {token : String} (hne : token ≠ "") (text value : String) :
    utf8 (replaceToken text token value) = replaceAll (utf8 token) (utf8 value) (utf8 text) := by
  have hchars : token.toList ≠ [] := fun hnil => hne (String.toList_eq_nil_iff.mp hnil)
  rw [utf8, replaceToken, String.toList_ofList, ← Utf8.replaceAll_encode hchars]
  rfl

/-- What an invocation shows and the environment it has, where the placeholder of the problem
directory is expanded. -/
theorem build_expanded {cwd runDir : Path} {inherited : Vars} {options : Options} {m : Metadata}
    {case : TestCase} {v : Invocation} (hsubst : m.enableSubst = true)
    (h : build cwd inherited options m case runDir = .ok v) :
    v.env = (if m.nukeEnviron then Vars.empty else inherited).overlay
        (m.environ.mapValues (replaceToken · problemDirPlaceholder
          (Path.absolute cwd options.problemDir).display)) ∧
      ∃ seen cmd params words, seenFrom cwd runDir case.input = .ok seen ∧
        splitWords (replaceToken (replaceToken (m.params.getD "") options.inputFilename seen)
          problemDirPlaceholder (Path.absolute cwd options.problemDir).display) = .ok params ∧
        expandWords cwd runDir (Path.absolute cwd options.problemDir) cmd params = .ok words ∧
        v.display = Words.joinText (asUser options.user words) := by
  obtain ⟨words, argv, hown, -, rfl⟩ := build_eq_ok h
  obtain ⟨seen, hseen, h₁⟩ := ok_of_bind hown
  obtain ⟨cmd, -, h₂⟩ := ok_of_bind h₁
  obtain ⟨params, hparams, hwords⟩ := ok_of_bind h₂
  rw [if_pos hsubst] at hparams
  refine ⟨?_, seen, cmd, params, words, hseen, hparams, hwords, rfl⟩
  simp only [environment, if_pos hsubst]

/-- **A placeholder is expanded alike in the reference and in the command line.**  Bytes can be cut
at a word from the left, and replacing the word joins the pieces with the value.  For bytes that
write texts the result writes the text in which the word is replaced.  So where the path of the
problem directory is text, the reference is expanded as the values of the environment and the
parameters are. -/
theorem placeholders_expanded_alike (needle value haystack : Bytes) (hne : needle ≠ []) :
    (∃ leads last, Leftmost needle haystack leads last) ∧
    (∀ leads last, Leftmost needle haystack leads last →
      replaceAll needle value haystack = leads.flatMap (· ++ value) ++ last) ∧
    (∀ token word text : String, needle = utf8 token → value = utf8 word → haystack = utf8 text →
      replaceAll needle value haystack = utf8 (replaceToken text token word)) ∧
    ∀ (s : Setup) (m : Metadata) (case : TestCase) (runDir : Path) (v : Invocation) (dir : String),
      (Path.absolute s.cwd s.options.problemDir).text = utf8 dir → m.enableSubst = true →
      build s.cwd s.inherited s.options m case runDir = .ok v →
      (∀ text, s.expand (utf8 text) = utf8 (replaceToken text problemDirPlaceholder dir)) ∧
      v.env = (if m.nukeEnviron then Vars.empty else s.inherited).overlay
        (m.environ.mapValues (replaceToken · problemDirPlaceholder dir)) ∧
      ∃ seen cmd params words, seenFrom s.cwd runDir case.input = .ok seen ∧
        splitWords (replaceToken (replaceToken (m.params.getD "") s.options.inputFilename seen)
          problemDirPlaceholder dir) = .ok params ∧
        expandWords s.cwd runDir (Path.absolute s.cwd s.options.problemDir) cmd params
          = .ok words ∧
        v.display = Words.joinText (asUser s.options.user words) := by
  refine ⟨exists_leftmost hne haystack, fun _ _ h => h.replaceAll_eq hne value, ?_, ?_⟩
  · rintro token word text rfl rfl rfl
    refine (utf8_replaceToken ?_ text word).symm
    rintro rfl
    exact hne rfl
  · intro s m case runDir v dir hdir hsubst hbuild
    have hdisplay : (Path.absolute s.cwd s.options.problemDir).display = dir := by
      rw [Path.display, hdir, Utf8.text, utf8, Utf8.decodeLossy_encode, String.ofList_toList]
    have hparts := build_expanded hsubst hbuild
    rw [hdisplay] at hparts
    refine ⟨fun text => ?_, hparts⟩
    rw [utf8_replaceToken (by decide), ← hdir]
    rfl

/-! A problem directory with an accent, and a placeholder after a sign that it begins with. -/

def accentedSetup : Setup :=
  { plainSetup with cwd := .ofString "/", options := { problemDir := .ofString "/pé" } }

/-- The record of the test. -/
def accentedRecord : Metadata where
  params := some "ü$\x7bproblem.problem_dir\x7d/x"
  environ := ⟨[("DATA", "$$\x7bproblem.problem_dir\x7d/")]⟩
  enableSubst := true

def accentedStart : Except JudgeError Invocation :=
  build accentedSetup.cwd accentedSetup.inherited accentedSetup.options accentedRecord awkwardCase
    (.ofString "/pé/run")

theorem accented_directory_expanded :
    replaceAll (utf8 "aba") (utf8 "é") (utf8 "ababaü-aba") = utf8 "ébaü-é" ∧
      ∃ v, accentedStart = .ok v ∧ v.display = "../solution 'ü/pé/x'" ∧
        v.env.get? "DATA" = some "$/pé/" ∧
        accentedSetup.expand (utf8 "$$\x7bproblem.problem_dir\x7d/") = utf8 "$/pé/" := by
  obtain ⟨-, -, htext, hbuilt⟩ := placeholders_expanded_alike (utf8 "aba") (utf8 "é")
    (utf8 "ababaü-aba") (by decide)
  refine ⟨(htext "aba" "é" "ababaü-aba" rfl rfl rfl).trans (by decide +kernel), ?_⟩
  have hshown : accentedStart.toOption.map (·.display) = some "../solution 'ü/pé/x'" := by
    decide +kernel
  cases hv : accentedStart with
  | error e => cases hv ▸ hshown
  | ok v =>
    obtain ⟨hreference, henv, -⟩ := hbuilt accentedSetup accentedRecord awkwardCase
      (.ofString "/pé/run") v "/pé" (by decide +kernel) rfl hv
    rw [hv] at hshown
    refine ⟨v, rfl, Option.some.inj hshown, ?_, ?_⟩
    · rw [henv]
      decide +kernel
    · rw [hreference]
      decide +kernel

end Invocation

end Judge
