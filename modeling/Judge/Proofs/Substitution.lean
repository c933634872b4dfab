import Judge.Command.Invocation
import Judge.Proofs.Replacing
import Judge.Proofs.Splitting
import Mathlib.Algebra.Order.BigOperators.Group.List

/-!
# Proofs/Substitution — a path put into a command line before it is split

The token of the input is replaced in the text of a command, before the text is split.  So the path
is read where the token stood, with the quotes that stand around it there.  It is read as it stands
if it has no sign that means something at that place (`literal`, `foldl_step_literal`).

To compare the splitting of the text before and after, both are taken for one text with gaps, filled
once with the token and once with the path.  The splitter can be run on the text with gaps itself
(`Sketch.read`), and its words are words with gaps (`fill_foldl_read`).  They are what replacing the
token in them would give if the token occurs in no word where it did not occur in the text.
-/

namespace Judge

open List

namespace Words

open Template

/-! ## Texts that are read as they stand -/

/-- A character that means only itself outside of quotes. -/
def ordinary (c : Char) : Bool := !isBlank c && c != '\'' && c != '"' && c != '\\'

/-- A character that a backslash between double quotes does not change. -/
def unescaped (c : Char) : Bool :=
  c != '\\' && c != '"' && c != '$' && c != '\x60' && c != '\n'

/-- **Whether a text is read as it stands**, begun in a mode.  After a backslash that mode is left
with the first character, and the backslash is part of the word only between double quotes. -/
def literal : Mode → List Char → Bool
  | .plain, [] | .single, [] | .double, [] => true
  | .doubleEscape, [] | .escape, [] => false
  | .plain, c :: x => ordinary c && literal .plain x
  | .single, c :: x => c != '\'' && literal .single x
  | .double, c :: x =>
    if c = '\\' then literal .doubleEscape x else c != '"' && literal .double x
  | .doubleEscape, c :: x => unescaped c && literal .double x
  | .escape, c :: x => c != '\n' && literal .plain x

/-- The mode after such a text. -/
def Mode.resume : Mode → Mode
  | .doubleEscape => .double
  | .escape => .plain
  | mode => mode

/-- What a mode holds back until the next character. -/
def Mode.held : Mode → List Char
  | .doubleEscape => ['\\']
  | _ => []

/-- **The text `x` can stand after the state `s`**: it is read as it stands, and if it is empty
there is a word that it is part of. -/
def Stands (s : State) (x : List Char) : Prop :=
  literal s.mode x = true ∧ (x = [] → s.word.isSome = true)

instance decidableStands (s : State) (x : List Char) : Decidable (Stands s x) :=
  inferInstanceAs (Decidable (_ ∧ _))

/-- The first character of a text that is read as it stands adds itself, or it is a backslash that
is held back. -/
theorem step_literal {mode : Mode} {c : Char} {x : List Char} (h : literal mode (c :: x) = true)
    (word : Option (List Char)) (done : List (List Char)) :
    (∃ mode', mode'.resume = mode.resume ∧ mode'.held = [] ∧ literal mode' x = true ∧
      step ⟨mode, word, done⟩ c =
        ⟨mode', some (c :: (mode.held.reverse ++ word.getD [])), done⟩) ∨
      mode = .double ∧ c = '\\' ∧ literal .doubleEscape x = true ∧
        step ⟨mode, word, done⟩ c = ⟨.doubleEscape, word, done⟩ := by
  cases mode with
  | plain =>
    simp only [literal, ordinary, Bool.and_eq_true, Bool.not_eq_true', bne_iff_ne] at h
    obtain ⟨⟨⟨⟨hblank, hsingle⟩, hdouble⟩, hescape⟩, hx⟩ := h
    refine .inl ⟨.plain, rfl, rfl, hx, ?_⟩
    simp [step, State.push, Mode.held, hblank, hsingle, hdouble, hescape]
  | single =>
    simp only [literal, Bool.and_eq_true, bne_iff_ne] at h
    refine .inl ⟨.single, rfl, rfl, h.2, ?_⟩
    simp [step, State.push, Mode.held, h.1]
  | double =>
    by_cases hescape : c = '\\'
    · rw [literal, if_pos hescape] at h
      exact .inr ⟨rfl, hescape, h, by simp [step, hescape]⟩
    · rw [literal, if_neg hescape, Bool.and_eq_true, bne_iff_ne] at h
      refine .inl ⟨.double, rfl, rfl, h.2, ?_⟩
      simp [step, State.push, Mode.held, h.1, hescape]
  | doubleEscape =>
    simp only [literal, unescaped, Bool.and_eq_true, bne_iff_ne] at h
    obtain ⟨⟨⟨⟨⟨hescape, hdouble⟩, hdollar⟩, hbacktick⟩, hfeed⟩, hx⟩ := h
    refine .inl ⟨.double, rfl, rfl, hx, ?_⟩
    simp [step, State.push, Mode.held, hescape, hdouble, hdollar, hbacktick, hfeed]
  | escape =>
    simp only [literal, Bool.and_eq_true, bne_iff_ne] at h
    refine .inl ⟨.plain, rfl, rfl, h.2, ?_⟩
    simp [step, State.push, Mode.held, h.1]

/-- **A text that can stand somewhere adds itself to the word.** -/
theorem foldl_step_literal {s : State} {x : List Char} (h : Stands s x) :
    x.foldl step s =
      ⟨s.mode.resume, some ((s.mode.held ++ x).reverse ++ s.word.getD []), s.done⟩ := by
  obtain ⟨mode, word, done⟩ := s
  obtain ⟨hliteral, hword⟩ := h
  induction x generalizing mode word with
  | nil =>
    obtain ⟨w, rfl⟩ := Option.isSome_iff_exists.mp (hword rfl)
    cases mode with
    | plain | single | double => rfl
    | doubleEscape | escape => cases hliteral
  | cons c x ih =>
    rcases step_literal hliteral word done with
      ⟨mode', hresume, hheld, hx, hstep⟩ | ⟨rfl, rfl, hx, hstep⟩
    · rw [foldl_cons, hstep, ih mode' _ hx (fun _ => rfl), hresume, hheld]
      simp
    · have hne : x = [] → word.isSome = true := by
        rintro rfl
        cases hx
      rw [foldl_cons, hstep, ih .doubleEscape word hx hne]
      simp [Mode.resume, Mode.held]

/-! ## The splitter on a text with gaps -/

/-- **The state of the splitter on a text with gaps.**  The words have gaps too, and each is kept in
the order in which it is read. -/
structure Sketch where
  mode : Mode := .plain
  word : Option (Template Char) := none
  done : List (Template Char) := []

namespace Sketch

/-- The state with `x` in every gap. -/
def fill (x : List Char) (k : Sketch) : State where
  mode := k.mode
  word := k.word.map fun t => (Template.fill x t).reverse
  done := k.done.map (Template.fill x)

/-- The sketch with its words changed. -/
def apply : Effect → Sketch → Sketch
  | .keep, k => k
  | .close, k =>
    match k.word with
    | none => k
    | some t => { k with word := none, done := t :: k.done }
  | .add cs, k => { k with word := some (k.word.getD [] ++ cs.map some) }

/-- One element of a text with gaps.  A gap is taken for something that can stand there. -/
def read (k : Sketch) : Option Char → Sketch
  | some c => { apply (effect k.mode c) k with mode := next k.mode c }
  | none =>
    { k with
      mode := k.mode.resume
      word := some (k.word.getD [] ++ k.mode.held.map some ++ [none]) }

/-- The words, with their gaps, when the text ends. -/
def words (k : Sketch) : List (Template Char) := (apply .close k).done.reverse

/-- The number of gaps in all words. -/
def gaps (k : Sketch) : Nat := (k.done.map Template.gaps).sum + Template.gaps (k.word.getD [])

theorem fill_apply (x : List Char) (e : Effect) (k : Sketch) :
    (apply e k).fill x = e.apply (k.fill x) := by
  obtain ⟨mode, word, done⟩ := k
  cases e with
  | keep => rfl
  | close => cases word <;> simp [apply, fill, Effect.apply, State.close]
  | add cs => cases word <;> simp [apply, fill, Effect.apply]

theorem fill_read_some (x : List Char) (k : Sketch) (c : Char) :
    (k.read (some c)).fill x = step (k.fill x) c := by
  rw [step_eq, ← fill_apply]
  rfl

theorem fill_read_none {x : List Char} {k : Sketch} (h : Stands (k.fill x) x) :
    (k.read none).fill x = x.foldl step (k.fill x) := by
  rw [foldl_step_literal h]
  obtain ⟨mode, word, done⟩ := k
  cases word <;> simp [read, fill]

/-- What can stand at a gap does not hang on what the other gaps are filled with. -/
theorem stands_fill_iff (k : Sketch) (x y z : List Char) :
    Stands (k.fill x) z ↔ Stands (k.fill y) z := by
  simp [Stands, fill]

/-- **Splitting a text that is filled is filling what was split with gaps**, if what they are filled
with can stand in them. -/
theorem fill_foldl_read {x : List Char} {k : Sketch} {t : Template Char}
    (h : ∀ lead rest, t = lead ++ none :: rest → Stands ((lead.foldl read k).fill x) x) :
    (t.foldl read k).fill x = (Template.fill x t).foldl step (k.fill x) := by
  induction t generalizing k with
  | nil => rfl
  | cons e t ih =>
    have hrest := ih fun lead rest heq => h (e :: lead) rest (congrArg (e :: ·) heq)
    rw [foldl_cons, hrest]
    cases e with
    | some c => rw [fill_read_some, fill_some, foldl_cons]
    | none =>
      have hhere : Stands (k.fill x) x := h [] t rfl
      rw [fill_read_none hhere, fill_none, foldl_append]

theorem finish_fill {k : Sketch} (hmode : k.mode = .plain) (x : List Char) :
    finish (k.fill x) = .ok (k.words.map (Template.fill x)) := by
  have hclose : (k.fill x).close = (apply .close k).fill x := (fill_apply x .close k).symm
  rw [finish, show (k.fill x).mode = .plain from hmode]
  simp only [hclose, words]
  rw [map_reverse]
  rfl

theorem mode_of_finish_fill {k : Sketch} {x : List Char} {ws : List (List Char)}
    (h : finish (k.fill x) = .ok ws) : k.mode = .plain := by
  obtain ⟨mode, word, done⟩ := k
  cases mode with
  | plain => rfl
  | _ => cases h

/-! ### Counting gaps -/

theorem gaps_apply (e : Effect) (k : Sketch) : (apply e k).gaps = k.gaps := by
  obtain ⟨mode, word, done⟩ := k
  cases e with
  | keep => rfl
  | close => cases word <;> simp [apply, gaps, Nat.add_comm]
  | add cs => simp [apply, gaps]

theorem gaps_read (k : Sketch) (e : Option Char) :
    (k.read e).gaps = k.gaps + Template.gaps [e] := by
  cases e with
  | some c => exact gaps_apply (effect k.mode c) k
  | none => simp [read, gaps, Nat.add_assoc]

theorem gaps_foldl_read (t : Template Char) (k : Sketch) :
    (t.foldl read k).gaps = k.gaps + Template.gaps t := by
  induction t generalizing k with
  | nil => rfl
  | cons e t ih =>
    rw [foldl_cons, ih, gaps_read, Nat.add_assoc, ← gaps_append]
    rfl

theorem sum_gaps_words (k : Sketch) : (k.words.map Template.gaps).sum = k.gaps := by
  rw [← gaps_apply .close k, words, map_reverse, sum_reverse]
  obtain ⟨mode, word, done⟩ := k
  cases word <;> simp [apply, gaps]

end Sketch

/-! ## Replacing before and after splitting -/

/-- What is nowhere larger and in all not smaller is everywhere as large. -/
theorem le_of_sum_map_le {β : Type} {f g : β → Nat} {ts : List β} (hle : ∀ t ∈ ts, f t ≤ g t)
    (hsum : (ts.map g).sum ≤ (ts.map f).sum) : ∀ t ∈ ts, g t ≤ f t := by
  intro t ht
  by_contra! hlt
  exact hsum.not_gt (sum_lt_sum f g hle ⟨t, ht, hlt⟩)

section Replace

variable {c : Char} {rest cmd path : List Char} {ws : List (List Char)}

/-- **Replacing a token before splitting is replacing it in the words**, where the value can stand
in the place of each token and no word holds a token that the text does not hold. -/
theorem split_replaceAll (hc : c ∉ rest) (htoken : ∀ mode, literal mode (c :: rest) = true)
    (hsplit : split cmd = .ok ws)
    (hstands : ∀ lead tail, cmd = lead ++ c :: rest ++ tail → Stands (lead.foldl step {}) path)
    (hwhole : (ws.map (occurrences (c :: rest))).sum ≤ occurrences (c :: rest) cmd) :
    split (replaceAll (c :: rest) path cmd) = .ok (ws.map (replaceAll (c :: rest) path)) := by
  obtain ⟨t, hfill, hgaps, hvalue⟩ := exists_template hc cmd
  -- the two texts, and all their beginnings, are read as one text with gaps
  have hbefore : ∀ lead : Template Char,
      (lead.foldl Sketch.read {}).fill (c :: rest) = (fill (c :: rest) lead).foldl step {} :=
    fun lead => Sketch.fill_foldl_read fun _ _ _ => ⟨htoken _, nofun⟩
  have hafter : (t.foldl Sketch.read {}).fill path = (fill path t).foldl step {} := by
    refine Sketch.fill_foldl_read fun lead tail heq => ?_
    rw [Sketch.stands_fill_iff _ path (c :: rest), hbefore]
    exact hstands (fill (c :: rest) lead) (fill (c :: rest) tail) (by rw [← hfill, heq]; simp)
  have hread : finish ((t.foldl Sketch.read {}).fill (c :: rest)) = .ok ws := by
    rw [hbefore, hfill]
    exact hsplit
  have hmode := Sketch.mode_of_finish_fill hread
  rw [Sketch.finish_fill hmode, Except.ok.injEq] at hread
  have hcount : ((t.foldl Sketch.read {}).words.map gaps).sum = occurrences (c :: rest) cmd := by
    rw [Sketch.sum_gaps_words, Sketch.gaps_foldl_read, hgaps]
    exact Nat.zero_add _
  have hreplace : replaceAll (c :: rest) path cmd = fill path t := (hvalue path).symm
  rw [hreplace, split, ← hafter, Sketch.finish_fill hmode, ← hread, map_map]
  refine congrArg _ (map_congr_left fun u hu => ?_)
  rw [← hcount, ← hread, map_map] at hwhole
  exact (replaceFrom_fill hc
    (le_of_sum_map_le (fun u _ => gaps_le_occurrences hc u) hwhole u hu)).symm

end Replace

end Words

namespace Invocation

open Words

/-- **A path fits a command** if it can stand wherever the token of the input stands in its text. -/
def Fits (cmd path : String) : Prop :=
  ∀ lead rest, cmd = lead ++ "input.txt" ++ rest → Stands (stateAfter lead) path.toList

/-- The places of the token can be tried one by one. -/
theorem fits_iff (cmd path : String) :
    Fits cmd path ↔ ∀ k, k < cmd.toList.length → "input.txt".toList <+: cmd.toList.drop k →
      Stands ((cmd.toList.take k).foldl step {}) path.toList := by
  constructor
  · rintro h k - ⟨rest, hrest⟩
    have hcmd : cmd = String.ofList (cmd.toList.take k) ++ "input.txt" ++ String.ofList rest := by
      refine String.toList_inj.mp ?_
      simp only [String.toList_append, String.toList_ofList, append_assoc, hrest,
        take_append_drop]
    have hlead := h _ _ hcmd
    rwa [stateAfter, String.toList_ofList] at hlead
  · rintro h lead rest rfl
    have hplace := h lead.toList.length
    simp only [String.toList_append, append_assoc, drop_left, take_left] at hplace
    refine hplace ?_ (prefix_append _ _)
    simp

instance decidableFits (cmd path : String) : Decidable (Fits cmd path) :=
  decidable_of_iff' _ (fits_iff cmd path)

/-- **The path of the input in a command line.**  The path is put in the place of the token
`input.txt` in the text of a command, before the text is split.  If the path fits the command, and
no word holds a token that the text does not hold, then the words are those from before with the path
in the place of each token.  So a word that is the token becomes the path. -/
theorem substituted_path_keeps_words (cmd path : String) (words : List String)
    (hsplit : splitText cmd = .ok words) (hfits : Fits cmd path)
    (hwhole : (words.map fun w => occurrences "input.txt".toList w.toList).sum ≤
      occurrences "input.txt".toList cmd.toList) :
    splitText (replaceToken cmd "input.txt" path) =
        .ok (words.map (replaceToken · "input.txt" path)) ∧
      replaceToken "input.txt" "input.txt" path = path := by
  have htoken : ∀ mode, literal mode "input.txt".toList = true := fun mode => by
    cases mode <;> decide
  have hfirst : 'i' ∉ "nput.txt".toList := by decide
  have hplaces : ∀ lead rest, cmd.toList = lead ++ "input.txt".toList ++ rest →
      Stands (lead.foldl step {}) path.toList := by
    intro lead rest heq
    have hcmd : cmd = String.ofList lead ++ "input.txt" ++ String.ofList rest :=
      String.toList_inj.mp (by simp [heq])
    have hlead := hfits _ _ hcmd
    rwa [stateAfter, String.toList_ofList] at hlead
  have hcounted : ((words.map String.toList).map (occurrences "input.txt".toList)).sum ≤
      occurrences "input.txt".toList cmd.toList := by
    rw [List.map_map]
    exact hwhole
  have hwords := split_replaceAll hfirst htoken (splitText_eq_ok_iff.mp hsplit) hplaces hcounted
  refine ⟨splitText_eq_ok_iff.mpr ?_, ?_⟩
  · rw [replaceToken, String.toList_ofList]
    refine hwords.trans ?_
    simp only [List.map_map]
    refine congrArg _ (List.map_congr_left fun w _ => ?_)
    exact String.toList_ofList.symm
  · have hself : replaceAll "input.txt".toList path.toList ("input.txt".toList ++ []) =
        path.toList ++ [] := replaceFrom_append_self (by decide) []
    rw [List.append_nil, List.append_nil] at hself
    rw [replaceToken, hself, String.ofList_toList]

/-- A path with a blank and a quote, in two words that are quoted for it. -/
theorem quoted_token_takes_path :
    splitText (replaceToken "./s \"input.txt\" -f\"x input.txt\"" "input.txt" "../it's one.dat") =
      .ok ["./s", "../it's one.dat", "-fx ../it's one.dat"] := by
  refine (substituted_path_keeps_words "./s \"input.txt\" -f\"x input.txt\"" "../it's one.dat"
    ["./s", "input.txt", "-fx input.txt"] ?_ ?_ ?_).1.trans ?_
  · decide +kernel
  · decide +kernel
  · decide +kernel
  · decide +kernel

/-- Without quotes a path with a blank becomes two words, and a token that is put together from two
pieces is not replaced. -/
theorem blank_path_becomes_two_words :
    seenFrom (.ofString "/") (.ofString "/p/run") (.ofString "/p/tests/a b.dat")
        = .ok "../tests/a b.dat" ∧
      splitText "./s input.txt" = .ok ["./s", "input.txt"] ∧
      ["./s", "input.txt"].map (replaceToken · "input.txt" "../tests/a b.dat")
        = ["./s", "../tests/a b.dat"] ∧
      splitText (replaceToken "./s input.txt" "input.txt" "../tests/a b.dat")
        = .ok ["./s", "../tests/a", "b.dat"] ∧
      splitText "./s in''put.txt" = .ok ["./s", "input.txt"] ∧
      splitText (replaceToken "./s in''put.txt" "input.txt" "../tests/1.dat")
        = .ok ["./s", "input.txt"] := by
  decide +kernel

end Invocation

end Judge
