import Judge.Proofs.Basic
import Judge.Proofs.Quoting

/-!
# Proofs/Splitting — what one character does to the splitter

What a character does to the words depends on the mode alone (`step_eq`): it leaves them as they
are, ends the word that was begun, or adds to it.  So words that are finished do not matter for what
comes after them (`foldl_step_after`).

A backslash before a line feed continues the line.  It leaves no trace inside a word and between
double quotes, but outside of both it begins a word (`foldl_step_continuation`).  If none goes on
after it, an empty word is left over (`finish_continuation_alone`).
-/

namespace Judge.Words

open List

/-! ## Effects -/

/-- What a character does to the words. -/
inductive Effect where
  | keep
  | close
  /-- The word goes on, and is begun if there is none. -/
  | add (cs : List Char)

/-- The state with the words changed. -/
def Effect.apply : Effect → State → State
  | .keep, s => s
  | .close, s => s.close
  | .add cs, s => { s with word := some (cs.reverse ++ s.word.getD []) }

/-- **What a character does to the words** in a mode. -/
def effect (mode : Mode) (c : Char) : Effect :=
  match mode with
  | .plain =>
    if isBlank c then .close
    else if c = '\'' ∨ c = '"' ∨ c = '\\' then .add []
    else .add [c]
  | .single => if c = '\'' then .keep else .add [c]
  | .double => if c = '"' ∨ c = '\\' then .keep else .add [c]
  | .doubleEscape =>
    if c = '\\' ∨ c = '"' ∨ c = '$' ∨ c = '\x60' then .add [c]
    else if c = '\n' then .keep
    else .add ['\\', c]
  | .escape => if c = '\n' then .keep else .add [c]

/-- **The mode that a character leads to.** -/
def next (mode : Mode) (c : Char) : Mode :=
  match mode with
  | .plain =>
    if isBlank c then .plain
    else if c = '\'' then .single
    else if c = '"' then .double
    else if c = '\\' then .escape
    else .plain
  | .single => if c = '\'' then .plain else .single
  | .double => if c = '"' then .plain else if c = '\\' then .doubleEscape else .double
  | .doubleEscape => .double
  | .escape => .plain

/-- **A step is its effect in the mode**, and then the next mode. -/
theorem step_eq (s : State) (c : Char) :
    step s c = { (effect s.mode c).apply s with mode := next s.mode c } := by
  obtain ⟨mode, word, done⟩ := s
  cases mode with
  | plain =>
    by_cases hblank : isBlank c = true
    · cases word <;> simp [step, effect, next, hblank, Effect.apply, State.close]
    · by_cases hsign : c = '\'' ∨ c = '"' ∨ c = '\\'
      · obtain rfl | rfl | rfl := hsign <;> rfl
      · rw [not_or, not_or] at hsign
        simp [step, effect, next, hblank, hsign, Effect.apply, State.push]
  | single => by_cases hc : c = '\'' <;> simp [step, effect, next, hc, Effect.apply, State.push]
  | double =>
    by_cases hsign : c = '"' ∨ c = '\\'
    · obtain rfl | rfl := hsign <;> rfl
    · rw [not_or] at hsign
      simp [step, effect, next, hsign, Effect.apply, State.push]
  | doubleEscape =>
    by_cases hsign : c = '\\' ∨ c = '"' ∨ c = '$' ∨ c = '\x60'
    · simp [step, effect, next, hsign, Effect.apply, State.push]
    · by_cases hfeed : c = '\n' <;>
        simp [step, effect, next, hsign, hfeed, Effect.apply, State.push]
  | escape => by_cases hc : c = '\n' <;> simp [step, effect, next, hc, Effect.apply, State.push]

/-! ## Finished words -/

/-- The state with other words before. -/
def State.after (s : State) (done : List (List Char)) : State := { s with done := s.done ++ done }

theorem apply_after (e : Effect) (s : State) (done : List (List Char)) :
    e.apply (s.after done) = (e.apply s).after done := by
  cases e with
  | keep | add cs => rfl
  | close =>
    obtain ⟨mode, word, own⟩ := s
    cases word <;> rfl

theorem step_after (s : State) (done : List (List Char)) (c : Char) :
    step (s.after done) c = (step s c).after done := by
  rw [step_eq, step_eq, apply_after]
  rfl

/-- **Finished words stay as they are**, and nothing hangs on them. -/
theorem foldl_step_after (text : List Char) (s : State) (done : List (List Char)) :
    text.foldl step (s.after done) = (text.foldl step s).after done := by
  induction text generalizing s with
  | nil => rfl
  | cons c text ih => rw [foldl_cons, step_after, ih, foldl_cons]

theorem finish_after (s : State) (done : List (List Char)) :
    finish (s.after done) = (finish s).map (done.reverse ++ ·) := by
  obtain ⟨mode, word, own⟩ := s
  cases mode with
  | plain => cases word <;> simp [finish, State.after, State.close, Except.map]
  | _ => rfl

theorem splitText_eq_ok_iff {text : String} {words : List String} :
    splitText text = .ok words ↔ split text.toList = .ok (words.map String.toList) := by
  unfold splitText
  cases split text.toList with
  | error e => exact iff_of_false nofun nofun
  | ok ws =>
    rw [Except.ok.injEq, Except.ok.injEq]
    constructor
    · rintro rfl
      simp
    · rintro rfl
      simp

/-- Words that come before those of another text. -/
theorem splitText_eq_ok_iff_of_split {text y : String} {front : List (List Char)}
    (h : split text.toList = (split y.toList).map (front ++ ·)) (words : List String) :
    splitText text = .ok words ↔
      ∃ after, splitText y = .ok after ∧ words = front.map String.ofList ++ after := by
  rw [splitText_eq_ok_iff, h, map_eq_ok_iff]
  constructor
  · rintro ⟨ws, hws, heq⟩
    have hwords := congrArg (map String.ofList) heq
    refine ⟨ws.map String.ofList, splitText_eq_ok_iff.mpr ?_, ?_⟩
    · simpa using hws
    · simpa using hwords.symm
  · rintro ⟨after, hafter, rfl⟩
    exact ⟨after.map String.toList, splitText_eq_ok_iff.mp hafter, by simp⟩

/-! ## Continued lines -/

/-- The state after a text. -/
def stateAfter (text : String) : State := text.toList.foldl step {}

theorem split_append (x y : String) :
    split (x ++ y).toList = finish (y.toList.foldl step (stateAfter x)) := by
  rw [String.toList_append, split, foldl_append]
  rfl

/-- A backslash at the end of a line. -/
def continuation : List Char := ['\\', '\n']

/-- **A continuation begins a word outside of quotes**, and does nothing between double quotes. -/
theorem foldl_step_continuation {s : State} (h : s.mode = .plain ∨ s.mode = .double) :
    continuation.foldl step s = if s.mode = .plain then s.enter else s := by
  obtain ⟨mode, word, done⟩ := s
  obtain rfl | rfl : mode = .plain ∨ mode = .double := h
  · rfl
  · rfl

/-- Nothing of a word was begun, and none goes on. -/
def Alone (s : State) (y : List Char) : Prop :=
  s.mode = .plain ∧ s.word = none ∧ ∀ c, y.head? = some c → isBlank c = true

/-- **A continuation leaves no trace** next to a word or between double quotes. -/
theorem finish_continuation {s : State} (h : s.mode = .plain ∨ s.mode = .double) {y : List Char}
    (halone : ¬ Alone s y) :
    finish ((continuation ++ y).foldl step s) = finish (y.foldl step s) := by
  rw [foldl_append, foldl_step_continuation h]
  split
  · rename_i hplain
    obtain ⟨mode, word, done⟩ := s
    obtain rfl : mode = .plain := hplain
    cases word with
    | some w => rfl
    | none =>
      -- the first character after it begins a word, so it does not matter that one was begun
      obtain ⟨c, hhead, hblank⟩ : ∃ c, y.head? = some c ∧ isBlank c ≠ true := by
        by_contra hnone
        refine halone ⟨rfl, rfl, fun c hc => ?_⟩
        by_contra hblank
        exact hnone ⟨c, hc, hblank⟩
      obtain ⟨rest, rfl⟩ := head?_eq_some_iff.mp hhead
      rw [foldl_cons, foldl_cons, step_enter (Bool.eq_false_iff.mpr hblank)]
      rfl
  · rfl

/-- Where no word is begun, all words so far are finished. -/
theorem finish_between {s : State} (hmode : s.mode = .plain) (hword : s.word = none)
    (text : List Char) : finish (text.foldl step s) = (split text).map (s.done.reverse ++ ·) := by
  have hs : s = State.after {} s.done := by
    obtain ⟨mode, word, done⟩ := s
    obtain rfl : mode = .plain := hmode
    obtain rfl : word = none := hword
    simp [State.after]
  rw [split, ← finish_after, ← foldl_step_after, ← hs]

/-- **A continuation that stands alone is an empty word.** -/
theorem finish_continuation_alone {s : State} {y : List Char} (halone : Alone s y) :
    finish ((continuation ++ y).foldl step s) =
      (split y).map ((s.done.reverse ++ [[]]) ++ ·) := by
  obtain ⟨mode, word, done⟩ := s
  obtain ⟨rfl, rfl, hblank⟩ := halone
  rw [foldl_append, foldl_step_continuation (.inl rfl)]
  cases y with
  | nil => simp [split, finish, State.enter, State.close, Except.map]
  | cons c y =>
    have hc : isBlank c = true := hblank c rfl
    have hend : step (State.enter ⟨.plain, none, done⟩) c = ⟨.plain, none, [] :: done⟩ := by
      simp [step, State.enter, State.close, hc]
    have hskip : split (c :: y) = split y := by simp [split, step, State.close, hc]
    rw [if_pos rfl, foldl_cons, hend, finish_between rfl rfl, hskip, reverse_cons]

theorem split_continued (x y : String) :
    split (x ++ "\\\n" ++ y).toList =
      finish ((continuation ++ y.toList).foldl step (stateAfter x)) := by
  rw [String.append_assoc, split_append, String.toList_append]
  rfl

/-- **A backslash at the end of a line.**  Outside of single quotes, and not after a backslash, it
is taken out together with the line feed: the line can be split with it if and only if it can be
split without it.  The words are the same unless it stands alone, with no word begun before it and
none going on after it; then there is one word more, an empty one, in its place. -/
theorem line_continuation (x y : String)
    (hmode : (stateAfter x).mode = .plain ∨ (stateAfter x).mode = .double) :
    ((∃ words, splitText (x ++ "\\\n" ++ y) = .ok words) ↔
      ∃ words, splitText (x ++ y) = .ok words) ∧
    (¬ Alone (stateAfter x) y.toList → ∀ words,
      splitText (x ++ "\\\n" ++ y) = .ok words ↔ splitText (x ++ y) = .ok words) ∧
    (Alone (stateAfter x) y.toList → ∃ before, splitText x = .ok before ∧ ∀ words,
      (splitText (x ++ y) = .ok words ↔
        ∃ after, splitText y = .ok after ∧ words = before ++ after) ∧
      (splitText (x ++ "\\\n" ++ y) = .ok words ↔
        ∃ after, splitText y = .ok after ∧ words = before ++ "" :: after)) := by
  have hplain := split_append x y
  have hjoined := split_continued x y
  by_cases halone : Alone (stateAfter x) y.toList
  · have hbetween := finish_between halone.1 halone.2.1
    rw [hbetween] at hplain
    rw [finish_continuation_alone halone] at hjoined
    have hbefore : splitText x = .ok ((stateAfter x).done.reverse.map String.ofList) := by
      rw [splitText_eq_ok_iff, split]
      change finish ([].foldl step (stateAfter x)) = _
      rw [hbetween]
      simp [split, finish, State.close, Except.map]
    have hwithout := splitText_eq_ok_iff_of_split hplain
    have hwith := splitText_eq_ok_iff_of_split hjoined
    rw [List.map_append] at hwith
    simp only [List.append_assoc] at hwith
    refine ⟨⟨?_, ?_⟩, fun h => absurd halone h, fun _ => ⟨_, hbefore, fun words => ?_⟩⟩
    · rintro ⟨words, hwords⟩
      obtain ⟨after, hafter, -⟩ := (hwith words).mp hwords
      exact ⟨_, (hwithout _).mpr ⟨after, hafter, rfl⟩⟩
    · rintro ⟨words, hwords⟩
      obtain ⟨after, hafter, -⟩ := (hwithout words).mp hwords
      exact ⟨_, (hwith _).mpr ⟨after, hafter, rfl⟩⟩
    · exact ⟨hwithout words, hwith words⟩
  · rw [finish_continuation hmode halone, ← hplain] at hjoined
    have hsame : ∀ words,
        splitText (x ++ "\\\n" ++ y) = .ok words ↔ splitText (x ++ y) = .ok words := by
      intro words
      rw [splitText_eq_ok_iff, splitText_eq_ok_iff, hjoined]
    exact ⟨exists_congr hsame, fun _ => hsame, fun h => absurd h halone⟩

/-- Inside double quotes a line is continued without a trace. -/
theorem quoted_line_continued :
    splitText ("a \"b" ++ "\\\n" ++ " c\" d") = .ok ["a", "b c", "d"] := by
  have hdouble : (stateAfter "a \"b").mode = .double := by decide +kernel
  refine ((line_continuation "a \"b" " c\" d" (.inr hdouble)).2.1 ?_ _).mpr (by decide +kernel)
  rintro ⟨hplain, -⟩
  rw [hdouble] at hplain
  cases hplain

/-- Between two blanks an empty word is left over. -/
theorem lone_continuation_is_word :
    (stateAfter "a ").mode = .plain ∧ splitText ("a " ++ " b") = .ok ["a", "b"] ∧
      splitText ("a " ++ "\\\n" ++ " b") = .ok ["a", "", "b"] := by
  decide +kernel

end Judge.Words
