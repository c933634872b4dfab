import Judge.Text.Quoted

/-!
# Command/Words — command lines as words

Splitting reads a command line the way a shell does: blanks separate words, quotes group, a
backslash takes the next character as it is.  Quoting writes a word so that splitting gives it back.
The splitter is a machine that takes one character at a time (`Words.step`); only its last state
decides whether the line was complete.
-/

namespace Judge.Words

/-- Where the splitter stands. -/
inductive Mode where
  | plain
  | single
  | double
  | doubleEscape
  | escape
deriving DecidableEq, Repr

/-- The state of the splitter: the words before, last one first, and the word it is in, last
character first. -/
structure State where
  mode : Mode := .plain
  word : Option (List Char) := none
  done : List (List Char) := []
deriving DecidableEq, Repr

namespace State

/-- Adds a character to the word. -/
def push (s : State) (c : Char) : State := { s with word := some (c :: s.word.getD []) }

/-- Begins a word, if there is none. -/
def enter (s : State) : State := { s with word := some (s.word.getD []) }

/-- Ends the word, if there is one. -/
def close (s : State) : State :=
  match s.word with
  | none => s
  | some w => { s with word := none, done := w.reverse :: s.done }

end State

/-- **What one character does.** -/
def step (s : State) (c : Char) : State :=
  match s.mode with
  | .plain =>
    if isBlank c then s.close
    else if c = '\'' then { s.enter with mode := .single }
    else if c = '"' then { s.enter with mode := .double }
    else if c = '\\' then { s.enter with mode := .escape }
    else s.push c
  | .single => if c = '\'' then { s with mode := .plain } else s.push c
  | .double =>
    if c = '"' then { s with mode := .plain }
    else if c = '\\' then { s with mode := .doubleEscape }
    else s.push c
  | .doubleEscape =>
    if c = '\\' ∨ c = '"' ∨ c = '$' ∨ c = '\x60' then { s.push c with mode := .double }
    else if c = '\n' then { s with mode := .double }
    else { (s.push '\\').push c with mode := .double }
  | .escape =>
    if c = '\n' then { s with mode := .plain } else { s.push c with mode := .plain }

/-- Why a command line cannot be split. -/
inductive Error where
  | noClosingQuotation
  | noEscapedCharacter
deriving DecidableEq, Repr

/-- What is told about a text that cannot be split. -/
def Error.message (e : Error) (text : List Char) : String :=
  match e with
  | .noClosingQuotation => "No closing quotation in " ++ String.ofList (quoteChars text)
  | .noEscapedCharacter => "No escaped character in " ++ String.ofList (quoteChars text)

/-- The words read when the line ends in the state `s`. -/
def finish (s : State) : Except Error (List (List Char)) :=
  match s.mode with
  | .plain => .ok s.close.done.reverse
  | .escape => .error .noEscapedCharacter
  | _ => .error .noClosingQuotation

/-- **The words of a command line.** -/
def split (text : List Char) : Except Error (List (List Char)) := finish (text.foldl step {})

/-- Whether a character may stand without quotes. -/
def isSafe (c : Char) : Bool := c.isAlphanum || "@%+=:,./-_".toList.contains c

/-- A word between single quotes; a single quote inside stands between double quotes. -/
def quoteInner (word : List Char) : List Char :=
  word.flatMap fun c => if c = '\'' then ['\'', '"', '\'', '"', '\''] else [c]

/-- **A word as it is written** so that it is read back. -/
def quote (word : List Char) : List Char :=
  if word.isEmpty then ['\'', '\'']
  else if word.all isSafe then word
  else ['\''] ++ quoteInner word ++ ['\'']

/-- **The command line of words.** -/
def join (words : List (List Char)) : List Char := [' '].intercalate (words.map quote)

/-- The words of a command line, as strings. -/
def splitText (text : String) : Except String (List String) :=
  match split text.toList with
  | .ok words => .ok (words.map String.ofList)
  | .error e => .error (e.message text.toList)

/-- A word as it is written. -/
def quoteText (word : String) : String := String.ofList (quote word.toList)

/-- Words as they are written, with blanks between them. -/
def joinText (words : List String) : String := String.ofList (join (words.map String.toList))

end Judge.Words
