import Judge.Tools.Basic

/-!
# Tools/Option — the options of tools

An option is a letter behind a hyphen or a word behind two, and may have a value.  Letters may stand
together, words may be shortened, and other arguments may stand in between.
-/

namespace Judge.Tools

open Shell (Text)

/-- Whether an option has a value. -/
inductive Value where
  | without
  | with
  | perhaps
deriving DecidableEq, Repr

/-- An option: its letter and its word, of which one may be missing. -/
structure Flag where
  letter : Option Char
  word : String
  value : Value
deriving DecidableEq, Repr

namespace Flag

def name (f : Flag) : String :=
  if f.word.isEmpty then String.ofList f.letter.toList else f.word

/-- Reads an option in short notation: the letter, a comma, the word, and `=` if it has a value or
`?` if it may have one. -/
def ofNotation (t : Text) : Flag :=
  let (t, value) := match t.reverse with
    | '=' :: rest => (rest.reverse, Value.with)
    | '?' :: rest => (rest.reverse, Value.perhaps)
    | _ => (t, Value.without)
  match t with
  | ',' :: word => ⟨none, String.ofList word, value⟩
  | c :: ',' :: word => ⟨some c, String.ofList word, value⟩
  | c :: _ => ⟨some c, "", value⟩
  | [] => ⟨none, "", value⟩

end Flag

def flags (text : String) : List Flag := (runsWhere (· == ' ') text.toList).map Flag.ofNotation

/-- The options that were given, in order, with their values, and the other arguments. -/
structure Choices where
  given : List (String × Text) := []
  rest : List Text := []

namespace Choices

def has (c : Choices) (name : String) : Bool := c.given.any (·.1 == name)

def last? (c : Choices) (name : String) : Option Text :=
  ((c.given.filter (·.1 == name)).getLast?).map (·.2)

/-- The value of an option, nothing if it has none. -/
def value (c : Choices) (name : String) : Text := (c.last? name).getD []

/-- The value of an option as a word. -/
def word (c : Choices) (name : String) : String := String.ofList (c.value name)

/-- What ends a line: a zero if the option was given. -/
def ending (c : Choices) (zero : String) : Char := if c.has zero then '\x00' else '\n'

def all (c : Choices) (name : String) : List Text :=
  (c.given.filter (·.1 == name)).map (·.2)

def lastOf (c : Choices) (names : List String) : Option String :=
  ((c.given.filter fun e => names.contains e.1).getLast?).map (·.1)

end Choices

abbrev Given := List (String × Text)

def readLetters (fs : List Flag) : Text → List Text → Given → Except String (List Text × Given)
  | [], rest, given => .ok (rest, given)
  | c :: more, rest, given =>
    match fs.find? (·.letter == some c) with
    | none => .error ("invalid option -- '" ++ str [c] ++ "'")
    | some f =>
      match f.value, more, rest with
      | .without, _, _ => readLetters fs more rest ((f.name, []) :: given)
      | .perhaps, _, _ => .ok (rest, (f.name, more) :: given)
      | .with, [], [] => .error ("option requires an argument -- '" ++ str [c] ++ "'")
      | .with, [], value :: rest | .with, value, rest => .ok (rest, (f.name, value) :: given)

variable (fs : List Flag)

def findWord (word : Text) : Except String Flag :=
  match fs.find? fun f => f.word.toList == word && !word.isEmpty with
  | some f => .ok f
  | none =>
    match fs.filter fun f => !f.word.isEmpty && word.isPrefixOf f.word.toList with
    | [f] => .ok f
    | [] => .error ("unrecognized option '--" ++ str word ++ "'")
    | several => .error ("option '--" ++ str word ++ "' is ambiguous; possibilities:" ++
        String.join (several.map fun f => " '--" ++ f.word ++ "'"))

def readOptionWord (t : Text) (rest : List Text) (given : Given) :
    Except String (List Text × Given) := do
  let word := t.takeWhile (· != '=')
  let f ← match findWord fs word with
    | .ok f => pure f
    | .error e => throw e
  match t.drop word.length, f.value with
  | _ :: _, .without => throw ("option '--" ++ f.word ++ "' doesn't allow an argument")
  | _ :: value, _ => return (rest, (f.name, value) :: given)
  | [], .with =>
    match rest with
    | value :: rest => return (rest, (f.name, value) :: given)
    | [] => throw ("option '--" ++ f.word ++ "' requires an argument")
  | [], _ => return (rest, (f.name, []) :: given)

/-- Reads arguments; `others` are the ones that are no options, backwards. -/
def readArguments (fs : List Flag) (inOrder : Bool) :
    Nat → List Text → Given → List Text → Except String Choices
  | 0, args, given, others => .ok ⟨given.reverse, others.reverse ++ args⟩
  | fuel + 1, args, given, others =>
    match args with
    | [] => .ok ⟨given.reverse, others.reverse⟩
    | ['-', '-'] :: rest => .ok ⟨given.reverse, others.reverse ++ rest⟩
    | ('-' :: '-' :: word) :: rest => do
      let (rest, given) ← readOptionWord fs word rest given
      readArguments fs inOrder fuel rest given others
    | ('-' :: c :: letters) :: rest => do
      let (rest, given) ← readLetters fs (c :: letters) rest given
      readArguments fs inOrder fuel rest given others
    | t :: rest =>
      if inOrder then .ok ⟨given.reverse, others.reverse ++ t :: rest⟩
      else readArguments fs inOrder fuel rest given (t :: others)

/-- **The options among the arguments of a tool.**  With `inOrder` the first other argument ends
them. -/
def choices (inOrder : Bool) (args : List Text) : Except String Choices :=
  readArguments fs inOrder (args.length + 1) args [] []

/-- A tool with options; wrong ones end it with the exit code `wrong`. -/
def withOptions (text : String) (body : Request → Choices → Program Nat) (inOrder : Bool := false)
    (wrong : Nat := 1) : Tool := fun r =>
  match choices (flags text) inOrder r.args with
  | .ok c => body r c
  | .error e => r.misused e wrong

end Judge.Tools
