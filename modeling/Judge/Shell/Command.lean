import Judge.Text.Utf8

/-!
# Shell/Command — what a shell script says

The commands of the shell: simple commands with assignments and redirections, pipelines, lists, and
the compound commands.  The shell works on bytes; its texts hold one character for each byte.
-/

namespace Judge.Shell

abbrev Text := List Char

def ofBytes (bs : Bytes) : Text := bs.map fun b => Char.ofNat b.toNat

def toBytes (t : Text) : Bytes := t.map fun c => UInt8.ofNat c.toNat

/-! ## Names -/

def isNameStart (c : Char) : Bool := c.isAlpha || c == '_'

def isNameChar (c : Char) : Bool := c.isAlphanum || c == '_'

def takeName : Text → Text
  | [] => []
  | c :: cs => if isNameStart c then c :: cs.takeWhile isNameChar else []

def isName (t : Text) : Bool := !t.isEmpty && takeName t == t

/-! ## Words and commands -/

/-- What is done with the value of a parameter.  With `orEmpty` an empty value counts as none. -/
inductive ParameterUse where
  | value
  | length
  | default (orEmpty : Bool)
  | assign (orEmpty : Bool)
  | demand (orEmpty : Bool)
  | replace (orEmpty : Bool)
  | cutFront (longest : Bool)
  | cutBack (longest : Bool)
  | wrong
deriving DecidableEq, Repr

/-- How a redirection opens a file. -/
inductive RedirectMode where
  | input
  | output
  /-- For output, whatever the shell is told about files that are there. -/
  | clobber
  | append
  | both
deriving DecidableEq, Repr

mutual

/-- A part of a word. -/
inductive Part where
  | literal (text : Text) (quoted : Bool)
  | mark
  | parameter (name : Text) (use : ParameterUse) (word : List Part) (quoted : Bool)
  | output (body : List Command) (quoted : Bool)
  | arithmetic (body : List Part) (quoted : Bool)

/-- A change of an open file. -/
inductive Redirection where
  | file (fd : Nat) (mode : RedirectMode) (target : List Part)
  | copy (fd : Nat) (source : List Part)
  | text (fd : Nat) (body : List Part)

/-- A command, with the line that it is on where messages tell it. -/
inductive Command where
  | simple (line : Nat) (assignments : List (Text × List Part)) (words : List (List Part))
      (redirections : List Redirection)
  | pipeline (background : Bool) (stages : List Command)
  | negated (c : Command)
  | both (a b : Command)
  | either (a b : Command)
  | background (line : Nat) (c : Command) (redirections : List Redirection)
  | subshell (line : Nat) (body : List Command) (redirections : List Redirection)
  | group (body : List Command)
  /-- The first branch whose condition holds, or else the last part. -/
  | choice (branches : List (List Command × List Command)) (otherwise : List Command)
  | loop (negate : Bool) (condition body : List Command)
  | each (line : Nat) (name : Text) (words : List (List Part)) (body : List Command)
  | select (line : Nat) (word : List Part) (clauses : List (List (List Part) × List Command))
  | define (line : Nat) (name : Text) (body : Command)
  | redirected (line : Nat) (c : Command) (redirections : List Redirection)

end

abbrev Word := List Part

def Redirection.fd : Redirection → Nat
  | .file fd _ _ | .copy fd _ | .text fd _ => fd

def Word.plain (w : Word) : Text := w.flatMap fun p => match p with
  | .literal t _ => t
  | _ => []

def Word.assignment? : Word → Option (Text × Word)
  | .literal t false :: rest =>
    let name := takeName t
    match t.drop name.length with
    | '=' :: value =>
      if name.isEmpty then none
      else some (name, if value.isEmpty then rest else .literal value false :: rest)
    | _ => none
  | _ => none

end Judge.Shell
