import Judge.Shell.Command

/-!
# Shell/Pattern — patterns of the shell

A star stands for any text, a question mark for any character, and brackets for one character of a
set.  A quoted character stands for itself.  A pattern is matched by following all the ways through
it at once, so that the time grows with the product of the two lengths only.
-/

namespace Judge.Shell

abbrev Mark := Char × Bool

def settleMarks : List Mark → List Mark
  | [] => []
  | ('\\', false) :: (c, _) :: rest => (c, true) :: settleMarks rest
  | m :: rest => m :: settleMarks rest

/-- A piece of a pattern. -/
inductive Piece where
  | char (c : Char)
  | one
  | many
  | set (negated : Bool) (ranges : List (Char × Char))
deriving DecidableEq, Repr

namespace Piece

def classes : List (String × List (Char × Char)) :=
  [("digit", [('0', '9')]), ("lower", [('a', 'z')]), ("upper", [('A', 'Z')]),
   ("alpha", [('a', 'z'), ('A', 'Z')]), ("alnum", [('a', 'z'), ('A', 'Z'), ('0', '9')]),
   ("space", [(' ', ' '), ('\t', '\r')]), ("blank", [(' ', ' '), ('\t', '\t')]),
   ("punct", [('!', '/'), (':', '@'), ('[', '\x60'), ('\x7b', '~')]),
   ("xdigit", [('0', '9'), ('a', 'f'), ('A', 'F')]),
   ("cntrl", [('\x00', '\x1f'), ('\x7f', '\x7f')]),
   ("print", [(' ', '~')]), ("graph", [('!', '~')])]

/-- The ranges of the named class that stands here, and what follows it. -/
def class? (marks : List Mark) : Option (List (Char × Char) × List Mark) :=
  match marks with
  | (':', false) :: rest =>
    let name := (rest.takeWhile fun m => m.1 != ':').map (·.1)
    match rest.drop name.length with
    | (':', false) :: (']', false) :: rest =>
      (classes.lookup (String.ofList name)).map fun ranges => (ranges, rest)
    | _ => none
  | _ => none

/-- The ranges in brackets up to the closing one, and what follows it. -/
def takeRanges : Nat → List Mark → List (Char × Char) → Bool →
    Option (List (Char × Char) × List Mark)
  | 0, _, _, _ => none
  | fuel + 1, marks, ranges, first =>
    match marks with
    | [] => none
    | (low, quoted) :: rest =>
      if low == ']' && !quoted && !first then some (ranges, rest)
      else match if low == '[' && !quoted then class? rest else none with
        | some (found, rest) => takeRanges fuel rest (found ++ ranges) false
        | none =>
          match rest with
          | ('-', false) :: (high, quoted) :: more =>
            if high == ']' && !quoted then takeRanges fuel rest ((low, low) :: ranges) false
            else takeRanges fuel more ((low, high) :: ranges) false
          | _ => takeRanges fuel rest ((low, low) :: ranges) false

def takeSet (marks : List Mark) : Option (Piece × List Mark) :=
  let (negated, marks) := match marks with
    | ('!', false) :: rest | ('^', false) :: rest => (true, rest)
    | _ => (false, marks)
  (takeRanges (marks.length + 1) marks [] true).map fun r => (.set negated r.1, r.2)

def compile : Nat → List Mark → List Piece
  | 0, _ | _ + 1, [] => []
  | fuel + 1, ('*', false) :: rest => .many :: compile fuel rest
  | fuel + 1, ('?', false) :: rest => .one :: compile fuel rest
  | fuel + 1, ('[', false) :: rest =>
    match takeSet rest with
    | some (piece, rest) => piece :: compile fuel rest
    | none => .char '[' :: compile fuel rest
  | fuel + 1, (c, _) :: rest => .char c :: compile fuel rest

def fits (c : Char) : Piece → Bool
  | .char d => c == d
  | .one | .many => true
  | .set negated ranges => (ranges.any fun r => r.1 ≤ c && c ≤ r.2) != negated

/-- Where a match can be when it has come to the pieces `ps`: stars may be passed over. -/
def reach : List Piece → List (List Piece)
  | .many :: ps => (.many :: ps) :: reach ps
  | ps => [ps]

def follow (c : Char) : List Piece → List (List Piece)
  | [] => []
  | .many :: ps => reach (.many :: ps)
  | p :: ps => if fits c p then reach ps else []

/-- The ways of a match without repetitions; the pieces that are left tell them apart. -/
def distinct (ways : List (List Piece)) : List (List Piece) :=
  ways.foldl (fun kept w => if kept.any (·.length == w.length) then kept else w :: kept) []

/-- The lengths of the beginnings of a text that are matched, where `n` characters have led to
`ways`. -/
def lengths : List (List Piece) → Nat → Text → List Nat
  | ways, n, t =>
    let rest := match t with
      | [] => []
      | c :: cs =>
        if ways.isEmpty then []
        else lengths (distinct (ways.flatMap (follow c))) (n + 1) cs
    if ways.any (·.isEmpty) then n :: rest else rest

def matchFrom : List (List Piece) → Text → Bool
  | ways, [] => ways.any (·.isEmpty)
  | ways, c :: cs => !ways.isEmpty && matchFrom (distinct (ways.flatMap (follow c))) cs

end Piece

variable (marks : List Mark)

def pattern : List Piece :=
  Piece.compile (marks.length + 1) (settleMarks marks)

/-- **Whether a pattern matches a text.** -/
def fitsPattern (t : Text) : Bool :=
  Piece.matchFrom (Piece.reach (pattern marks)) t

def chooseLength (longest : Bool) (lengths : List Nat) : Option Nat :=
  if longest then lengths.getLast? else lengths.head?

def cutFront (longest : Bool) (t : Text) : Text :=
  match chooseLength longest (Piece.lengths (Piece.reach (pattern marks)) 0 t) with
  | some n => t.drop n
  | none => t

def cutBack (longest : Bool) (t : Text) : Text :=
  match chooseLength longest (Piece.lengths (Piece.reach (pattern marks).reverse) 0 t.reverse) with
  | some n => t.take (t.length - n)
  | none => t

end Judge.Shell
