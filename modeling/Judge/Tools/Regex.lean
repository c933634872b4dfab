import Judge.Tools.Characters

/-!
# Tools/Regex — regular expressions

Basic regular expressions: backslashes stand before parentheses, braces and bars that mean
something.  A match begins at the start of a text and is as long as possible.
-/

namespace Judge.Tools

open Shell (Text)

/-- A regular expression. -/
inductive Regex where
  | empty
  | any
  | oneOf (positive : Bool) (set : Text)
  | start
  | finish
  | then (a b : Regex)
  | or (a b : Regex)
  | repeated (r : Regex) (least : Nat) (most : Option Nat)
  | group (n : Nat) (r : Regex)
  | again (n : Nat)
deriving DecidableEq, Repr

namespace Regex

/-! ## Matching -/

/-- A place in a text: how much was matched, what follows, and what groups matched. -/
structure Spot where
  taken : Text
  rest : Text
  groups : List (Nat × Text) := []

def Spot.step (s : Spot) : Spot := { s with taken := s.rest.take 1 ++ s.taken, rest := s.rest.tail }

def spots : Nat → Regex → Spot → List Spot
  | 0, _, _ => []
  | fuel + 1, r, s =>
    match r with
    | .empty => [s]
    | .any => if s.rest.isEmpty then [] else [s.step]
    | .oneOf positive set =>
      match s.rest with
      | c :: _ => if set.contains c == positive then [s.step] else []
      | [] => []
    | .start => if s.taken.isEmpty then [s] else []
    | .finish => if s.rest.isEmpty then [s] else []
    | .then a b => (spots fuel a s).flatMap (spots fuel b)
    | .or a b => spots fuel a s ++ spots fuel b s
    | .repeated a least most =>
      let done := if least = 0 then [s] else []
      if most == some 0 then done
      else
        let next := (spots fuel a s).filter fun t => t.rest.length < s.rest.length || 0 < least
        next.flatMap (spots fuel (.repeated a (least - 1) (most.map (· - 1)))) ++ done
    | .group n a =>
      (spots fuel a s).map fun t =>
        let matched := (t.taken.take (t.taken.length - s.taken.length)).reverse
        { t with groups := (n, matched) :: t.groups.filter (·.1 != n) }
    | .again n =>
      match s.groups.lookup n with
      | some t =>
        if t.isPrefixOf s.rest then
          [{ s with taken := t.reverse ++ s.taken, rest := s.rest.drop t.length }]
        else []
      | none => []

def depth : Regex → Nat
  | .then a b | .or a b => max a.depth b.depth + 1
  | .repeated a least most => a.depth + least + most.getD 0 + 1
  | .group _ a => a.depth + 1
  | _ => 1

def longest (r : Regex) (t : Text) : Option Spot :=
  (spots ((r.depth + 1) * (t.length + 2)) r ⟨[], t, []⟩).foldl (fun best s => match best with
    | none => some s
    | some b => if b.taken.length < s.taken.length then some s else best) none

/-! ## Reading -/

/-- What may be wrong with an expression. -/
inductive Fault where
  | bracket
  | group
  | closing
  | brace
  | content
  | reference
  | backslash

def Fault.message : Fault → String
  | .bracket => "Invalid regular expression"
  | .group => "Unmatched ( or \\("
  | .closing => "Unmatched ) or \\)"
  | .brace => "Unmatched \\\x7b"
  | .content => "Invalid content of \\\x7b\\\x7d"
  | .reference => "Invalid back reference"
  | .backslash => "Trailing backslash"

/-- The members of a set between brackets; the closing bracket may be the first member. -/
def readBracket : Nat → Text → Bool → Text → Except Fault (Text × Text)
  | 0, _, _, _ => .error .bracket
  | fuel + 1, t, first, done =>
    match t with
    | [] => .error .bracket
    | ']' :: rest => if first then readBracket fuel rest false (']' :: done) else .ok (done, rest)
    | '[' :: ':' :: rest =>
      let name := rest.takeWhile (· != ':')
      match rest.drop name.length, charClasses.lookup (String.ofList name) with
      | ':' :: ']' :: after, some p => readBracket fuel after false (everyChar.filter p ++ done)
      | _, _ => .error .bracket
    | a :: '-' :: b :: rest =>
      if b == ']' then readBracket fuel ('-' :: b :: rest) false (a :: done)
      else readBracket fuel rest false ((SetPart.range a b).chars ++ done)
    | c :: rest => readBracket fuel rest false (c :: done)

def readBounds (t : Text) : Except Fault (Nat × Option Nat × Text) :=
  let low := t.takeWhile Char.isDigit
  let least := Scan.readDigits 10 low
  match t.drop low.length with
  | '\\' :: '\x7d' :: rest => if low.isEmpty then .error .content else .ok (least, some least, rest)
  | ',' :: more =>
    let high := more.takeWhile Char.isDigit
    match more.drop high.length with
    | '\\' :: '\x7d' :: rest =>
      if high.isEmpty then .ok (least, none, rest)
      else if Scan.readDigits 10 high < least then .error .content
      else .ok (least, some (Scan.readDigits 10 high), rest)
    | [] => .error .brace
    | _ => .error .content
  | [] => .error .brace
  | _ => .error .content

def backslashSets : List (Char × Bool × (Char → Bool)) :=
  let word (c : Char) : Bool := c.isAlphanum || c == '_'
  [('w', true, word), ('W', false, word), ('s', true, Scan.isSpace), ('S', false, Scan.isSpace)]

def readRepeats : Nat → Regex → Text → Except Fault (Regex × Text)
  | 0, r, t => .ok (r, t)
  | fuel + 1, r, t =>
    match t with
    | '*' :: rest => readRepeats fuel (.repeated r 0 none) rest
    | '\\' :: '+' :: rest => readRepeats fuel (.repeated r 1 none) rest
    | '\\' :: '?' :: rest => readRepeats fuel (.repeated r 0 (some 1)) rest
    | '\\' :: '\x7b' :: rest => do
      let (least, most, rest) ← readBounds rest
      readRepeats fuel (.repeated r least most) rest
    | _ => .ok (r, t)

mutual

/-- Reads branches; `n` groups were opened before, and `inside` tells whether one is open. -/
def readBranches : Nat → Bool → Nat → Text → Except Fault (Regex × Nat × Text)
  | 0, _, n, t => .ok (.empty, n, t)
  | fuel + 1, inside, n, t => do
    let (a, n, rest) ← readPieces fuel inside true n t .empty
    match rest with
    | '\\' :: '|' :: more => do
      let (b, n, rest) ← readBranches fuel inside n more
      return (.or a b, n, rest)
    | _ => return (a, n, rest)

def readPieces (fuel : Nat) (inside first : Bool) (n : Nat) (t : Text) (r : Regex) :
    Except Fault (Regex × Nat × Text) :=
  match fuel with
  | 0 => .ok (r, n, t)
  | fuel + 1 =>
    let piece (a : Regex) (n : Nat) (rest : Text) : Except Fault (Regex × Nat × Text) := do
      let (a, rest) ← readRepeats (rest.length + 1) a rest
      readPieces fuel inside false n rest (.then r a)
    let ends (rest : Text) : Bool :=
      rest.isEmpty || "\\)".toList.isPrefixOf rest || "\\|".toList.isPrefixOf rest
    match t with
    | [] => .ok (r, n, [])
    | '^' :: rest =>
      if first then readPieces fuel inside true n rest (.then r .start)
      else piece (.oneOf true ['^']) n rest
    | '$' :: rest => if ends rest then readPieces fuel inside false n rest (.then r .finish)
      else piece (.oneOf true ['$']) n rest
    | '.' :: rest => piece .any n rest
    | '[' :: '^' :: rest => do
      let (set, rest) ← readBracket (rest.length + 1) rest true []
      piece (.oneOf false set) n rest
    | '[' :: rest => do
      let (set, rest) ← readBracket (rest.length + 1) rest true []
      piece (.oneOf true set) n rest
    | ['\\'] => .error .backslash
    | '\\' :: '|' :: _ => .ok (r, n, t)
    | '\\' :: ')' :: _ => if inside then .ok (r, n, t) else .error .closing
    | '\\' :: '(' :: rest => do
      let (a, m, rest) ← readBranches fuel true (n + 1) rest
      match rest with
      | '\\' :: ')' :: rest => piece (.group (n + 1) a) m rest
      | _ => throw .group
    | '\\' :: c :: rest =>
      if c.isDigit && c != '0' then
        let k := c.toNat - '0'.toNat
        if n < k then .error .reference else piece (.again k) n rest
      else match backslashSets.lookup c with
        | some (positive, p) => piece (.oneOf positive (everyChar.filter p)) n rest
        | none => piece (.oneOf true [c]) n rest
    | c :: rest => if c == '*' && first then piece (.oneOf true ['*']) n rest
      else piece (.oneOf true [c]) n rest

end

/-- **Reads an expression**; the number is that of its groups. -/
def read (t : Text) : Except Fault (Regex × Nat) := do
  let (r, n, _) ← readBranches (4 * t.length + 4) false 0 t
  return (r, n)

end Regex

end Judge.Tools
