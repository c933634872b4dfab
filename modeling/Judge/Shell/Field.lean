import Judge.Shell.Pattern
import Judge.Machine.Act

/-!
# Shell/Field — from expanded words to arguments

An expanded word is a list of glyphs.  What came from one expansion outside of quotes is a region,
and regions are cut into fields at the separators.  Everything else stays together, and quotes make
a field even if there is nothing in them.
-/

namespace Judge.Shell

/-- A part of a word that is cut into fields. -/
structure Region where
  id : Nat
  arguments : Bool := false
deriving DecidableEq, Repr

/-- A piece of an expanded word.  The character zero stands between two arguments. -/
inductive Glyph where
  | char (c : Char) (quoted : Bool) (region : Option Region)
  | mark
deriving DecidableEq, Repr

namespace Glyph

def ofText (t : Text) (quoted : Bool) (region : Option Region) : List Glyph :=
  t.map fun c => .char c quoted region

def mark? : Glyph → Option Mark
  | .char c quoted _ => some (c, quoted)
  | .mark => none

def marks (gs : List Glyph) : List Mark := gs.filterMap mark?

def text (gs : List Glyph) : Text := (marks gs).map (·.1)

end Glyph

/-! ## Cutting -/

def isSoft (c : Char) : Bool := c == ' ' || c == '\t' || c == '\n' || c == '\x00'

/-- Fields under construction, backwards. -/
structure Cutting where
  fields : List (List Mark) := []
  current : List Glyph := []
  soft : Bool := false
  region : Option Region := none
  afterArguments : Bool := false
  /-- How many fields may be made; the last one takes the rest. -/
  limit : Option Nat := none
  trail : Option Nat := none

namespace Cutting

def finish (k : Cutting) : Cutting :=
  { k with fields := Glyph.marks k.current.reverse :: k.fields, current := [] }

def enter (k : Cutting) (r : Region) : Cutting :=
  if k.region == some r then k
  else { k with
    region := some r, soft := false, afterArguments := (k.region.map (·.arguments)).getD false }

def extend (k : Cutting) (g : Glyph) (separates soft : Bool) : Cutting :=
  let trail :=
    if soft then some (k.trail.getD k.current.length)
    else if separates && k.soft then k.trail
    else none
  { k with current := g :: k.current, trail, soft := soft && k.soft }

def cut (separators : Text) (k : Cutting) (g : Glyph) (c : Char) (r : Region) : Cutting :=
  let k := k.enter r
  let separates := c == '\x00' || (!r.arguments && separators.contains c)
  let soft := separates && isSoft c
  if k.limit == some 0 then k.extend g separates soft
  else if k.soft then
    if soft then { k with current := [] }
    else if separates then { k with current := [], soft := false }
    else { k with current := [g], soft := false }
  else if separates then
    let k := if k.afterArguments || r.arguments then k else { k with soft }
    if k.current.isEmpty && k.soft then { k with soft := false }
    else if k.limit == some 1 then
      { k with limit := some 0, current := g :: k.current, trail := some k.current.length }
    else { k.finish with limit := k.limit.map (· - 1) }
  else { k with current := g :: k.current, soft := false }

def step (separators : Text) (k : Cutting) (g : Glyph) : Cutting :=
  match g with
  | .char c _ (some r) => k.cut separators g c r
  | _ => { k with current := g :: k.current }

end Cutting

/-- **The fields of an expanded word**; with a limit the last one takes the rest. -/
def cutFields (separators : Text) (gs : List Glyph) (limit : Option Nat := none) :
    List (List Mark) :=
  let k := gs.foldl (Cutting.step separators) { limit := limit }
  let current := match k.trail with
    | some n => k.current.drop (k.current.length - n)
    | none => k.current
  let last := (k.region.map (·.arguments)).getD false
  let k := { k with current }
  let k := if current.isEmpty && !last then k else k.finish
  k.fields.reverse

/-! ## Names of files -/

/-- Whether a piece of a path is a pattern: it has a star, a question mark, or brackets that are
closed behind at least one character. -/
def isPattern : List Mark → Bool
  | [] => false
  | (c, quoted) :: rest =>
    if quoted then isPattern rest
    else if c == '*' || c == '?' then true
    else if c == '[' then
      let inside := match rest with
        | ('!', false) :: more | ('^', false) :: more => more
        | _ => rest
      (inside.drop 1).any (fun m => m == (']', false)) || isPattern rest
    else isPattern rest

def pathPieces (marks : List Mark) : List (List Mark) := splitWhere (fun m => m.1 == '/') marks

def pieceText (piece : List Mark) : Text := piece.map (·.1)

/-- The names in a directory that a pattern matches; a leading full stop is matched by itself only,
and then the directory and the one above are there too. -/
def namesIn (dir : Text) (piece : List Mark) : Program (List Text) := do
  let path : Path := ⟨if dir.isEmpty then [Path.dot] else toBytes dir⟩
  match ← Program.onFiles (.list path) with
  | .error _ => return []
  | .ok names =>
    let dotted := (piece.head?.map (·.1)) == some '.'
    let all := ['.'] :: ['.', '.'] :: names.map ofBytes
    return all.filter fun n => (dotted || n.head? != some '.') && fitsPattern piece n

def expandPieces : List (List Mark) → Text → Program (List Text)
  | [], _ => return []
  | piece :: rest, dir =>
    if isPattern piece then do
      let names ← namesIn dir piece
      if rest.isEmpty then return names.map (dir ++ ·)
      else
        let found ← names.mapM fun n => expandPieces rest (dir ++ n ++ ['/'])
        return found.flatten
    else if rest.isEmpty then do
      let p := dir ++ pieceText piece
      match ← Program.onFiles (.linkKind ⟨toBytes p⟩) with
      | .ok _ => return [p]
      | .error _ => return []
    else expandPieces rest (dir ++ pieceText piece ++ ['/'])

/-- The paths that a field stands for, in order; a pattern that matches nothing stands for
itself. -/
def expandNames (marks : List Mark) : Program (List Text) := do
  let pieces := pathPieces (settleMarks marks)
  if pieces.any isPattern then
    let found ← expandPieces pieces []
    if found.isEmpty then return [marks.map (·.1)]
    else return (found.mergeSort fun a b => Bytes.le (toBytes a) (toBytes b))
  else return [marks.map (·.1)]

end Judge.Shell
