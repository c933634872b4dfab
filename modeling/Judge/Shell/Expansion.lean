import Judge.Shell.Field
import Judge.Shell.State

/-!
# Shell/Expansion — from words to texts and arguments

The parts of a word are filled in one after the other: homes, parameters, what commands print and
what expressions come to.  What commands print is asked for, so that nothing here carries out a
command.
-/

namespace Judge.Shell

/-- How a word is expanded. -/
structure Manner where
  full : Bool := false
  colons : Bool := false
  within : Bool := false
deriving DecidableEq, Repr

/-! ## Values -/

def newRegion (arguments : Bool := false) : Sh Region := do
  let s ← get
  set { s with regions := s.regions + 1 }
  return { id := s.regions, arguments }

def valueGlyphs (t : Text) (quoted : Bool) : Sh (List Glyph) := do
  if quoted then return Glyph.ofText t true none
  else return Glyph.ofText t false (some (← newRegion))

def State.joiner (s : State) : Text :=
  match s.value? separatorsName with
  | some separators => separators.take 1
  | none => [' ']

def argumentEnd : Char := '\x00'

def isArguments (name : Text) : Bool := name == ['@'] || name == ['*']

def argumentGlyphs (m : Manner) (name : Text) (quoted : Bool) : Sh (List Glyph) := do
  let s ← get
  if !m.full || (quoted && name == ['*']) then valueGlyphs (s.joiner.intercalate s.args) quoted
  else if quoted then
    -- a single argument without characters is an argument all the same
    if s.args == [[]] then return [.mark]
    else
      let r ← newRegion true
      return Glyph.ofText ([argumentEnd].intercalate s.args) true (some r)
  else
    let between := if (s.value? separatorsName).isSome then argumentEnd else ' '
    valueGlyphs ([between].intercalate s.args) false

def State.joined? (s : State) (name : Text) : Option Text :=
  if isArguments name then some (s.joiner.intercalate s.args) else s.parameter? name

def parameterGlyphs (m : Manner) (name value : Text) (quoted : Bool) : Sh (List Glyph) :=
  if isArguments name then argumentGlyphs m name quoted else valueGlyphs value quoted

def failUnset {α : Type} (name : Text) : Sh α :=
  fail (String.ofList name ++ ": parameter not set")

def demandSet (name : Text) : Sh Unit := do
  if ← has .nounset then failUnset name

/-! ## Homes -/

def State.home? (s : State) (name : Text) : Option Text :=
  if name.isEmpty then s.value? "HOME".toList
  else if name == "root".toList then some "/root".toList
  else none

/-- The home that a text starts with, and the rest; the text has to go on if a part follows. -/
def homeAt? (s : State) (colons last : Bool) (t : Text) : Option (Text × Text) :=
  match t with
  | '~' :: t =>
    let name := t.takeWhile fun c => c != '/' && !(colons && c == ':')
    let rest := t.drop name.length
    if rest.isEmpty && !last then none
    else (s.home? name).map fun home => (home, rest)
  | _ => none

def homePieces (s : State) (colons last : Bool) : Nat → Bool → Text → List (Text × Bool)
  | 0, _, t => [(t, false)]
  | fuel + 1, start, t =>
    match if start then homeAt? s colons last t else none with
    | some (home, rest) => (home, true) :: homePieces s colons last fuel false rest
    | none =>
      if t.isEmpty then []
      else if colons && t.contains ':' then
        let front := t.takeWhile (· != ':') ++ [':']
        (front, false) :: homePieces s colons last fuel true (t.drop front.length)
      else [(t, false)]

def literalGlyphs (m : Manner) (start last : Bool) (t : Text) (quoted : Bool) :
    Sh (List Glyph) := do
  let s ← get
  let pieces := if quoted then [(t, true)] else homePieces s m.colons last (t.length + 1) start t
  let glyphs ← pieces.mapM fun p => do
    if m.within && !p.2 then return Glyph.ofText p.1 false (some (← newRegion))
    else return Glyph.ofText p.1 p.2 none
  return glyphs.flatten

/-! ## Expressions -/

/-- The value of an expression; the variables that it sets are set. -/
def calculate (t : Text) : Sh Int := do
  let s ← get
  let vars : Arithmetic.Variables :=
    { value := fun name => (s.value? name).getD []
      settable := fun name => !((s.vars.lookup name).map (·.readOnly)).getD false }
  match Arithmetic.evaluate vars t with
  | .ok (n, updates) => do
    updates.reverse.forM fun u => setVariable u.1 (some (toString u.2).toList)
    return n
  | .error (.wrong reason) =>
    fail ("arithmetic expression: " ++ reason ++ ": \"" ++ String.ofList t ++ "\"")
  | .error (.illegalNumber n) => fail ("Illegal number: " ++ String.ofList n)
  | .error (.refused name) => fail (String.ofList name ++ ": is read only")

/-! ## Words -/

/-- Where the reading of a word is with regard to quotation marks. -/
inductive Within where
  | outside
  | inside
  /-- Between marks with nothing but all arguments in them: they make no field by themselves. -/
  | around
deriving DecidableEq, Repr

def isBare : List Part → Bool
  | .parameter name .value _ true :: .mark :: _ => name == ['@']
  | _ => false

def Within.atMark (w : Within) (rest : List Part) : Within × Bool :=
  match w with
  | .outside => if isBare rest then (.around, false) else (.inside, true)
  | .inside => (.outside, true)
  | .around => (.outside, false)

mutual

/-- Expands a part of a word, which may start with a home; `last` tells that no part follows. -/
def expandPart (capture : List Command → Sh Text) (m : Manner) (start last : Bool) (p : Part) :
    Sh (List Glyph) :=
  match p with
  | .mark => return [.mark]
  | .literal t quoted => literalGlyphs m start last t quoted
  | .output body quoted => do valueGlyphs (← capture body) quoted
  | .arithmetic body quoted => do
    let gs ← expandParts capture {} .outside false body
    let n ← calculate (Glyph.text gs)
    valueGlyphs (toString n).toList quoted
  | .parameter name use word quoted => do
    let value := (← get).joined? name
    let known := value.getD []
    let there (orEmpty : Bool) : Bool := value.isSome && !(orEmpty && known.isEmpty)
    let inner : Manner := { m with within := !quoted }
    let cut (how : List Mark → Text → Text) : Sh (List Glyph) := do
      if value.isNone then
        demandSet name
        return []
      else
        let gs ← expandParts capture {} .outside true word
        valueGlyphs (how (Glyph.marks gs) known) quoted
    match use with
    | .wrong => fail "Bad substitution"
    | .value => do
      if value.isNone then
        demandSet name
        return []
      else parameterGlyphs m name known quoted
    | .length => do
      if value.isNone then demandSet name
      valueGlyphs (toString known.length).toList quoted
    | .default orEmpty =>
      if there orEmpty then parameterGlyphs m name known quoted
      else expandParts capture inner .outside true word
    | .replace orEmpty =>
      if there orEmpty then expandParts capture inner .outside true word else return []
    | .assign orEmpty =>
      if there orEmpty then parameterGlyphs m name known quoted
      else do
        let gs ← expandParts capture {} .outside true word
        assignVariable name (Glyph.text gs)
        valueGlyphs (Glyph.text gs) quoted
    | .demand orEmpty =>
      if there orEmpty then parameterGlyphs m name known quoted
      else do
        let gs ← expandParts capture {} .outside true word
        if word.isEmpty then
          fail (String.ofList name ++ ": parameter not set" ++ if orEmpty then " or null" else "")
        else fail (String.ofList name ++ ": " ++ String.ofList (Glyph.text gs))
    | .cutFront longest => cut fun p => cutFront p longest
    | .cutBack longest => cut fun p => cutBack p longest

def expandParts (capture : List Command → Sh Text) (m : Manner) (w : Within) (start : Bool)
    (ps : List Part) : Sh (List Glyph) :=
  match ps with
  | [] => return []
  | p :: rest => do
    let (w, kept) := match p with
      | .mark => w.atMark rest
      | _ => (w, true)
    let first ← expandPart capture m start rest.isEmpty p
    let others ← expandParts capture m w false rest
    return if kept then first ++ others else others

end

variable (capture : List Command → Sh Text)

def expandWord (m : Manner) (w : Word) : Sh (List Glyph) := expandParts capture m .outside true w

/-- **The text of a word** that is not cut into fields. -/
def expandText (w : Word) (colons : Bool := false) : Sh Text := do
  return Glyph.text (← expandWord capture { colons := colons } w)

def expandPlain (w : Word) : Sh Text := do
  return Glyph.text (← expandParts capture {} .outside false w)

def expandPattern (w : Word) : Sh (List Mark) := do
  return Glyph.marks (← expandWord capture {} w)

/-- **The arguments that a word stands for.** -/
def expandFields (w : Word) : Sh (List Text) := do
  let gs ← expandWord capture { full := true } w
  let s ← get
  let fields := cutFields s.separators gs
  if s.settings.contains .noglob then return fields.map fun f => f.map (·.1)
  else
    let found ← fields.mapM fun f => ofProgram (expandNames f)
    return found.flatten

def expandAssignment (w : Word) : Sh (List Text) := do
  match w.assignment? with
  | some (name, value) => return [name ++ '=' :: (← expandText capture value true)]
  | none => expandFields capture w

end Judge.Shell
