import Judge.Text.Cut

/-!
# Path/Basic — paths of files

A path is its bytes as written.  What it means is the list of its components: repeated and trailing
separators and inner `.` pieces do not count.  Operations that cut a path keep the text of what is
left as it was written.
-/

namespace Judge

/-- A path as it was written. -/
structure Path where
  text : Bytes
deriving DecidableEq, Repr, Inhabited

namespace Path

def slash : UInt8 := 0x2F

def dot : UInt8 := 0x2E

def ofString (s : String) : Path := ⟨utf8 s⟩

variable (p : Path)

/-- The text of a path, with broken bytes replaced. -/
def display : String := Utf8.text p.text

def isAbsolute : Bool := p.text.head? == some slash

/-! ## Components -/

/-- A component of a path. -/
inductive Component where
  | root
  | here
  | up
  | name (bytes : Bytes)
deriving DecidableEq, Repr

def Component.text : Component → Bytes
  | .root => [slash]
  | .here => [dot]
  | .up => [dot, dot]
  | .name bytes => bytes

/-- A piece between separators that does not count. -/
def isTrivial (piece : Bytes) : Bool := piece == [] || piece == [dot]

/-- The pieces between the separators, after the root if there is one. -/
def pieces : List Bytes :=
  splitWhere (· == slash) (if p.isAbsolute then p.text.tail else p.text)

/-- The pieces that are not empty, which are the steps from one directory to the next. -/
def steps : List Bytes := p.pieces.filter fun piece => !piece.isEmpty

def endsInSlash : Bool := p.text.getLast? == some slash

/-- The component that a piece writes, if it counts. -/
def component? (piece : Bytes) : Option Component :=
  if isTrivial piece then none
  else if piece = [dot, dot] then some .up
  else some (.name piece)

def startsHere : Bool := !p.isAbsolute && p.pieces.head? == some [dot]

def anchor : List Component :=
  if p.isAbsolute then [.root] else if p.startsHere then [.here] else []

/-- **The components of a path.** -/
def components : List Component := p.anchor ++ p.pieces.filterMap component?

def joinPieces (pieces : List Bytes) : Bytes := [slash].intercalate pieces

/-- Pieces without the ones at the end that do not count. -/
def trimPieces (pieces : List Bytes) : List Bytes := trimRightWhere isTrivial pieces

/-- The path without the separators and `.` pieces at its end. -/
def trimmed : Path :=
  if p.isAbsolute then ⟨slash :: joinPieces (trimPieces p.pieces)⟩
  else if p.startsHere then
    ⟨joinPieces ([dot] :: trimPieces p.pieces.tail)⟩
  else ⟨joinPieces (trimPieces p.pieces)⟩

/-! ## Putting together and taking apart -/

/-- `p` with `q` below it; an absolute `q` stands for itself. -/
def join (p q : Path) : Path :=
  if q.isAbsolute then q
  else if p.text.isEmpty || p.text.getLast? == some slash then ⟨p.text ++ q.text⟩
  else ⟨p.text ++ slash :: q.text⟩

def child (s : String) : Path := p.join (ofString s)

def fileName? : Option Bytes :=
  match p.components.getLast? with
  | some (.name n) => some n
  | _ => none

/-- The pieces up to the last one that counts, without it. -/
def dropLastPiece (pieces : List Bytes) : List Bytes := trimPieces (trimPieces pieces).dropLast

/-- The path one component up; the root and the empty path have none. -/
def parent? : Option Path :=
  match p.components.getLast? with
  | none => none
  | some .root => none
  | some .here => some ⟨[]⟩
  | some _ =>
    if p.isAbsolute then some ⟨slash :: joinPieces (dropLastPiece p.pieces)⟩
    else if p.startsHere then some ⟨joinPieces ([dot] :: dropLastPiece p.pieces.tail)⟩
    else some ⟨joinPieces (dropLastPiece p.pieces)⟩

/-- Drops pieces up to and including the `n`-th that counts. -/
def dropCounted : Nat → List Bytes → List Bytes
  | 0, pieces => pieces
  | _ + 1, [] => []
  | n + 1, piece :: more => dropCounted (if isTrivial piece then n + 1 else n) more

/-- What is left of `p` after its first `n ≥ 1` components, as written. -/
def afterComponents (n : Nat) : Path :=
  let counted := n - p.anchor.length
  let pieces := if p.startsHere then p.pieces.tail else p.pieces
  ⟨joinPieces (trimPieces ((dropCounted counted pieces).dropWhile isTrivial))⟩

/-- What is left of `p` below `base`, if `p` lies below it. -/
def below? (base p : Path) : Option Path :=
  let bs := base.components
  if bs.isPrefixOf p.components then
    some (if bs.isEmpty then p.trimmed else p.afterComponents bs.length)
  else none

/-! ## Names and extensions -/

/-- A file name cut at its last full stop.  A name that starts with its only full stop, and `..`,
have no extension. -/
def cutName (name : Bytes) : Bytes × Option Bytes :=
  if name = [dot, dot] then (name, none)
  else
    let after := (name.reverse.takeWhile (· != dot)).reverse
    let before := name.take (name.length - after.length - 1)
    if after.length = name.length || before.isEmpty then (name, none) else (before, some after)

def stem? : Option Bytes := p.fileName?.map fun n => (cutName n).1

def extension? : Option Bytes := p.fileName?.bind fun n => (cutName n).2

/-- The path with `extension` after the stem of its file name, if it has one. -/
def setExtension (extension : Bytes) : Path :=
  match p.fileName? with
  | none => p
  | some n =>
    let whole := p.trimmed.text
    ⟨whole.take (whole.length - n.length) ++ (cutName n).1 ++ dot :: extension⟩

/-- The path with another extension.  The old one is cut off the end of the text first, so a name
whose stem is a full stop becomes `..` and stays so. -/
def withExtension (extension : Bytes) : Path :=
  let cut := (p.extension?.map List.length).getD 0
  setExtension ⟨p.text.take (p.text.length - cut)⟩ extension

/-! ## Absolute paths without dots -/

/-- One component after the names above it: `..` takes the last name away, the root all of them. -/
def climb (names : List Bytes) : Component → List Bytes
  | .root => []
  | .here => names
  | .up => names.dropLast
  | .name n => names ++ [n]

def resolveFrom (start : List Bytes) (cs : List Component) : List Bytes := cs.foldl climb start

def ofNames (names : List Bytes) : Path := ⟨slash :: joinPieces names⟩

/-- The names of a path, with `.` and `..` resolved without looking at files. -/
def names : List Bytes := resolveFrom [] p.components

def normalize : Path := ofNames p.names

/-- **The absolute path** of `p` seen from the directory `cwd`, without `.` and `..`. -/
def absolute (cwd p : Path) : Path := normalize (cwd.join p)

end Path

end Judge
