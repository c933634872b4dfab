import Judge.Assoc
import Judge.OsError
import Judge.Path.Basic

/-!
# Files/Tree — a tree of files with symbolic links

A tree is a finite map from places to entries, where a place is the list of names that leads there
from the root.  `FileTree.locate` follows a path through the tree up to its last step: links are
followed, `..` goes to the directory above the one really reached, and no more than forty links are
taken.  What the last step leads to is for the operation to say, and so is what a separator after it
means.
-/

namespace Judge

/-- A place in a tree: the names from the root. -/
abbrev Place := List Bytes

/-- A device. -/
inductive Device where
  /-- It holds nothing and takes everything. -/
  | null
  /-- It holds zeros without end and takes everything. -/
  | zero
  /-- It holds zeros without end and takes nothing. -/
  | full
deriving DecidableEq, Repr

/-- What stands at a place. -/
inductive Entry where
  | file (content : Bytes) (mode : Nat)
  | link (target : Path)
  | dir
  | device (d : Device)
  | socket
  | fifo (pipe : Nat)
deriving DecidableEq, Repr

/-- Whether permissions let somebody execute a file. -/
def isExecutable (mode : Nat) : Bool := mode &&& 0o111 != 0

def programMode : Nat := 0o755

def plainMode : Nat := 0o644

def Entry.isDir : Entry → Bool
  | .dir => true
  | _ => false

/-- A tree of files.  The root is a directory whatever the list says. -/
structure FileTree where
  entries : List (Place × Entry) := []
deriving DecidableEq, Repr, Inhabited

namespace FileTree

variable (t : FileTree)

def get? (place : Place) : Option Entry :=
  if place.isEmpty then some .dir else t.entries.lookup place

def put (place : Place) (e : Entry) : FileTree :=
  ⟨Assoc.put t.entries place e⟩

/-- The tree without `place` and everything below it. -/
def erase (place : Place) : FileTree :=
  ⟨t.entries.filter fun e => !place.isPrefixOf e.1⟩

/-- The name of the entry at `p` when it stands directly in the directory at `place`. -/
def childName? (place p : Place) : Option Bytes :=
  if p.length == place.length + 1 && place.isPrefixOf p then p.getLast? else none

/-- The names in the directory at `place`, the newest first. -/
def children (place : Place) : List Bytes :=
  (t.entries.filterMap fun e => childName? place e.1).reverse

/-- Everything below `place`, with places counted from there. -/
def below (place : Place) : List (Place × Entry) :=
  t.entries.filterMap fun e =>
    if place.length < e.1.length && place.isPrefixOf e.1 then some (e.1.drop place.length, e.2)
    else none

def graft (place : Place) (more : List (Place × Entry)) : FileTree :=
  more.foldl (fun t e => t.put (place ++ e.1) e.2) t

/-! ## Following a path -/

def maxLinks : Nat := 40

def maxName : Nat := 255

def maxPath : Nat := 4095

/-- The last step of a path. -/
inductive Ending where
  | root
  | here
  | up
  | name (bytes : Bytes)
deriving DecidableEq, Repr

/-- Where a path leads: a directory, the last step from there, and whether a separator follows. -/
structure Spot where
  dir : Place
  ending : Ending
  slash : Bool
deriving DecidableEq, Repr

/-- The place after the last step. -/
def Spot.place (s : Spot) : Place :=
  match s.ending with
  | .root | .here => s.dir
  | .up => s.dir.dropLast
  | .name n => s.dir ++ [n]

/-- What is done about a link at the end of a path. -/
inductive LastLink where
  | follow
  /-- It is followed if a separator comes after it. -/
  | keep
  /-- It is followed unless a separator comes after it, as when a file is made. -/
  | make
  | ignore
deriving DecidableEq, Repr

/-- Whether a link is followed, given whether a separator comes after it. -/
def LastLink.follows : LastLink → Bool → Bool
  | .follow, _ => true
  | .keep, slash => slash
  | .make, slash => !slash
  | .ignore, _ => false

/-- Whether the last step is not looked at. -/
def LastLink.isBlind : LastLink → Bool → Bool
  | .make, slash => slash
  | .ignore, _ => true
  | _, _ => false

/-- Takes the steps of a path from the directory `here`; at a link `pursue` goes on with the steps
that it stands for. -/
def walkBy (t : FileTree) (last : LastLink) (pursue : Place → Bool → List Bytes → Except OsError Spot)
    (here : Place) (slash : Bool) : List Bytes → Except OsError Spot
  | [] => .ok ⟨here, .root, slash⟩
  | step :: rest =>
    if step = [Path.dot] then
      if rest.isEmpty then .ok ⟨here, .here, slash⟩ else walkBy t last pursue here slash rest
    else if step = [Path.dot, Path.dot] then
      if rest.isEmpty then .ok ⟨here, .up, slash⟩
      else walkBy t last pursue here.dropLast slash rest
    else if rest.isEmpty && last.isBlind slash then .ok ⟨here, .name step, slash⟩
    else if maxName < step.length then .error .nameTooLong
    else
      match t.get? (here ++ [step]) with
      | some (.link target) =>
        if rest.isEmpty && !last.follows slash then .ok ⟨here, .name step, slash⟩
        else
          pursue (if target.isAbsolute then [] else here)
            (slash || rest.isEmpty && target.endsInSlash) (target.steps ++ rest)
      | found =>
        if rest.isEmpty then .ok ⟨here, .name step, slash⟩
        else match found with
          | none => .error .noEntry
          | some .dir => walkBy t last pursue (here ++ [step]) slash rest
          | some _ => .error .notDirectory

/-- Follows a link, if `links` more of them may be followed. -/
def pursue (t : FileTree) (last : LastLink) :
    Nat → Place → Bool → List Bytes → Except OsError Spot
  | 0, _, _, _ => .error .tooManyLinks
  | links + 1, here, slash, steps => walkBy t last (pursue t last links) here slash steps

/-- **Follows the steps of a path** from the directory `here`, through at most `links` links.  What
the last step names may be missing. -/
def walk (t : FileTree) (last : LastLink) (links : Nat) : Place → Bool → List Bytes →
    Except OsError Spot :=
  walkBy t last (pursue t last links)

/-- Where a path leads from the directory `cwd`. -/
def locate (cwd : Place) (p : Path) (last : LastLink := .follow) :
    Except OsError Spot :=
  if p.text.contains 0 then .error .nulInName
  else if p.text.isEmpty then .error .noEntry
  else if maxPath < p.text.length then .error .nameTooLong
  else walk t last maxLinks (if p.isAbsolute then [] else cwd) p.endsInSlash p.steps

/-- What stands at a spot; something has to, and before a separator a directory. -/
def arrive (spot : Spot) : Except OsError (Place × Entry) :=
  match spot.ending with
  | .name _ =>
    match t.get? spot.place with
    | none => .error .noEntry
    | some e => if spot.slash && !e.isDir then .error .notDirectory else .ok (spot.place, e)
  | _ => .ok (spot.place, .dir)

/-- The place that a path leads to, and what stands there. -/
def find (cwd : Place) (p : Path) (last : LastLink := .follow) :
    Except OsError (Place × Entry) := do
  let spot ← t.locate cwd p last
  t.arrive spot

/-- Everything below the directory at `p`, sorted by path; `none` when there is no directory. -/
def listing? (p : Path) : Option (List (Path × Entry)) :=
  match t.find [] p with
  | .ok (place, .dir) =>
    let found := (t.below place).map fun e => (Path.mk (Path.joinPieces e.1), e.2)
    some (found.mergeSort fun a b => Bytes.le a.1.text b.1.text)
  | _ => none

def insert (place : Place) (e : Entry) : Except OsError FileTree :=
  if t.get? place.dropLast = some .dir then .ok (t.put place e) else .error .noEntry

@[simp] theorem get?_nil (t : FileTree) : t.get? [] = some .dir := rfl

theorem get?_of_ne_nil (t : FileTree) {place : Place} (h : place ≠ []) :
    t.get? place = t.entries.lookup place := by
  rw [get?, if_neg (mt List.isEmpty_iff.1 h)]

/-- Below the root, a change is seen at its own place and nowhere else. -/
theorem get?_put (t : FileTree) (place : Place) (e : Entry) {other : Place} (h : other ≠ []) :
    (t.put place e).get? other = if other = place then some e else t.get? other := by
  rw [get?_of_ne_nil _ h, get?_of_ne_nil _ h]
  exact Assoc.lookup_put t.entries place e other

end FileTree

end Judge
