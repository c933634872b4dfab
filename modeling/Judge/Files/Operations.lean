import Judge.Files.Tree

/-!
# Files/Operations — reading and changing a tree of files

`FileCall` is the language of operations on files by path, with a type of reply for each, and
`FileTree.serve` carries one out.  A refused operation changes nothing, with one exception: removing
a tree takes away what is in a directory before it tries the directory itself.
-/

namespace Judge

/-- What an entry is. -/
inductive FileKind where
  | file (mode : Nat) (size : Nat)
  | link
  | dir
  | device
  | socket
  | fifo
deriving DecidableEq, Repr

namespace FileKind

def ofEntry : Entry → FileKind
  | .file content mode => .file mode content.length
  | .link _ => .link
  | .dir => .dir
  | .device _ => .device
  | .socket => .socket
  | .fifo _ => .fifo

def isFile : FileKind → Bool
  | .file .. => true
  | _ => false

def isDir : FileKind → Bool
  | .dir => true
  | _ => false

end FileKind

/-- An operation on files. -/
inductive FileCall where
  | read (p : Path)
  | write (p : Path) (data : Bytes)
  | kind (p : Path)
  | linkKind (p : Path)
  | readLink (p : Path)
  | list (p : Path)
  /-- Where a path leads, with all links followed. -/
  | place (p : Path)
  | makeDir (p : Path)
  | symlink (target p : Path)
  | unlink (p : Path)
  | removeDir (p : Path)
  /-- Removes a directory with everything in it, and follows no link. -/
  | removeTree (p : Path)
  | rename (p q : Path)
  | setMode (p : Path) (mode : Nat)
  /-- Copies a file, with its permissions. -/
  | copy (p q : Path)
deriving DecidableEq, Repr

def FileCall.Reply : FileCall → Type
  | .read _ => Except OsError Bytes
  | .kind _ | .linkKind _ => Except OsError FileKind
  | .readLink _ => Except OsError Path
  | .list _ => Except OsError (List Bytes)
  | .place _ => Except OsError Place
  | _ => Except OsError Unit

namespace FileTree

variable (t : FileTree) (cwd : Place)

variable (p : Path)

def read : Except OsError Bytes :=
  match t.find cwd p with
  | .error e => .error e
  | .ok (_, .file content _) => .ok content
  | .ok (_, .device _) | .ok (_, .fifo _) => .ok []
  | .ok (_, .socket) => .error .noDevice
  | .ok (_, _) => .error .isDirectory

/-- The tree with a file at `p` that can be written to, and its place; a new file is empty. -/
def touch (mode : Nat := plainMode) : Except OsError (Place × FileTree) := do
  let spot ← t.locate cwd p .make
  match spot.ending, spot.slash with
  | .name _, false =>
    match t.get? spot.place with
    | none => do return (spot.place, ← t.insert spot.place (.file [] mode))
    | some .dir => .error .isDirectory
    | some .socket => .error .noDevice
    | some _ => .ok (spot.place, t)
  | _, _ => .error .isDirectory

def write (data : Bytes) (mode : Nat := plainMode) : Except OsError FileTree := do
  let (place, t) ← t.touch cwd p mode
  match t.get? place with
  | some (.file _ mode) => .ok (t.put place (.file data mode))
  | _ => .ok t

def kind (last : LastLink) : Except OsError FileKind :=
  (t.find cwd p last).map fun found => .ofEntry found.2

def readLink : Except OsError Path :=
  match t.find cwd p .keep with
  | .error e => .error e
  | .ok (_, .link target) => .ok target
  | .ok _ => .error .invalid

/-- The names in the directory at `p`. -/
def list : Except OsError (List Bytes) :=
  match t.find cwd p with
  | .error e => .error e
  | .ok (place, .dir) => .ok (t.children place)
  | .ok _ => .error .notDirectory

/-- Where the last step of `p` leads if it is a name; `other` answers for everything else. -/
def spotOf (other : Ending → OsError) : Except OsError Spot := do
  let spot ← t.locate cwd p .ignore
  match spot.ending with
  | .name _ => .ok spot
  | ending => .error (other ending)

def look (spot : Spot) : Except OsError (Option Entry) :=
  if maxName < (spot.place.getLastD []).length then .error .nameTooLong
  else .ok (t.get? spot.place)

/-- Where the last step of `p` leads if it is a name, and what stands there. -/
def named (other : Ending → OsError) : Except OsError (Spot × Option Entry) := do
  let spot ← t.spotOf cwd p other
  return (spot, ← t.look spot)

/-- The tree with a new entry at `p`.  Only a directory may have a separator after its name. -/
def create (e : Entry) : Except OsError FileTree := do
  match ← t.named cwd p fun _ => .nameTaken with
  | (_, some _) => .error .nameTaken
  | (spot, none) =>
    if spot.slash && !e.isDir then .error .noEntry else t.insert spot.place e

def symlink (target p : Path) : Except OsError FileTree :=
  if target.text.contains 0 then .error .nulInName
  else if target.text.isEmpty then .error .noEntry
  else if maxPath < target.text.length then .error .nameTooLong
  else t.create cwd p (.link target)

/-- The tree without the entry at `p`, which is not a directory. -/
def unlink : Except OsError FileTree := do
  match ← t.named cwd p fun _ => .isDirectory with
  | (_, none) => .error .noEntry
  | (_, some .dir) => .error .isDirectory
  | (spot, some _) => if spot.slash then .error .notDirectory else .ok (t.erase spot.place)

/-- The error of removing a directory by something that is not its name. -/
def unremovable : Ending → OsError
  | .here => .invalid
  | .up => .notEmpty
  | _ => .busy

/-- The tree without the empty directory at `p`. -/
def removeDir : Except OsError FileTree := do
  match ← t.named cwd p unremovable with
  | (_, none) => .error .noEntry
  | (spot, some .dir) =>
    if (t.children spot.place).isEmpty then .ok (t.erase spot.place) else .error .notEmpty
  | (_, some _) => .error .notDirectory

/-- The answer of an operation that may change the tree. -/
def settled : Except OsError FileTree → Except OsError Unit × FileTree
  | .ok t => (.ok (), t)
  | .error e => (.error e, t)

def clear (place : Place) : FileTree :=
  ⟨t.entries.filter fun e => e.1 == place || !place.isPrefixOf e.1⟩

/-- Removes the directory at `p` after everything in it; a link is removed and not followed.  It is
well if the path leads nowhere once the directory is empty. -/
def removeTree : Except OsError Unit × FileTree :=
  match t.find cwd p .keep with
  | .error e => (.error e, t)
  | .ok (place, .dir) =>
    let t := t.clear place
    match t.removeDir cwd p with
    | .ok t => (.ok (), t)
    | .error e => (if e = .noEntry then .ok () else .error e, t)
  | .ok (_, .link _) => t.settled (t.unlink cwd p)
  | .ok _ => (.error .notDirectory, t)

/-- Whether `e` may take the place of what stands at `target`. -/
def replaces (e : Entry) (target : Place) : Except OsError Unit :=
  match t.get? target, e.isDir with
  | none, _ => .ok ()
  | some .dir, true => if (t.children target).isEmpty then .ok () else .error .notEmpty
  | some .dir, false => .error .isDirectory
  | some _, true => .error .notDirectory
  | some _, false => .ok ()

/-- The tree with the entry at `source` and everything below it moved to `target`. -/
def move (source target : Place) (e : Entry) : FileTree :=
  (((t.erase source).erase target).put target e).graft target (t.below source)

/-- The tree with the entry at `source` moved to `target`. -/
def moveEntry (source target : Spot) (e : Entry) : Except OsError FileTree := do
  if !e.isDir && (source.slash || target.slash) then .error .notDirectory
  else if source.place = target.place then .ok t
  else if source.place.isPrefixOf target.place then .error .invalid
  else if target.place.isPrefixOf source.place then .error .notEmpty
  else
    t.replaces e target.place
    if t.get? target.dir = some .dir then .ok (t.move source.place target.place e)
    else .error .noEntry

/-- The tree with the entry at `p` moved to `q`. -/
def rename (p q : Path) : Except OsError FileTree := do
  let _ ← t.locate cwd p .ignore
  let _ ← t.locate cwd q .ignore
  let source ← t.spotOf cwd p fun _ => .busy
  let target ← t.spotOf cwd q fun _ => .busy
  match ← t.look source with
  | none => .error .noEntry
  | some e => do
    let _ ← t.look target
    t.moveEntry source target e

/-- The tree with other permissions on the file at `p`. -/
def setMode (mode : Nat) : Except OsError FileTree :=
  match t.find cwd p with
  | .error e => .error e
  | .ok (place, .file content _) => .ok (t.put place (.file content mode))
  | .ok _ => .ok t

/-- The tree with the file at `p` copied to `q`. -/
def copy (p q : Path) : Except OsError FileTree :=
  match t.find cwd p with
  | .error e => .error e
  | .ok (_, .file content mode) =>
    match t.write cwd q content with
    | .error e => .error e
    | .ok t =>
      match t.find cwd q with
      | .ok (place, .file content _) => .ok (t.put place (.file content mode))
      | _ => .ok t
  | .ok _ => .error .invalid

/-- **Carries out an operation** for someone in the directory `cwd`. -/
def serve : (c : FileCall) → c.Reply × FileTree
  | .read p => (t.read cwd p, t)
  | .write p data => t.settled (t.write cwd p data)
  | .kind p => (t.kind cwd p .follow, t)
  | .linkKind p => (t.kind cwd p .keep, t)
  | .readLink p => (t.readLink cwd p, t)
  | .list p => (t.list cwd p, t)
  | .place p => ((t.find cwd p).map fun found => found.1, t)
  | .makeDir p => t.settled (t.create cwd p .dir)
  | .symlink target p => t.settled (t.symlink cwd target p)
  | .unlink p => t.settled (t.unlink cwd p)
  | .removeDir p => t.settled (t.removeDir cwd p)
  | .removeTree p => t.removeTree cwd p
  | .rename p q => t.settled (t.rename cwd p q)
  | .setMode p mode => t.settled (t.setMode cwd p mode)
  | .copy p q => t.settled (t.copy cwd p q)

end FileTree

end Judge
