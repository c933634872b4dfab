import Judge.Machine.Act

/-!
# Suite/RunDirectory — the directory that a test runs in

The directory is made anew for every test: what an earlier test left is removed, and then the
fixture is brought in, as one link for each of its entries or as a full copy.
-/

namespace Judge

/-- How a fixture is brought into the run directory. -/
inductive Overlay where
  | links
  /-- A copy of everything, with links followed. -/
  | copy
deriving DecidableEq, Repr

namespace RunDirectory

/-- Removes what an earlier test left. -/
def clear (dst : Path) : Act Unit :=
  Act.sparing .noEntry (Program.onFiles (.removeTree dst)) fun e =>
    .io (.described ("Failed to remove previous run directory " ++ dst.display ++ ": " ++ e.text))

/-- Links to each of some entries of the fixture. -/
def linkAll (fixture dst : Path) : List Bytes → Act Unit
  | [] => return ()
  | name :: rest => do
    Act.ofSystem (Program.onFiles (.symlink (fixture.join ⟨name⟩) (dst.join ⟨name⟩)))
    linkAll fixture dst rest

/-- Fills the run directory with links to the fixture. -/
def overlayLinks (cwd fixture dst : Path) : Act Unit := do
  Act.ofSystem (Program.makeDirAll dst)
  let fixture := Path.absolute cwd fixture
  let names ← Act.ofSystem (Program.onFiles (.list fixture))
  linkAll fixture dst names

/-- Why a fixture cannot be copied. -/
def walkError (fixture : Path) (text : String) : JudgeError :=
  .io (.described ("Failed to walk " ++ fixture.display ++ ": " ++ text))

/-- The system refused something on the way through the fixture. -/
def walkRefusal (fixture p : Path) (e : OsError) : JudgeError :=
  walkError fixture ("IO error for operation on " ++ p.display ++ ": " ++ e.text)

/-- Copies a regular file; nothing else can be copied. -/
def copyFile (p target : Path) : Act Unit := do
  if ← Act.ofProgram (Program.isFile p) then Act.ofSystem (Program.onFiles (.copy p target))
  else
    let _ ← Act.ofSystem (Program.fetch p)
    throw (.io (.described
      "the source path is neither a regular file nor a symlink to a regular file"))

/-- The directory among `ancestors` that lies at `place`; the nearest one comes first. -/
def loopAt? (ancestors : List (Path × Place)) (place : Place) : Option Path :=
  (ancestors.find? (·.2 == place)).map (·.1)

/-- Fails when a link at `p` leads to a directory that the walk is in. -/
def checkLoop (fixture p : Path) (ancestors : List (Path × Place)) (place : Place) : Act Unit :=
  match loopAt? ancestors place with
  | none => return ()
  | some above => throw (walkError fixture ("File system loop found: " ++ p.display ++
      " points to an ancestor " ++ above.display))

/-- Copies the entries of the directory `p` into `target`, each as `copy` does. -/
def copyAll (copy : Path → Path → Act Unit) (p target : Path) : List Bytes → Act Unit
  | [] => return ()
  | name :: rest => do
    copy (p.join ⟨name⟩) (target.join ⟨name⟩)
    copyAll copy p target rest

/-- Copies what is at `p` to `target`, at most `depth` directories deep. -/
def copyEntry (fixture : Path) (depth : Nat) (ancestors : List (Path × Place)) (p target : Path) :
    Act Unit :=
  match depth with
  | 0 => throw (walkRefusal fixture p .tooManyLinks)
  | depth + 1 => do
    let own ← Act.orElse (Program.onFiles (.linkKind p)) (walkRefusal fixture p)
    let kind ← Act.orElse (Program.onFiles (.kind p)) (walkRefusal fixture p)
    if kind.isDir then
      let place ← Act.orElse (Program.onFiles (.place p)) (walkRefusal fixture p)
      if own = .link then checkLoop fixture p ancestors place
      Act.ofSystem (Program.makeDirAll target)
      let names ← Act.orElse (Program.onFiles (.list p)) (walkRefusal fixture p)
      copyAll (copyEntry fixture depth ((p, place) :: ancestors)) p target names
    else copyFile p target

/-- The depth of the deepest tree that paths can reach. -/
def maxDepth : Nat := 2048

/-- Fills the run directory with a copy of the fixture. -/
def overlayCopy (fixture dst : Path) : Act Unit :=
  copyEntry fixture maxDepth [] fixture (dst.join ⟨[]⟩)

/-- Brings in the fixture; without one the directory is empty. -/
def fill (cwd fixture : Path) (mode : Overlay) (dst : Path) : Act Unit := do
  if ← Act.ofProgram (Program.exists fixture) then
    match mode with
    | .links => overlayLinks cwd fixture dst
    | .copy => overlayCopy fixture dst
  else Act.ofSystem (Program.makeDirAll dst)

/-- **Makes the run directory** and gives its absolute path. -/
def build (cwd fixture : Path) (mode : Overlay) (dst : Path) : Act Path := do
  clear dst
  fill cwd fixture mode dst
  return Path.absolute cwd dst

end RunDirectory

end Judge
