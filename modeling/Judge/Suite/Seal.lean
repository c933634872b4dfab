import Judge.Suite.Digest
import Judge.Machine.Act

/-!
# Suite/Seal — noticing changed references

A reference is sealed before the candidates run; a broken seal afterwards is tampering.
-/

namespace Judge

/-- A path and the digest of the file there at some time. -/
structure Seal where
  path : Path
  digest : String
deriving DecidableEq, Repr

namespace Seal

/-- The digest of the file at `p`.  A directory can be opened and not read. -/
def digestOf (p : Path) : Act String :=
  (fun data => Digest.ofBytes data) <$> Act.orElse (Program.fetch p) fun e =>
    if e = .isDirectory then .io (.os e)
    else .io (.described ("Failed to open " ++ p.display ++ ": " ++ e.text))

/-- Seals a file as it is now. -/
def take (p : Path) : Act Seal := (fun digest => ⟨p, digest⟩) <$> digestOf p

/-- Whether a file still is what it was; one that cannot be read is not. -/
def intact (s : Seal) : Program Bool := do
  match ← (digestOf s.path).run with
  | .ok digest => return digest == s.digest
  | .error _ => return false

/-- **Fails unless the file is as it was.** -/
def verify (s : Seal) : Act Unit := do
  if ← Act.ofProgram s.intact then return () else throw (.tampered s.path)

/-- Whether two seals are the same: of one path, however it is written, and one digest. -/
def same (s t : Seal) : Bool := s.path.components == t.path.components && s.digest == t.digest

end Seal

end Judge
