import Judge.Path.Basic

/-!
# Path/Relative — one path seen from another

From a directory one climbs until the target lies below, and then descends.
-/

namespace Judge.Path

/-- Why a path cannot be seen from another. -/
inductive RelativeError where
  /-- What is left below the common directory is not text. -/
  | notText (path : Path)
  /-- No directory above `base` leads to `path`. -/
  | unrelated (base path : Path)
deriving DecidableEq, Repr

/-- Climbs from `ancestor`, which lies `parents` steps above `base`. -/
def climbTo (base path : Path) : Nat → Nat → Path → Except RelativeError String
  | 0, _, _ => .error (.unrelated base path)
  | fuel + 1, parents, ancestor =>
    match below? ancestor path with
    | some rest =>
      match Utf8.text? rest.text with
      | some text => .ok (String.join (List.replicate parents "../") ++ text)
      | none => .error (.notText path)
    | none =>
      match ancestor.parent? with
      | some above => climbTo base path fuel (parents + 1) above
      | none => .error (.unrelated base path)

/-- **`path` as it is seen from the directory `base`.**  A path has as many directories above it as
it has components, so climbing ends. -/
def relative (base path : Path) : Except RelativeError String :=
  climbTo base path (base.components.length + 1) 0 base

end Judge.Path
