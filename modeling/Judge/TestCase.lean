import Judge.Path.Basic

/-!
# TestCase — one fixture of a suite

The files of a test share a stem: the input `T.dat`, the reference `T.ans`, the record `T.inf` and
the directory `T.dir`, in the place of which a suite may have one shared directory.
-/

namespace Judge

/-- One fixture; all paths are absolute. -/
structure TestCase where
  name : String
  input : Path
  reference : Path
  info : Path
  /-- The directory brought into the run directory, which may be absent. -/
  fixtureDir : Path
deriving DecidableEq, Repr

end Judge
