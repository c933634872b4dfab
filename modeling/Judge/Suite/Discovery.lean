import Judge.Machine.Act
import Judge.TestCase

/-!
# Suite/Discovery — the fixtures of a directory

Every regular file `T.dat` of the tests directory is a test.  The tests are sorted by path, so the
order in which the directory is listed does not matter.
-/

namespace Judge

namespace Discovery

/-- What the name of an input ends with; the files beside it have the other endings. -/
def inputExtension : Bytes := utf8 "dat"

/-- The ending of a reference. -/
def referenceExtension : Bytes := utf8 "ans"

/-- The ending of a metadata record. -/
def infoExtension : Bytes := utf8 "inf"

/-- The ending of a fixture of one test. -/
def dirExtension : Bytes := utf8 "dir"

/-- The name of the directory that all tests share. -/
def staticName : String := "static"

/-- Whether a path is that of an input. -/
def isInput (p : Path) : Program Bool :=
  if p.extension? = some inputExtension then Program.isFile p else return false

/-- The inputs among the names in a directory. -/
def inputs (dir : Path) (names : List Bytes) : Program (List Path) :=
  (names.map fun n => dir.join ⟨n⟩).filterM isInput

/-- Paths in the order of their bytes. -/
def sortPaths (paths : List Path) : List Path :=
  paths.mergeSort fun p q => Bytes.le p.text q.text

/-- A test has a fixture of its own, and there is one for all tests. -/
def conflict (name : String) (own : Path) : JudgeError :=
  .config ("Test " ++ name ++ " has its own " ++ own.display ++ " while a " ++ staticName ++
    " directory exists")

/-- A test is named by its input, without the ending. -/
def testName (input : Path) : String := (input.stem?.map Utf8.text).getD ""

/-- The test of an input, with the files beside it. -/
def testCase (input fixtureDir : Path) : TestCase :=
  { name := testName input
    input
    reference := input.withExtension referenceExtension
    info := input.withExtension infoExtension
    fixtureDir }

/-- The test with a given input, where `shared` is the directory of all tests, if there is one. -/
def resolve (shared : Option Path) (input : Path) : Act TestCase :=
  let own := input.withExtension dirExtension
  match shared with
  | none => return testCase input own
  | some shared => do
    if ← Act.ofProgram (Program.isDir own) then throw (conflict (testName input) own)
    return testCase input shared

/-- The tests whose inputs are among the names in `dir`. -/
def ofNames (dir static : Path) (names : List Bytes) : Act (List TestCase) := do
  let found ← Act.ofProgram (inputs dir names)
  let shared ← Act.ofProgram (Program.isDir static)
  (sortPaths found).mapM (resolve (if shared then some static else none))

end Discovery

/-- **The tests of a problem**, none when there is no tests directory. -/
def discover (cwd problemDir testsDir : Path) : Act (List TestCase) := do
  let dir := Path.absolute cwd (problemDir.join testsDir)
  let static := Path.absolute cwd (problemDir.child Discovery.staticName)
  match ← Act.ofProgram (Program.onFiles (.list dir)) with
  | .error e => if e = .noEntry then return [] else throw (.io (.os e))
  | .ok names => Discovery.ofNames dir static names

end Judge
