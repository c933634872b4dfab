import Judge.Error
import Judge.Number.Decimal
import Judge.Number.Span
import Judge.Text.Quoted

/-!
# Settings — what the judge is told

Two things steer a run: the variables of the judge's own environment (`Surroundings`) and the
options of the run (`Options`).  In a pipeline the judge is strict: nothing is skipped, and only
there the candidate runs as another user.
-/

namespace Judge

/-- What the judge learns from its environment. -/
structure Surroundings where
  pipeline : Bool := false
  eps : Binary64 := .zero
  defaultTimeLimit : Span := Span.ofMillis 1000
deriving DecidableEq, Repr

namespace Surroundings

def pipelineVar : String := "GITLAB_CI"

def epsVar : String := "EPS"

def timeLimitVar : String := "EJUDGE_REAL_TIME_LIMIT_MS"

def readEps (raw : String) : Except JudgeError Binary64 :=
  match readDouble (trim raw.toList) with
  | .ok eps => .ok eps
  | .error e => .error (.config (epsVar ++ "=" ++ shown raw ++ " is not a number: " ++ e.message))

def readTimeLimit (raw : String) : Except JudgeError Span :=
  match Integer.read64 (trim raw.toList) with
  | .ok ms => .ok (Span.ofMillis ms)
  | .error e =>
    .error (.config (timeLimitVar ++ "=" ++ shown raw ++ " is not an integer: " ++ e.message))

/-- **Reads the environment** through a lookup of variables. -/
def read (lookup : String → Option String) : Except JudgeError Surroundings := do
  let pipeline := ((lookup pipelineVar).map fun v => v != "").getD false
  let eps ← ((lookup epsVar).map readEps).getD (.ok Binary64.zero)
  let limit ← ((lookup timeLimitVar).map readTimeLimit).getD (.ok (Span.ofMillis 1000))
  return { pipeline, eps, defaultTimeLimit := limit }

end Surroundings

/-- The options of a run. -/
structure Options where
  problemDir : Path := .ofString "."
  testsDir : Path := .ofString "tests"
  prepareAnswers : Bool := false
  /-- The file in the run directory that the candidate writes its answer to. -/
  outputFile : Option String := none
  runCmd : String := "./solution"
  checker : String := "cmp"
  interactor : Option Path := none
  /-- The helper that sets up and tears down. -/
  initializer : Option String := none
  initializerRunTillEnd : Bool := false
  mayFailLocal : List String := []
  user : Option String := none
  /-- The word of the command line that stands for the input. -/
  inputFilename : String := "input.txt"
  /-- Whether fixtures are copied and not linked. -/
  staticCopy : Bool := false
  retests : Nat := 1
  retries : Nat := 1
  report : Option Path := none
deriving DecidableEq, Repr

namespace Options

/-- The options with the policy of the surroundings applied: a pipeline skips nothing, and nothing
but a pipeline changes the user. -/
def underPolicy (o : Options) (s : Surroundings) : Options :=
  if s.pipeline then { o with mayFailLocal := [] } else { o with user := none }

def mayFail (o : Options) (test : String) : Bool := o.mayFailLocal.contains test

end Options

def problemDirPlaceholder : String := "$\x7bproblem.problem_dir\x7d"

end Judge
