import Judge.Json
import Judge.Number.Shortest

/-!
# Report — the outcome of a suite

A report lists the tests in the order they were run, with what became of each.  It is written as
JSON, two blanks to a level, and read back from the same form.
-/

namespace Judge

/-- What became of a test. -/
inductive Status where
  | passed
  | skipped
  | failed
deriving DecidableEq, Repr

namespace Status

def text : Status → String
  | .passed => "passed"
  | .skipped => "skipped"
  | .failed => "failed"

def ofText? (word : String) : Option Status :=
  [("passed", passed), ("skipped", skipped), ("failed", failed)].lookup word

/-- Reads a status: its word, or an object that holds nothing under its word. -/
def read? : Json → Option Status
  | .string word | .object [(word, .null)] => ofText? word
  | _ => none

end Status

/-- One test in a report. -/
structure TestReport where
  name : String
  attempts : Nat
  status : Status
  cpuSeconds : Binary64
  error : Option String := none
deriving DecidableEq, Repr

/-- The outcome of a suite. -/
structure Report where
  passed : Bool := false
  pipeline : Bool := false
  tests : List TestReport := []
deriving DecidableEq, Repr, Inhabited

namespace Report

/-! ## Writing -/

def fieldLine (indent : String) (key value : String) : String :=
  indent ++ Json.quote key ++ ": " ++ value

def testText (t : TestReport) : String :=
  let fields :=
    [fieldLine "      " "name" (Json.quote t.name),
     fieldLine "      " "attempts" (toString t.attempts),
     fieldLine "      " "status" (Json.quote t.status.text),
     fieldLine "      " "cpu_time_secs" (FloatLayout.report.render t.cpuSeconds)] ++
    (t.error.map fun e => fieldLine "      " "error" (Json.quote e)).toList
  "    \x7b\n" ++ ",\n".intercalate fields ++ "\n    \x7d"

/-- **The text of a report.** -/
def render (r : Report) : String :=
  let tests :=
    if r.tests.isEmpty then "[]"
    else "[\n" ++ ",\n".intercalate (r.tests.map testText) ++ "\n  ]"
  "\x7b\n" ++ ",\n".intercalate
    [fieldLine "  " "passed" (if r.passed then "true" else "false"),
     fieldLine "  " "pipeline" (if r.pipeline then "true" else "false"),
     fieldLine "  " "tests" tests] ++ "\n\x7d"

/-! ## Reading -/

/-- The values of the named fields of an object, or of the array of just these values. -/
def columns? (keys : List String) : Json → Option (List (Option Json))
  | .object fields => some (keys.map fun key => (Json.object fields).field? key)
  | .array items => if items.length = keys.length then some (items.map some) else none
  | _ => none

def optionalText? : Option Json → Option (Option String)
  | none => some none
  | some .null => some none
  | some (.string s) => some (some s)
  | _ => none

def count? (j : Json) : Option Nat := j.nat?.bind fun n => if n < 2 ^ 32 then some n else none

def readTest? (j : Json) : Option TestReport := do
  match ← columns? ["name", "attempts", "status", "cpu_time_secs", "error"] j with
  | [name, attempts, status, seconds, error] =>
    some {
      name := ← name >>= Json.string?
      attempts := ← attempts >>= count?
      status := ← status >>= Status.read?
      cpuSeconds := ← seconds >>= Json.double?
      error := ← optionalText? error }
  | _ => none

def read? (j : Json) : Option Report := do
  match ← columns? ["passed", "pipeline", "tests"] j with
  | [passed, pipeline, tests] =>
    some {
      passed := ← passed >>= Json.bool?
      pipeline := ← pipeline >>= Json.bool?
      tests := ← (← tests >>= Json.items?).mapM readTest? }
  | _ => none

/-- The report as a value, without the measured times. -/
def withoutTimes (r : Report) : Json :=
  .object
    [("passed", .bool r.passed), ("pipeline", .bool r.pipeline),
     ("tests", .array (r.tests.map fun t => .object
       ([("name", .string t.name), ("attempts", Json.ofNat t.attempts),
         ("status", .string t.status.text)] ++
        (t.error.map fun e => ("error", Json.string e)).toList)))]

end Report

end Judge
