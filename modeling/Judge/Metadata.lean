import Judge.Error
import Judge.ExitPattern
import Judge.Number.Span
import Judge.Vars

/-!
# Metadata — the record of a test

A record is a text of lines.  A line assigns a value to a key (`key = value`), leaves a key without
a value (`key =`), or names a flag; blank lines do not count.  Keys and flags form closed sets, so
that a misspelt one never goes unnoticed.
-/

namespace Judge

namespace Metadata

/-- A flag of a record. -/
inductive Flag where
  | enableSubst
  | checkStderr
  | nukeEnviron
  | dropFirstParam
deriving DecidableEq, Repr

def Flag.read? (token : List Char) : Option Flag :=
  if token = "enable_subst".toList then some .enableSubst
  else if token = "check_stderr".toList then some .checkStderr
  else if token = "nuke_environ".toList then some .nukeEnviron
  else if token = "drop_first_param".toList then some .dropFirstParam
  else none

/-- A key of a record. -/
inductive Key where
  | params
  | environ
  | interactorEnviron
  | timeLimit
  | exitCode
  | maxProcesses
  /-- A key that is accepted and not looked at. -/
  | ignored
deriving DecidableEq, Repr

def Key.table : List (String × Key) :=
  [("params", .params), ("environ", .environ), ("compiler_env", .environ),
   ("interactor_env", .interactorEnviron), ("comment", .ignored), ("time_limit_ms", .timeLimit),
   ("real_time_limit_ms", .timeLimit), ("exit_code", .exitCode),
   ("max_process_count", .maxProcesses), ("max_vm_size", .ignored), ("max_rss_size", .ignored)]

def Key.read? (word : List Char) : Option Key := Key.table.lookup (String.ofList word)

/-- What a line of a record is. -/
inductive Line where
  | blank
  | entry (key value : List Char)
  /-- A key without a value. -/
  | unset
  | flag (flag : Flag)
  | unknown (line : List Char)
deriving DecidableEq, Repr

/-- What a line is, once the blanks around it are gone. -/
def Line.read (raw : List Char) : Line :=
  let line := trim raw
  if line.isEmpty then .blank
  else match cutAt " = ".toList line with
    | some (key, value) => .entry key (trim value)
    | none =>
      if " =".toList.isSuffixOf line then .unset
      else match Flag.read? line with
        | some f => .flag f
        | none => .unknown line

/-- What is wrong with a record. -/
inductive Error where
  | unknownLine (line : List Char)
  | unknownKey (key value : List Char)
  | duplicatedParams
  | duplicatedExitCode
  | invalidNumber (key value : List Char)
  | unsupportedExitCode (raw : List Char)
  | unsupportedEnviron (value : List Char)
deriving DecidableEq, Repr

def Error.message : Error → String
  | .unknownLine line => "Unknown param '" ++ String.ofList line ++ "'"
  | .unknownKey key value =>
    "Unknown inf param " ++ String.ofList key ++ " = " ++ String.ofList value
  | .duplicatedParams => "Duplicated params"
  | .duplicatedExitCode => "Duplicated exit_code"
  | .invalidNumber key value => "Invalid " ++ String.ofList key ++ " = " ++ String.ofList value
  | .unsupportedExitCode raw => ExitPattern.unsupported raw
  | .unsupportedEnviron value => "Unsupported env " ++ String.ofList (quoteChars value)

end Metadata

/-- The record of a test. -/
structure Metadata where
  params : Option String := none
  environ : Vars := .empty
  interactorEnviron : Vars := .empty
  timeLimit : Option Span := none
  exitCode : Option ExitPattern := none
  maxProcesses : Option Nat := none
  enableSubst : Bool := false
  /-- Whether the error stream is judged in the place of the output. -/
  checkStderr : Bool := false
  nukeEnviron : Bool := false
  /-- Whether the candidate is not told its own name. -/
  dropFirstParam : Bool := false
deriving DecidableEq, Repr, Inhabited

namespace Metadata

variable (m : Metadata)

/-- The expected exit code: zero unless the record says otherwise. -/
def expectedExit : ExitPattern := m.exitCode.getD (.exactly 0)

/-- The time limit, or the given one when the record has none. -/
def timeLimitOr (default : Span) : Span := m.timeLimit.getD default

/-! ## Assignments of variables -/

/-- Cuts `name=value`; the name must not be empty. -/
def cutAssignment? (word : List Char) : Option (String × String) :=
  match cutAt ['='] word with
  | some ([], _) => none
  | some (name, value) => some (String.ofList name, String.ofList value)
  | none => none

/-- The assignments in the value of an environment key: one between double quotes, or any number of
words. -/
def assignments? (value : List Char) : Option (List (String × String)) :=
  if (trim value).isEmpty then some []
  else match value with
    | '"' :: quoted =>
      if quoted.getLast? = some '"' then (cutAssignment? quoted.dropLast).map ([·]) else none
    | _ => (words value).mapM cutAssignment?

/-- The variables after the assignments of `value`. -/
def assign (vars : Vars) (value : List Char) : Except Error Vars :=
  match assignments? value with
  | some entries => .ok (vars.overlay ⟨entries⟩)
  | none => .error (.unsupportedEnviron value)

/-! ## Reading a record -/

def number (key value : List Char) : Except Error Nat :=
  match Integer.read64 value with
  | .ok n => .ok n
  | .error _ => .error (.invalidNumber key value)

/-- The record after the line `key = value`. -/
def applyEntry (key value : List Char) : Except Error Metadata :=
  match Key.read? key with
  | none => .error (.unknownKey key value)
  | some .params =>
    if m.params.isSome then .error .duplicatedParams
    else .ok { m with params := some (String.ofList value) }
  | some .environ => (assign m.environ value).map fun vars => { m with environ := vars }
  | some .interactorEnviron =>
    (assign m.interactorEnviron value).map fun vars => { m with interactorEnviron := vars }
  | some .timeLimit =>
    (number key value).map fun ms => { m with timeLimit := some (Span.ofMillis ms) }
  | some .exitCode =>
    if m.exitCode.isSome then .error .duplicatedExitCode
    else match ExitPattern.read value with
      | .ok pattern => .ok { m with exitCode := some pattern }
      | .error raw => .error (.unsupportedExitCode raw)
  | some .maxProcesses => (number key value).map fun n => { m with maxProcesses := some n }
  | some .ignored => .ok m

def setFlag : Flag → Metadata
  | .enableSubst => { m with enableSubst := true }
  | .checkStderr => { m with checkStderr := true }
  | .nukeEnviron => { m with nukeEnviron := true }
  | .dropFirstParam => { m with dropFirstParam := true }

/-- The record after one line. -/
def applyLine : Line → Except Error Metadata
  | .blank => .ok m
  | .entry key value => m.applyEntry key value
  | .unset => .ok m
  | .flag flag => .ok (m.setFlag flag)
  | .unknown line => .error (.unknownLine line)

def textLines (text : List Char) : List (List Char) := splitWhere (· == '\n') text

/-- **Reads a record**: its lines one after the other, up to the first that is wrong. -/
def read (text : List Char) : Except Error Metadata :=
  (textLines text).foldlM (fun m raw => m.applyLine (Line.read raw)) {}

def Error.toJudge (e : Error) : JudgeError := .config e.message

def Error.toJudgeAt (path : Path) (e : Error) : JudgeError :=
  .config (path.display ++ ": " ++ e.message)

end Metadata

end Judge
