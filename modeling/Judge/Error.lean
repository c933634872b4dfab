import Judge.OsError
import Judge.Path.Basic

/-!
# Error — how judging can fail

An error has a kind and a text.  The kind decides what happens next: whether the attempt is repeated
(`retryable`), whether a local run may look away (`skippable`), and whether the judge itself was
tricked (`integrity`).
-/

namespace Judge

/-- A failed operation on files. -/
inductive IoError where
  | os (error : OsError)
  | notText
  /-- A refusal, told in the judge's own words. -/
  | described (text : String)
deriving DecidableEq, Repr

def IoError.text : IoError → String
  | .os e => e.text
  | .notText => "stream did not contain valid UTF-8"
  | .described text => text

/-- How judging can fail. -/
inductive JudgeError where
  | io (cause : IoError)
  | system (cause : OsError)
  | config (message : String)
  | candidate (message : String)
  | timeLimit (message : String)
  | orphans (count shown : Nat) (sample : String)
  | tampered (path : Path)
  | internal (message : String)
deriving DecidableEq, Repr

namespace JudgeError

def text : JudgeError → String
  | .io cause => "IO error: " ++ cause.text
  | .system cause => "System call failed: " ++ cause.wording
  | .config message => "Configuration error: " ++ message
  | .candidate message => message
  | .timeLimit message => "Time limit exceeded: " ++ message
  | .orphans count shown sample =>
    "Found " ++ toString count ++ " orphan processes. First " ++ toString shown ++
      " of them are: " ++ sample
  | .tampered path => "Test output tampering detected: " ++ path.display
  | .internal message => "Internal error: " ++ message

/-- Failures of the candidate, and of its timing, are worth another attempt. -/
def retryable : JudgeError → Bool
  | .candidate _ | .timeLimit _ => true
  | _ => false

/-- Processes left behind and changed references are never forgiven. -/
def integrity : JudgeError → Bool
  | .orphans .. | .tampered _ => true
  | _ => false

/-- Only plain failures of the candidate may be looked away from. -/
def skippable : JudgeError → Bool
  | .candidate _ => true
  | _ => false

end JudgeError

end Judge
