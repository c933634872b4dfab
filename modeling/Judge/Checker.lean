import Judge.Diff.Unified
import Judge.Number.HexFloat
import Judge.Settings

/-!
# Checker — is the answer right?

A checker is named by a selector.  Every built-in one is a comparison of the produced bytes with the
reference; a selector with a slash in it is a program that decides by itself.
-/

namespace Judge

/-- A checker. -/
inductive Checker where
  | exact
  | sortedLines
  | double
  /-- Numbers between blanks, each up to the tolerance. -/
  | doubleSeq
  | ignoreSpaces
  | ignore
  | external (program : Path)
deriving DecidableEq, Repr

/-- Why an answer is wrong: a message and, for checkers of lines, the difference. -/
structure Mismatch where
  message : String
  diff : Option String := none
deriving DecidableEq, Repr

namespace Checker

/-- The checker that a selector names, seen from the directory `cwd`. -/
def ofSelector (cwd : Path) (selector : String) : Except JudgeError Checker :=
  if selector = "cmp" then .ok .exact
  else if selector = "sorted-lines" then .ok .sortedLines
  else if selector = "cmp-double" then .ok .double
  else if selector = "cmp-double-seq" then .ok .doubleSeq
  else if selector = "ignore-spaces" then .ok .ignoreSpaces
  else if selector = "ignore" then .ok .ignore
  else if selector.toList.contains '/' then .ok (.external (Path.absolute cwd (.ofString selector)))
  else .error (.config ("Unknown checker " ++ selector))

def isExternal : Checker → Bool
  | .external _ => true
  | _ => false

def checksExitCode : Checker → Bool
  | .ignore => false
  | _ => true

/-! ## Numbers -/

/-- Reads a number, decimal or, after `0x`, hexadecimal. -/
def readNumber? (cs : List Char) : Option Binary64 :=
  match cs with
  | '0' :: 'x' :: hex | '0' :: 'X' :: hex => HexFloat.read? hex
  | _ => (readDouble cs).toOption

def readAnswer (data : Bytes) : Except Mismatch Binary64 :=
  match Utf8.decode? data with
  | none => .error { message := "Output is not valid UTF-8" }
  | some cs =>
    let text := trim cs
    match readNumber? text with
    | some x => .ok x
    | none =>
      .error { message := "Could not convert " ++ String.ofList (quoteChars text) ++ " to float" }

/-- Whether two numbers agree up to the tolerance. -/
def agree (eps x y : Binary64) : Bool := x.same y || (x.distance y).le eps

/-- The first pair of numbers that does not agree decides; `index` counts from zero. -/
def compareNumbers (eps : Binary64) : Nat → List (Bytes × Bytes) → Except Mismatch Unit
  | _, [] => .ok ()
  | index, (produced, reference) :: more => do
    let x ← readAnswer produced
    let y ← readAnswer reference
    if agree eps x y then compareNumbers eps (index + 1) more
    else .error {
      message := "Element #" ++ toString (index + 1) ++ " mismatch: " ++ x.shown ++ " != " ++
        y.shown ++ ", EPS=" ++ eps.shown }

/-! ## Comparisons -/

def compareLines (expected actual : List Bytes) : Except Mismatch Unit :=
  if expected = actual then .ok ()
  else .error { message := "lines differ", diff := some (Diff.unified expected actual) }

/-- The lines of the data without the blanks around it, in order. -/
def sortLines (data : Bytes) : List Bytes :=
  (Diff.lines (trimWhere isBlankByte data)).mergeSort Bytes.le

def maxShownWords : Nat := 100

def compareWords (produced reference : List (List Char)) : Except Mismatch Unit :=
  if produced = reference then .ok ()
  else
    let detail :=
      if produced.length ≤ maxShownWords ∧ reference.length ≤ maxShownWords then
        " Expected: " ++ shownList (reference.map String.ofList) ++ ", actual: " ++
          shownList (produced.map String.ofList)
      else ""
    .error { message := "Tokens differ." ++ detail }

/-- **Compares what was produced with the reference.**  A program is not asked here. -/
def compare (eps : Binary64) (produced reference : Bytes) : Checker → Except Mismatch Unit
  | .exact => compareLines (Diff.lines reference) (Diff.lines produced)
  | .sortedLines => compareLines (sortLines reference) (sortLines produced)
  | .double => do
    let x ← readAnswer produced
    let y ← readAnswer reference
    if agree eps x y then .ok ()
    else .error { message := x.shown ++ " != " ++ y.shown ++ " for EPS=" ++ eps.shown }
  | .doubleSeq =>
    let xs := runsWhere isBlankByte produced
    let ys := runsWhere isBlankByte reference
    if xs.length ≠ ys.length then
      .error {
        message := "Sequence length mismatch: " ++ toString xs.length ++ " vs " ++
          toString ys.length }
    else compareNumbers eps 0 (xs.zip ys)
  | .ignoreSpaces =>
    compareWords (words (Utf8.decodeLossy produced)) (words (Utf8.decodeLossy reference))
  | .ignore | .external _ => .ok ()

def expandReference (problemDir : Path) (raw : Bytes) : Bytes :=
  replaceAll (utf8 problemDirPlaceholder) problemDir.text raw

end Checker

end Judge
