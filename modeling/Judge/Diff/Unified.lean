import Judge.Diff.Edit
import Judge.Text.Cut

/-!
# Diff/Unified — differences as text

The changes of an edit script are shown in hunks, each with up to three kept lines around its
changes.  A hunk says at which line it starts and how many lines it has, on the old side and on the
new one.
-/

namespace Judge.Diff

variable {α : Type}

/-- The kept lines shown around a change. -/
def context : Nat := 3

/-- Extends the ranges found so far, last one first, by the surroundings of a change at `index` in a
script of `size` steps. -/
def extendRanges (size : Nat) (ranges : List (Nat × Nat)) (index : Nat) : List (Nat × Nat) :=
  let start := index - context
  let stop := min (index + context + 1) size
  match ranges with
  | last :: more =>
    if start ≤ last.2 then (last.1, max last.2 stop) :: more else (start, stop) :: last :: more
  | [] => [(start, stop)]

variable (edits : List (Edit α))

def changeIndices : List Nat :=
  edits.zipIdx.filterMap fun e => if e.1.isChange then some e.2 else none

/-- **The hunks of a script**, as half-open ranges of its steps. -/
def hunkRanges : List (Nat × Nat) :=
  ((changeIndices edits).foldl (extendRanges edits.length) []).reverse

def oldLines : List α := edits.filterMap Edit.old?

def newLines : List α := edits.filterMap Edit.new?

/-- The position and the number of lines on one side of a hunk, where `before` lines precede it.  A
single line goes without its number, and no line at all has the position zero. -/
def sideText (before count : Nat) : String :=
  if count = 0 then "0,0"
  else if count = 1 then toString (before + 1)
  else toString (before + 1) ++ "," ++ toString count

def editText : Edit Bytes → String
  | .keep line => " " ++ Utf8.text line ++ "\n"
  | .delete line => "-" ++ Utf8.text line ++ "\n"
  | .insert line => "+" ++ Utf8.text line ++ "\n"

/-- The text of the hunk over the steps from `range.1` up to `range.2`. -/
def hunkText (edits : List (Edit Bytes)) (range : Nat × Nat) : String :=
  let before := edits.take range.1
  let hunk := (edits.drop range.1).take (range.2 - range.1)
  "@@ -" ++ sideText (oldLines before).length (oldLines hunk).length ++
    " +" ++ sideText (newLines before).length (newLines hunk).length ++ " @@\n" ++
    String.join (hunk.map editText)

/-- **The difference between two lists of lines**, empty when there is none. -/
def unified (expected actual : List Bytes) : String :=
  let edits := editScript expected actual
  if edits.any Edit.isChange then
    "--- expected\n+++ actual\n" ++ String.join ((hunkRanges edits).map (hunkText edits))
  else ""

/-- The lines of raw data: what stands between line feeds, so that data with a line feed at its end
has an empty last line. -/
def lines (data : Bytes) : List Bytes := splitWhere (· == 0x0A) data

end Judge.Diff
