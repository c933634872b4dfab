import Judge.Text.Blank
import Judge.Text.Utf8

/-!
# Text/Cut — cutting lists at elements and at words

The same few cuts serve text (`List Char`) and raw data (`Bytes`): at every element of a class, at
the first occurrence of a word, and the removal of a class from both ends.
-/

namespace Judge

variable {α : Type}

/-! ## At every element of a class -/

/-- The pieces between the elements of the class `p`; there is always one more piece than such
elements. -/
def splitWhere (p : α → Bool) (xs : List α) : List (List α) :=
  xs.foldr
    (fun x pieces =>
      if p x then [] :: pieces
      else match pieces with
        | [] => [[x]]
        | piece :: more => (x :: piece) :: more)
    [[]]

/-- The nonempty pieces between the elements of the class `p`. -/
def runsWhere (p : α → Bool) (xs : List α) : List (List α) :=
  (splitWhere p xs).filter fun piece => !piece.isEmpty

/-- `xs` without the elements of the class `p` at its end. -/
def trimRightWhere (p : α → Bool) (xs : List α) : List α := (xs.reverse.dropWhile p).reverse

/-- `xs` without the elements of the class `p` at its two ends. -/
def trimWhere (p : α → Bool) (xs : List α) : List α := trimRightWhere p (xs.dropWhile p)

/-- A text without the blanks at its two ends. -/
def trim (cs : List Char) : List Char := trimWhere isBlank cs

/-- The words of a text: its maximal runs without blanks. -/
def words (cs : List Char) : List (List Char) := runsWhere isBlank cs

/-! ## At a word -/

variable [BEq α]

/-- The text before and after the first occurrence of `needle`. -/
def cutAt (needle : List α) : List α → Option (List α × List α)
  | [] => if needle.isEmpty then some ([], []) else none
  | x :: xs =>
    if needle.isPrefixOf (x :: xs) then some ([], (x :: xs).drop needle.length)
    else (cutAt needle xs).map fun cut => (x :: cut.1, cut.2)

/-- `xs` with `value` in the place of each occurrence of `needle`, after skipping the first `skip`
elements. -/
def replaceFrom (needle value : List α) : Nat → List α → List α
  | _, [] => []
  | skip + 1, _ :: xs => replaceFrom needle value skip xs
  | 0, x :: xs =>
    if needle.isPrefixOf (x :: xs) then value ++ replaceFrom needle value (needle.length - 1) xs
    else x :: replaceFrom needle value 0 xs

/-- **Expansion of a placeholder**: `value` stands in the place of each occurrence of `needle`,
found from the left without overlap.  An empty needle occurs nowhere. -/
def replaceAll (needle value xs : List α) : List α :=
  if needle.isEmpty then xs else replaceFrom needle value 0 xs

end Judge
