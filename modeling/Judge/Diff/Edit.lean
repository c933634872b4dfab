/-!
# Diff/Edit — edit scripts

An edit script turns one list into another by keeping, deleting and inserting lines.  `editScript`
keeps a longest common subsequence: the common beginning and end are kept as they are, and for the
middle a table gives the length of the longest common subsequence of every two tails.  Where that
table would be too large the middle is replaced as a whole.
-/

namespace Judge

variable {α : Type}

/-- One step of an edit script. -/
inductive Edit (α : Type) where
  | keep (line : α)
  | delete (line : α)
  | insert (line : α)
deriving DecidableEq, Repr

namespace Edit

def isChange : Edit α → Bool
  | .keep _ => false
  | _ => true

def isDelete : Edit α → Bool
  | .delete _ => true
  | _ => false

def old? : Edit α → Option α
  | .keep line | .delete line => some line
  | .insert _ => none

def new? : Edit α → Option α
  | .keep line => some line
  | .delete _ => none
  | .insert line => some line

end Edit

namespace Diff

variable [DecidableEq α]

/-! ## The table -/

/-- The row above `below` for the line `a`: entry `j` is the length of a longest common subsequence
of the tail from `a` on and the tail of `bs` from `j` on. -/
def rowAbove (a : α) : List α → List Nat → List Nat
  | b :: bs, d :: below =>
    let rest := rowAbove a bs below
    (if a = b then below.headD 0 + 1 else max d (rest.headD 0)) :: rest
  | _, _ => [0]

/-- The rows of the table for all tails of `as`, the whole of `as` first. -/
def table (as bs : List α) : List (List Nat) :=
  as.foldr (fun a rows => rowAbove a bs (rows.headD []) :: rows)
    [List.replicate (bs.length + 1) 0]

/-- Walks through the table.  `rows` is the table of the two lists that are left. -/
def walk : List α → List α → List (List Nat) → List (Edit α)
  | [], bs, _ => bs.map .insert
  | a :: as, [], _ => (a :: as).map .delete
  | a :: as, b :: bs, rows =>
    if a = b then .keep a :: walk as bs (rows.tail.map List.tail)
    else if (rows.tail.headD []).headD 0 ≤ (rows.headD []).tail.headD 0 then
      .insert b :: walk (a :: as) bs (rows.map List.tail)
    else .delete a :: walk as (b :: bs) rows.tail
termination_by as bs => as.length + bs.length

/-- Puts an insertion behind the deletions at the head of a script. -/
def insertAfterDeletes (line : α) (edits : List (Edit α)) : List (Edit α) :=
  edits.takeWhile Edit.isDelete ++ .insert line :: edits.dropWhile Edit.isDelete

/-- Between two kept lines, the deletions first and then the insertions. -/
def deletesFirst (edits : List (Edit α)) : List (Edit α) :=
  edits.foldr
    (fun e acc => match e with
      | .insert line => insertAfterDeletes line acc
      | e => e :: acc)
    []

/-! ## The script -/

def commonPrefix : List α → List α → Nat
  | a :: as, b :: bs => if a = b then commonPrefix as bs + 1 else 0
  | _, _ => 0

def maxCells : Nat := 4000000

/-- The script for lists that have neither a common beginning nor a common end. -/
def middleScript (as bs : List α) : List (Edit α) :=
  if maxCells < as.length * bs.length then as.map .delete ++ bs.map .insert
  else deletesFirst (walk as bs (table as bs))

/-- **The edit script** from `as` to `bs`. -/
def editScript (as bs : List α) : List (Edit α) :=
  let front := commonPrefix as bs
  let as' := as.drop front
  let bs' := bs.drop front
  let back := commonPrefix as'.reverse bs'.reverse
  (as.take front).map .keep ++
    middleScript (as'.take (as'.length - back)) (bs'.take (bs'.length - back)) ++
    (as'.drop (as'.length - back)).map .keep

end Diff

end Judge
