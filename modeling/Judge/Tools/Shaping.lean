import Judge.Tools.Option

/-!
# Tools/Shaping — parts of lines
-/

namespace Judge.Tools

open Shell (Text ofBytes toBytes)

/-- What the positions of a list count. -/
structure PositionKind where
  value : String
  values : String

abbrev PositionRange := Nat × Option Nat

def readRange (k : PositionKind) (t : Text) : Except String PositionRange := do
  let number (ds : Text) : Except String Nat :=
    match nat? ds with
    | some 0 => .error (k.values ++ " are numbered from 1")
    | some n => .ok n
    | none => .error ("invalid " ++ k.value ++ " " ++ quoted ds)
  let low := t.takeWhile (· != '-')
  match t.drop low.length with
  | [] => do
    if t.isEmpty then throw (k.values ++ " are numbered from 1")
    let n ← number low
    return (n, some n)
  | _ :: high => do
    if low.isEmpty && high.isEmpty then throw "invalid range with no endpoint: -"
    if high.contains '-' then throw ("invalid " ++ k.value ++ " " ++ quoted t)
    let a ← if low.isEmpty then pure 1 else number low
    if high.isEmpty then return (a, none)
    let b ← number high
    if b < a then throw "invalid decreasing range"
    return (a, some b)

def mergeRanges (ranges : List PositionRange) : List PositionRange :=
  let sorted := ranges.mergeSort fun a b => decide (a.1 ≤ b.1)
  (sorted.foldl (fun (done : List PositionRange) r =>
    match done with
    | (a, some b) :: more =>
      if r.1 ≤ b then
        (a, match r.2 with
          | some c => some (max b c)
          | none => none) :: more
      else r :: done
    | (_, none) :: _ => done
    | [] => [r]) []).reverse

def otherRanges : List PositionRange → Nat → List PositionRange
  | [], next => [(next, none)]
  | (a, b) :: rest, next =>
    let before := if next < a then [(next, some (a - 1))] else []
    match b with
    | some b => before ++ otherRanges rest (b + 1)
    | none => before

def readRanges (k : PositionKind) (t : Text) : Except String (List PositionRange) := do
  let parts := splitWhere (fun c => c == ',' || c == ' ' || c == '\t') t
  return mergeRanges (← parts.mapM (readRange k))

def pickRanges {α : Type} : List PositionRange → Nat → List α → List (List α)
  | [], _, _ => []
  | (a, b) :: rest, n, items =>
    let items := items.drop (a - n)
    match b with
    | some b =>
      let size := b + 1 - max a n
      let picked := items.take size
      if picked.isEmpty then [] else picked :: pickRanges rest (b + 1) (items.drop size)
    | none => if items.isEmpty then [] else [items]

def cut : Tool := withOptions
    ("b,bytes= c,characters= f,fields= d,delimiter= n s,only-delimited z,zero-terminated " ++
     ",output-delimiter= ,complement") fun r c => do
  let lists := c.given.filter fun e => ["bytes", "characters", "fields"].contains e.1
  match lists with
  | [] => r.misused "you must specify a list of bytes, characters, or fields"
  | _ :: _ :: _ => r.misused "only one list may be specified"
  | [(how, list)] =>
    let byFields := how == "fields"
    let delimiter := (c.last? "delimiter").getD ['\t']
    let kind : PositionKind := if byFields then ⟨"field value", "fields"⟩
      else ⟨"byte or character position", "byte/character positions"⟩
    if 1 < delimiter.length then r.misused "the delimiter must be a single character"
    else if c.has "delimiter" && !byFields then
      r.misused "an input delimiter may be specified only when operating on fields"
    else if c.has "only-delimited" && !byFields then
      r.misused "suppressing non-delimited lines makes sense\n\tonly when operating on fields"
    else match readRanges kind list with
      | .error e => r.misused e
      | .ok ranges => do
        let ranges := if c.has "complement" then otherRanges ranges 1 else ranges
        let d := delimiter.headD '\x00'
        let between := c.last? "output-delimiter"
        let ending := c.ending "zero-terminated"
        let line (l : Text) : Option Text :=
          if byFields then
            if l.contains d then
              some ((between.getD [d]).intercalate
                (pickRanges ranges 1 (splitWhere (· == d) l)).flatten)
            else if c.has "only-delimited" then none else some l
          else some ((between.getD []).intercalate (pickRanges ranges 1 l))
        let (data, good) ← inputs r c.rest
        r.finish (unlines ending ((linesOf ending data).filterMap line)) (if good then 0 else 1)

end Judge.Tools
