import Judge.Tools.Characters

/-!
# Tools/Collation — orders of texts

Texts can be compared byte by byte, without some of their characters, as numbers, months or
versions, and by parts of them only.
-/

namespace Judge.Tools

open Shell (Text)

def compareTexts : Text → Text → Ordering
  | [], [] => .eq
  | [], _ :: _ => .lt
  | _ :: _, [] => .gt
  | a :: s, b :: t => if a == b then compareTexts s t else if a < b then .lt else .gt

def isGap (c : Char) : Bool := c == ' ' || c == '\t' || c == '\n'

/-! ## Numbers -/

/-- A decimal number at the start of a text: its sign, the digits before and behind the point. -/
structure LeadingNumber where
  negative : Bool
  whole : Nat
  fraction : Text
  rest : Text

namespace LeadingNumber

def read (t : Text) : LeadingNumber :=
  let t := t.dropWhile isGap
  let (negative, t) := match t with
    | '-' :: rest => (true, rest)
    | _ => (false, t)
  let whole := t.takeWhile Char.isDigit
  let after := t.drop whole.length
  let (fraction, rest) := match after with
    | '.' :: more => (more.takeWhile Char.isDigit, more.dropWhile Char.isDigit)
    | _ => ([], after)
  let fraction := trimRightWhere (· == '0') fraction
  ⟨negative, Scan.readDigits 10 whole, fraction, rest⟩

def isZero (n : LeadingNumber) : Bool := n.whole = 0 && n.fraction.isEmpty

def compareSize (a b : LeadingNumber) : Ordering :=
  (compare a.whole b.whole).then (compareTexts a.fraction b.fraction)

def compareBy (size : LeadingNumber → LeadingNumber → Ordering) (a b : LeadingNumber) : Ordering :=
  match a.negative && !a.isZero, b.negative && !b.isZero with
  | false, false => size a b
  | true, true => size b a
  | true, false => .lt
  | false, true => .gt

def power (n : LeadingNumber) : Nat :=
  let units := "KMGTPEZYRQ".toList
  match n.rest with
  | 'k' :: _ => 1
  | c :: _ => if units.contains c then units.findIdx (· == c) + 1 else 0
  | [] => 0

end LeadingNumber

def compareNumbers (s t : Text) : Ordering :=
  LeadingNumber.compareBy LeadingNumber.compareSize (.read s) (.read t)

def compareSizes (s t : Text) : Ordering :=
  let power (n : LeadingNumber) : Nat := if n.isZero then 0 else n.power
  LeadingNumber.compareBy
    (fun a b => (compare (power a) (power b)).then (a.compareSize b)) (.read s) (.read t)

def compareReals (s t : Text) : Ordering :=
  let a := Scan.real s
  let b := Scan.real t
  let rank (r : Scan.Real) : Nat := if !r.found then 0 else match r.value with
    | .nan => 1
    | _ => 2
  (compare (rank a) (rank b)).then
    (if rank a < 2 then .eq
      else if Binary64.same a.value b.value then .eq
      else if Binary64.le a.value b.value then .lt else .gt)

/-! ## Names -/

def monthOf (t : Text) : Nat :=
  let months := ["JAN", "FEB", "MAR", "APR", "MAY", "JUN", "JUL", "AUG", "SEP", "OCT", "NOV", "DEC"]
  let word := String.ofList (((t.dropWhile isGap).take 3).map Char.toUpper)
  if months.contains word then months.findIdx (· == word) + 1 else 0

def versionRank (c : Char) : Int :=
  if c.isDigit then 0
  else if c.isAlpha then c.toNat
  else if c == '~' then -2
  else c.toNat + 256

def compareVersions : Nat → Text → Text → Ordering
  | 0, _, _ => .eq
  | fuel + 1, s, t =>
    if s.isEmpty && t.isEmpty then .eq
    else
      let other (t : Text) : Bool := (t.head?.map fun c => !c.isDigit).getD false
      if other s || other t then
        let rank (t : Text) : Int := (t.head?.map versionRank).getD (-1)
        (compare (rank s) (rank t)).then (compareVersions fuel s.tail t.tail)
      else
        let m := s.takeWhile Char.isDigit
        let n := t.takeWhile Char.isDigit
        (compare (Scan.readDigits 10 m) (Scan.readDigits 10 n)).then
          (compareVersions fuel (s.drop m.length) (t.drop n.length))

def withoutEndings (t : Text) : Text :=
  let isEnding (p : Text) : Bool := match p with
    | c :: more => (c.isAlpha || c == '~') && more.all fun c => c.isAlphanum || c == '~'
    | [] => false
  match splitWhere (· == '.') t with
  | first :: rest =>
    let kept := trimRightWhere isEnding rest
    ['.'].intercalate (first :: kept)
  | [] => []

def compareFileVersions (s t : Text) : Ordering :=
  let special (t : Text) : Nat :=
    if t.isEmpty then 0 else if t == ['.'] then 1 else if t == ['.', '.'] then 2
    else if t.head? == some '.' then 3 else 4
  let size := s.length + t.length + 1
  (compare (special s) (special t)).then
    ((compareVersions size (withoutEndings s) (withoutEndings t)).then (compareVersions size s t))

/-! ## Ways of comparing -/

/-- The way of comparing that some letters ask for, without the direction. -/
def compareBy (letters : Text) : Text → Text → Ordering :=
  if letters.contains 'n' then compareNumbers
  else if letters.contains 'g' then compareReals
  else if letters.contains 'h' then compareSizes
  else if letters.contains 'M' then fun s t => compare (monthOf s) (monthOf t)
  else if letters.contains 'V' then compareFileVersions
  else
    let keep (c : Char) : Bool :=
      if letters.contains 'd' then c.isAlphanum || c == ' ' || c == '\t'
      else !letters.contains 'i' || isShown c
    let view (t : Text) : Text :=
      let t := if letters.contains 'd' || letters.contains 'i' then t.filter keep else t
      if letters.contains 'f' then t.map Char.toUpper else t
    fun s t => compareTexts (view s) (view t)

/-- A part of a line that it is compared by. -/
structure SortKey where
  startField : Nat := 0
  startChar : Nat := 0
  last : Option (Nat × Nat) := none
  letters : Text := []
  skipStart : Bool := false
  skipEnd : Bool := false

namespace SortKey

def skipField (tab : Option Char) (t : Text) : Text :=
  match tab with
  | some c => t.dropWhile (· != c)
  | none => (t.dropWhile isGap).dropWhile fun c => !isGap c

/-- What is left of a line behind so many fields, where the last separator is left if `keep`. -/
def behindFields (tab : Option Char) (keep : Bool) : Nat → Text → Text
  | 0, t => t
  | n + 1, t =>
    let after := skipField tab t
    behindFields tab keep n (if tab.isSome && (n ≠ 0 || !keep) then after.tail else after)

def part (k : SortKey) (tab : Option Char) (line : Text) : Text :=
  let most := line.length + 1
  let start := behindFields tab false (min k.startField most) line
  let start := if k.skipStart then start.dropWhile isGap else start
  let start := start.drop k.startChar
  match k.last with
  | none => start
  | some (field, chars) =>
    let rest := if chars = 0 then behindFields tab true (min (field + 1) most) line
      else
        let rest := behindFields tab false (min field most) line
        let rest := if k.skipEnd then rest.dropWhile isGap else rest
        rest.drop chars
    start.take (start.length - rest.length)

def compare (k : SortKey) (s t : Text) : Ordering :=
  let o := compareBy k.letters s t
  if k.letters.contains 'r' then o.swap else o

def orderLetters : Text := "bdfghiMnRrV".toList

def conflict? (letters : Text) : Option Text :=
  let has (c : Char) : Nat := if letters.contains c then 1 else 0
  let others := if "VRdi".toList.any letters.contains then 1 else 0
  if 1 < has 'n' + has 'g' + has 'h' + has 'M' + others then
    some (orderLetters.filter fun c => letters.contains c && c != 'b' && c != 'r')
  else none

def readCount (what : String) (t : Text) : Except String (Nat × Text) :=
  let digits := t.takeWhile Char.isDigit
  if digits.isEmpty then .error (what ++ ": invalid count at start of " ++ quoted t)
  else .ok (Scan.readDigits 10 digits, t.drop digits.length)

def read (t : Text) : Except String SortKey := do
  let wrong (what : String) : String := what ++ ": invalid field specification " ++ quoted t
  let takeLetters (t : Text) : Text × Text :=
    (t.takeWhile orderLetters.contains, t.dropWhile orderLetters.contains)
  let (field, rest) ← readCount "invalid number at field start" t
  if field = 0 then throw (wrong "field number is zero")
  let (char, rest) ← match rest with
    | '.' :: more => do
      let (char, rest) ← readCount "invalid number after '.'" more
      if char = 0 then throw (wrong "character offset is zero")
      pure (char - 1, rest)
    | _ => pure (0, rest)
  let (letters, rest) := takeLetters rest
  let k : SortKey :=
    { startField := field - 1, startChar := char, letters := letters.filter (· != 'b')
      skipStart := letters.contains 'b' }
  match rest with
  | [] => return k
  | ',' :: more => do
    let (field, rest) ← readCount "invalid number after ','" more
    if field = 0 then throw (wrong "field number is zero")
    let (char, rest) ← match rest with
      | '.' :: more => readCount "invalid number after '.'" more
      | _ => pure (0, rest)
    let (letters, rest) := takeLetters rest
    if !rest.isEmpty then throw (wrong "stray character in field spec")
    return { k with
      last := some (field - 1, char), skipEnd := letters.contains 'b'
      letters := k.letters ++ letters.filter (· != 'b') }
  | _ => throw (wrong "stray character in field spec")

end SortKey

end Judge.Tools
