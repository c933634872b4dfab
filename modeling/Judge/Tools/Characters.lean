import Judge.Shell.Format
import Judge.Tools.Option

/-!
# Tools/Characters — sets of characters, and exchanging them

A set is written as a row of characters, in which ranges, classes and repetitions may stand.  Its
order matters: a character of one set becomes the one at the same place of another.
-/

namespace Judge.Tools

open Shell (Text ofBytes toBytes)

/-! ## Classes -/

def everyChar : Text := (List.range 256).map Char.ofNat

def charClasses : List (String × (Char → Bool)) :=
  let visible (c : Char) : Bool := '!' ≤ c && c ≤ '~'
  [("alnum", Char.isAlphanum), ("alpha", Char.isAlpha), ("blank", fun c => c == ' ' || c == '\t'),
   ("cntrl", fun c => c < ' ' || c == '\x7f'), ("digit", Char.isDigit), ("graph", visible),
   ("lower", Char.isLower), ("print", fun c => c == ' ' || visible c),
   ("punct", fun c => visible c && !c.isAlphanum), ("space", Scan.isSpace),
   ("upper", Char.isUpper), ("xdigit", Scan.isDigitIn 16)]

/-! ## Writing a set -/

/-- A part of a set. -/
inductive SetPart where
  | one (c : Char)
  | range (first last : Char)
  | ofClass (name : String)
  | repeated (c : Char) (count : Option Nat)
deriving DecidableEq, Repr

/-- A text with backslashes resolved; the flag tells which characters had one. -/
def unquoteSet : Nat → Text → List (Char × Bool) → List (Char × Bool)
  | 0, _, done => done.reverse
  | fuel + 1, t, done =>
    match t with
    | [] => done.reverse
    | ['\\'] => unquoteSet fuel [] (('\\', false) :: done)
    | '\\' :: c :: rest =>
      if Shell.Format.isOctal c then
        let digits := ((c :: rest).take 3).takeWhile Shell.Format.isOctal
        let digits := if Scan.readDigits 8 digits < 256 then digits else digits.take 2
        unquoteSet fuel ((c :: rest).drop digits.length)
          ((Shell.Format.octalChar digits, true) :: done)
      else
        let known := Shell.Format.escapes.filter fun e => e.1 != 'e'
        unquoteSet fuel rest (((known.lookup c).getD c, true) :: done)
    | c :: rest => unquoteSet fuel rest ((c, false) :: done)

def repeatCount? (ds : Text) : Option Nat :=
  if ds.isEmpty then some 0
  else if ds.head? == some '0' then
    if ds.all Shell.Format.isOctal then some (Scan.readDigits 8 ds) else none
  else nat? ds

def upToClose (mark : Char) : List (Char × Bool) → Text →
    Option (Text × List (Char × Bool))
  | (a, false) :: (']', false) :: rest, done =>
    if a == mark then some (done.reverse, rest)
    else upToClose mark ((']', false) :: rest) (a :: done)
  | (a, _) :: rest, done => upToClose mark rest (a :: done)
  | [], _ => none

def shownChar (c : Char) : Text := if isShown c then [c] else '\\' :: octalDigits c

def bracketPart (t : List (Char × Bool)) : Except String (Option (SetPart × List (Char × Bool))) :=
  match t with
  | ('[', false) :: (':', false) :: rest =>
    match upToClose ':' rest [] with
    | some (name, after) =>
      let name := String.ofList name
      if name.isEmpty then .error "missing character class name '[::]'"
      else if (charClasses.lookup name).isSome then .ok (some (.ofClass name, after))
      else .error ("invalid character class '" ++ name ++ "'")
    | none => .ok none
  | ('[', false) :: ('=', false) :: rest =>
    match upToClose '=' rest [] with
    | some ([c], after) => .ok (some (.one c, after))
    | some ([], _) => .error "missing equivalence class character '[==]'"
    | some (several, _) =>
      .error (str several ++ ": equivalence class operand must be a single character")
    | none => .ok none
  | ('[', false) :: (c, _) :: ('*', false) :: rest =>
    let digits := rest.takeWhile fun e => !e.2 && e.1 != ']'
    match rest.drop digits.length with
    | (']', false) :: after =>
      let ds := digits.map (·.1)
      match repeatCount? ds with
      | some n => .ok (some (.repeated c (if n = 0 then none else some n), after))
      | none => .error ("invalid repeat count " ++ quoted ds ++ " in [c*n] construct")
    | _ => .ok none
  | _ => .ok none

def setParts : Nat → List (Char × Bool) → List SetPart → Except String (List SetPart)
  | 0, _, done => .ok done.reverse
  | fuel + 1, t, done => do
    match t with
    | [] => return done.reverse
    | (c, _) :: rest =>
      match ← bracketPart t with
      | some (part, after) => setParts fuel after (part :: done)
      | none =>
        match rest with
        | ('-', false) :: (d, _) :: after =>
          if d < c then
            throw ("range-endpoints of '" ++ str (shownChar c ++ '-' :: shownChar d) ++
              "' are in reverse collating sequence order")
          else setParts fuel after (.range c d :: done)
        | _ => setParts fuel rest (.one c :: done)

def readSet (t : Text) : Except String (List SetPart) :=
  setParts (t.length + 1) (unquoteSet (t.length + 1) t []) []

namespace SetPart

def chars : SetPart → Text
  | .one c => [c]
  | .range a b => (List.range (b.toNat + 1 - a.toNat)).map fun i => Char.ofNat (a.toNat + i)
  | .ofClass name => everyChar.filter ((charClasses.lookup name).getD fun _ => false)
  | .repeated c count => List.replicate (count.getD 0) c

def isCase : SetPart → Bool
  | .ofClass name => name == "lower" || name == "upper"
  | _ => false

def isClass : SetPart → Bool
  | .ofClass _ => true
  | _ => false

def isFiller : SetPart → Bool
  | .repeated _ none => true
  | _ => false

end SetPart

def setChars (parts : List SetPart) (room : Nat := 0) : Text :=
  let fixed := (parts.map fun p => p.chars.length).sum
  parts.flatMap fun p => match p with
    | .repeated c none => List.replicate (room - fixed) c
    | _ => p.chars

def caseStarts (parts : List SetPart) : List Nat :=
  (parts.foldl (fun (acc : Nat × List Nat) p =>
    (acc.1 + p.chars.length, if p.isCase then acc.1 :: acc.2 else acc.2)) (0, [])).2

/-! ## Exchanging -/

/-- What is done to characters: each becomes something or vanishes, and rows of some become one. -/
structure Exchange where
  image : Array (Option Char)
  squeezed : Array Bool

namespace Exchange

def nothing : Exchange :=
  ⟨(everyChar.map some).toArray, (List.replicate 256 false).toArray⟩

def deleting (e : Exchange) (set : Text) : Exchange :=
  { e with image := set.foldl (fun t c => t.setIfInBounds c.toNat none) e.image }

def squeezing (e : Exchange) (set : Text) : Exchange :=
  { e with squeezed := set.foldl (fun t c => t.setIfInBounds c.toNat true) e.squeezed }

def mapping (e : Exchange) (source target : Text) : Exchange :=
  { e with
    image := (source.zip target).foldl (fun t p => t.setIfInBounds p.1.toNat (some p.2)) e.image }

def apply (e : Exchange) : Text → Option Char → Text → Text
  | [], _, done => done.reverse
  | c :: rest, last, done =>
    match (e.image[c.toNat]?).getD (some c) with
    | none => e.apply rest last done
    | some d =>
      if last == some d && (e.squeezed[d.toNat]?).getD false then e.apply rest last done
      else e.apply rest (some d) (d :: done)

end Exchange

def exchangeOf (c : Choices) (sets : List Text) : Except String Exchange := do
  let complement := c.has "complement" || c.has "C"
  let delete := c.has "delete"
  let squeeze := c.has "squeeze-repeats"
  let first ← readSet (sets.headD [])
  if first.any SetPart.isFiller then
    throw "the [c*] repeat construct may not appear in string1"
  let named := setChars first
  let source := if complement then everyChar.filter fun c => !named.contains c else named
  match sets[1]? with
  | none =>
    let e := if delete then Exchange.nothing.deleting source else .nothing
    return if squeeze && !delete then e.squeezing source else e
  | some t =>
    let second ← readSet t
    if 1 < (second.filter SetPart.isFiller).length then
      throw "only one [c*] repeat construct may appear in string2"
    if delete then
      return (Exchange.nothing.deleting source).squeezing (setChars second)
    let target := setChars second source.length
    if second.any fun p => p.isClass && !p.isCase then
      throw ("when translating, the only character classes that may appear in\n" ++
        "string2 are 'upper' and 'lower'")
    if !complement && !(caseStarts second).all (caseStarts first).contains then
      throw "misaligned [:upper:] and/or [:lower:] construct"
    let cut := c.has "truncate-set1"
    if target.isEmpty && !cut then
      throw "when not truncating set1, string2 must be non-empty"
    if !cut && target.length < source.length && (second.getLast?.map (·.isClass)).getD false then
      throw ("when translating with string1 longer than string2,\n" ++
        "the latter string must not end with a character class")
    let padding := if cut then []
      else List.replicate (source.length - target.length) (target.getLast?.getD ' ')
    let e := Exchange.nothing.mapping source (target ++ padding)
    return if squeeze then e.squeezing target else e

def exchangeAll (r : Request) (e : Exchange) : Nat → Option Char → Program Nat
  | 0, _ => return 0
  | fuel + 1, last => do
    match ← Program.read 0 chunk with
    | .error err => r.fail ("read error: " ++ err.reason)
    | .ok data =>
      if data.isEmpty then return 0
      else
        let t := e.apply (ofBytes data) last []
        if ← r.print (toBytes t) then
          exchangeAll r e fuel (t.getLast?.or last)
        else return 1

def tr : Tool := withOptions
    "c,complement C d,delete s,squeeze-repeats t,truncate-set1" (fun r c => do
  let delete := c.has "delete"
  let squeeze := c.has "squeeze-repeats"
  let least := if delete == squeeze then 2 else 1
  let most := if delete && !squeeze then 1 else 2
  let tell (message : String) (more : String) : Program Nat := do
    r.complain message
    Tools.tell (more ++ r.hint)
    return 1
  let run (_ : Unit) : Program Nat := match exchangeOf c c.rest with
    | .error e => r.fail e
    | .ok e => exchangeAll r e patience none
  match c.rest with
  | [] => r.lacking
  | [one] =>
    if least = 2 then
      tell ("missing operand after " ++ quoted one) ("Two strings must be given when " ++
        (if squeeze then "both deleting and squeezing repeats" else "translating") ++ ".\n")
    else run ()
  | sets =>
    match sets.drop most with
    | extra :: _ =>
      tell ("extra operand " ++ quoted extra) (if sets.length = 2 then
        "Only one string may be given when deleting without squeezing repeats.\n" else "")
    | [] => run ()) true

end Judge.Tools
