import Judge.Tools.Collation

/-!
# Tools/Sorting — tools that put lines in order

They sort lines, and drop those that repeat.
-/

namespace Judge.Tools

open Shell (Text ofBytes toBytes)

/-! ## Sorting -/

/-- How lines are sorted. -/
structure LineOrder where
  keys : List SortKey
  tab : Option Char
  reversed : Bool
  stable : Bool
  unique : Bool

/-- A line with the parts that it is compared by. -/
structure KeyedLine where
  line : Text
  parts : List Text

namespace LineOrder

variable (o : LineOrder)

def keyed (line : Text) : KeyedLine := ⟨line, o.keys.map fun k => k.part o.tab line⟩

def byKeys (a b : KeyedLine) : Ordering :=
  (o.keys.zip (a.parts.zip b.parts)).foldl (fun done e => done.then (e.1.compare e.2.1 e.2.2)) .eq

def compare (a b : KeyedLine) : Ordering :=
  let lines (_ : Unit) : Ordering :=
    let c := compareTexts a.line b.line
    if o.reversed then c.swap else c
  if o.keys.isEmpty then lines ()
  else match o.byKeys a b with
    | .eq => if o.stable || o.unique then .eq else lines ()
    | c => c

def distinct (lines : List KeyedLine) : List KeyedLine :=
  (lines.foldl (fun (done : List KeyedLine) l => match done with
    | m :: _ => if (o.compare m l).isEq then done else l :: done
    | [] => [l]) []).reverse

/-- **Lines in order**, those that are equal as they came. -/
def sort (lines : List Text) : List Text :=
  let sorted := (lines.map o.keyed).mergeSort fun a b => (o.compare a b).isLE
  (if o.unique then o.distinct sorted else sorted).map (·.line)

def merge (o : LineOrder) (files : List (List Text)) : List Text :=
  let merged := files.foldl (fun (done : List KeyedLine) lines =>
    done.merge (lines.map o.keyed) fun a b => (o.compare a b).isLE) []
  (if o.unique then o.distinct merged else merged).map (·.line)

def disorder? (o : LineOrder) : Nat → List KeyedLine → Option (Nat × Text)
  | n, a :: b :: rest =>
    let c := o.compare a b
    if c.isGT || (o.unique && c.isEq) then some (n + 1, b.line) else o.disorder? (n + 1) (b :: rest)
  | _, _ => none

end LineOrder

def orderOptions : List (String × Char) :=
  [("ignore-leading-blanks", 'b'), ("dictionary-order", 'd'), ("ignore-case", 'f'),
   ("general-numeric-sort", 'g'), ("human-numeric-sort", 'h'), ("ignore-nonprinting", 'i'),
   ("month-sort", 'M'), ("numeric-sort", 'n'), ("random-sort", 'R'), ("reverse", 'r'),
   ("version-sort", 'V')]

def sortWords : List (String × Char) :=
  [("general-numeric", 'g'), ("human-numeric", 'h'), ("month", 'M'), ("numeric", 'n'),
   ("random", 'R'), ("version", 'V')]

def lineOrder (c : Choices) : Except String LineOrder := do
  let tab ← match c.all "field-separator" with
    | [] => pure none
    | [] :: _ => throw "empty tab"
    | t :: more => do
      let t := if t == ['\\', '0'] then ['\x00'] else t
      if 1 < t.length then throw ("multi-character tab " ++ quoted t)
      if more.any (· != t) then throw "incompatible tabs"
      pure t.head?
  let words := (c.all "sort").filterMap fun w => sortWords.lookup (String.ofList w)
  let letters := c.given.filterMap (fun e => orderOptions.lookup e.1) ++ words
  let own ← (c.all "key").mapM SortKey.read
  let inherit (k : SortKey) : SortKey :=
    if k.letters.isEmpty && !k.skipStart && !k.skipEnd then
      { k with
        letters := letters.filter (· != 'b'), skipStart := letters.contains 'b'
        skipEnd := letters.contains 'b' }
    else k
  let plain := letters.all (· == 'r')
  let keys := if own.isEmpty then
      if plain then [] else [inherit {}]
    else own.map inherit
  match (letters :: keys.map (·.letters)).findSome? SortKey.conflict? with
  | some ls => throw ("options '-" ++ String.ofList ls ++ "' are incompatible")
  | none =>
    return { keys, tab, reversed := letters.contains 'r', stable := c.has "stable",
             unique := c.has "unique" }

def sortInputs (ending : Char) (files : List Text) :
    Program (Except String (List (List Text))) := do
  let missing ← files.filterMapM fun t => do
    if t == ['-'] then return none
    else match ← Program.onFiles (.kind (path t)) with
      | .ok _ => return none
      | .error e => return some ("cannot read: " ++ plainTelling t (.closed e))
  match missing with
  | e :: _ => return .error e
  | [] =>
    let mut done : List (List Text) := []
    for t in files do
      match ← readWhole t with
      | .ok data => done := linesOf ending data :: done
      | .error o =>
        let what := match o with
          | .closed _ => "cannot read: "
          | .unread e => if e = .badDescriptor then "stat failed: " else "read failed: "
        return .error (what ++ plainTelling t o)
    return .ok done.reverse

def checkOrder (r : Request) (o : LineOrder) (quiet : Bool) (name : Text) (lines : List Text) :
    Program Nat := do
  match o.disorder? 1 (lines.map o.keyed) with
  | none => return 0
  | some (n, line) =>
    if quiet then return 1
    else r.fail (str name ++ ":" ++ toString n ++ ": disorder: " ++ str line)

/-- Writes a text to a file, as far as it goes. -/
def writeFile (t text : Text) : Program (Except OsError Unit) := do
  match ← Program.openFile (path t) .write with
  | .error e => return .error e
  | .ok fd => do
    let _ ← Program.writeAll fd (toBytes text)
    Program.close fd
    return .ok ()

def sort : Tool := withOptions
    ("b,ignore-leading-blanks d,dictionary-order f,ignore-case g,general-numeric-sort " ++
     "h,human-numeric-sort i,ignore-nonprinting M,month-sort n,numeric-sort R,random-sort " ++
     "r,reverse ,sort= V,version-sort c ,check? C ,debug k,key= m,merge o,output= s,stable " ++
     "S,buffer-size= t,field-separator= T,temporary-directory= ,parallel= u,unique " ++
     "z,zero-terminated ,batch-size= ,compress-program= ,files0-from= " ++
     ",random-source=") (fun r c => do
  let ending := c.ending "zero-terminated"
  let files := orInput c.rest
  let told := c.has "c" || c.has "check"
  let letter := if c.has "C" then "C" else "c"
  let quietly := c.has "C" || (c.last? "check").any fun w =>
    ["quiet", "silent"].contains (String.ofList w)
  match lineOrder c with
  | .error e => r.fail e 2
  | .ok o =>
    if told && c.has "C" then r.fail "options '-cC' are incompatible" 2
    else if (told || c.has "C") && c.has "output" then
      r.fail ("options '-" ++ letter ++ "o' are incompatible") 2
    else if (told || c.has "C") && 1 < files.length then
      r.fail ("extra operand " ++ quoted (files.getD 1 []) ++ " not allowed with -" ++ letter) 2
    else match ← sortInputs ending files with
      | .error e => r.fail e 2
      | .ok lists =>
        if told || c.has "C" then
          checkOrder r o quietly (files.headD []) lists.flatten
        else
          let lines := if c.has "merge" then o.merge lists else o.sort lists.flatten
          let text := unlines ending lines
          match c.last? "output" with
          | none => r.finish text 0 2
          | some t =>
            match ← writeFile t text with
            | .error e => r.fail ("open failed: " ++ named t ++ ": " ++ e.reason) 2
            | .ok () => return 0) false 2

/-! ## Lines that repeat -/

/-- Which part of lines is compared for repetition. -/
structure LineView where
  fields : Nat
  chars : Nat
  width : Option Nat
  fold : Bool

def LineView.of (v : LineView) (l : Text) : Text :=
  let rec skip : Nat → Text → Text
    | 0, t => t
    | n + 1, t => skip n ((t.dropWhile isGap).dropWhile fun c => !isGap c)
  let t := (skip (min v.fields (l.length + 1)) l).drop v.chars
  let t := t.take (v.width.getD t.length)
  if v.fold then t.map Char.toUpper else t

def repetitions (v : LineView) (lines : List Text) : List (List Text) :=
  let step (done : List (Text × List Text)) (l : Text) : List (Text × List Text) :=
    let key := v.of l
    match done with
    | (k, group) :: more => if k == key then (k, l :: group) :: more else (key, [l]) :: done
    | [] => [(key, [l])]
  ((lines.foldl step []).map fun e => e.2.reverse).reverse

def obsoleteUniq (args : List Text) : List Text :=
  args.map fun t => match t with
    | '-' :: c :: more => if (c :: more).all Char.isDigit then '-' :: 'f' :: c :: more else t
    | '+' :: c :: more => if (c :: more).all Char.isDigit then '-' :: 's' :: c :: more else t
    | _ => t

def uniq : Tool := fun r => withOptions
    ("c,count d,repeated D ,all-repeated? ,group? f,skip-fields= i,ignore-case s,skip-chars= " ++
     "u,unique w,check-chars= z,zero-terminated") (fun r c => do
  let number (name what : String) : Except String (Option Nat) :=
    match c.last? name with
    | none => .ok none
    | some t => match nat? t with
      | some n => .ok (some n)
      | none => .error (str t ++ ": invalid number of " ++ what)
  let view : Except String LineView := do
    let fields ← number "skip-fields" "fields to skip"
    let chars ← number "skip-chars" "bytes to skip"
    let width ← number "check-chars" "bytes to compare"
    return ⟨fields.getD 0, chars.getD 0, width, c.has "ignore-case"⟩
  let all := c.has "D" || c.has "all-repeated"
  match view, c.rest.drop 2 with
  | .error e, _ => r.fail e
  | _, extra :: _ => r.burdened extra
  | .ok view, [] =>
    if all && c.has "count" then
      r.misused "printing all duplicated lines and repeat counts is meaningless"
    else if c.has "group" && (all || c.has "count" || c.has "repeated" || c.has "unique") then
      r.misused "--group is mutually exclusive with -c/-d/-D/-u"
    else
    let ending := c.ending "zero-terminated"
    let source := c.rest.headD ['-']
    match ← readWhole source with
    | .error (.closed e) => r.refuseAt source e
    | .error (.unread e) => r.refuse "error reading " source e
    | .ok data =>
      let groups := repetitions view (linesOf ending data)
      let kept := groups.filter fun g =>
        (!(c.has "repeated" || all) || 1 < g.length) && (!c.has "unique" || g.length = 1)
      let lines := if c.has "group" then
          let method := c.word "group"
          let joined := [[]].intercalate kept
          (if method == "prepend" || method == "both" then [[]] else []) ++ joined ++
            (if method == "append" || method == "both" then [[]] else [])
        else if all then
          match c.word "all-repeated" with
          | "prepend" => kept.flatMap fun g => [] :: g
          | "separate" => [[]].intercalate kept
          | _ => kept.flatten
        else kept.map fun g =>
          (if c.has "count" then column 7 g.length ++ [' '] else []) ++ g.headD []
      let text := unlines ending lines
      match c.rest[1]? with
      | none | some ['-'] => r.finish text
      | some t =>
        match ← writeFile t text with
        | .error e => r.refuseAt t e
        | .ok () => return 0) false 1 { r with args := obsoleteUniq r.args }

end Judge.Tools
