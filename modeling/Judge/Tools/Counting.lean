import Judge.Tools.Option

/-!
# Tools/Counting — tools that count, and that write bytes as text
-/

namespace Judge.Tools

open Shell (Text ofBytes toBytes)

/-! ## Lines, words and bytes -/

/-- What is counted in a file. -/
structure Counts where
  lines : Nat := 0
  words : Nat := 0
  bytes : Nat := 0
  widest : Nat := 0

namespace Counts

/-- A count in progress: whether a word has begun, and the column of the line. -/
structure Progress where
  counts : Counts := {}
  inWord : Bool := false
  column : Nat := 0

def Progress.step (p : Progress) (b : UInt8) : Progress :=
  let c := { p.counts with bytes := p.counts.bytes + 1 }
  let ended (column : Nat) (c : Counts) : Progress :=
    { counts := { c with widest := max c.widest p.column }, column }
  if b = 0x0A then ended 0 { c with lines := c.lines + 1 }
  else if b = 0x0D || b = 0x0C then ended 0 c
  else if b = 0x09 then { counts := c, column := p.column / 8 * 8 + 8 }
  else if b = 0x20 then { counts := c, column := p.column + 1 }
  else if b = 0x0B then { counts := c, column := p.column }
  else if 0x20 < b && b < 0x7F then
    { counts := if p.inWord then c else { c with words := c.words + 1 }
      inWord := true, column := p.column + 1 }
  else { p with counts := c }

def ofBytes (data : Bytes) : Counts :=
  let p := data.foldl Progress.step {}
  { p.counts with widest := max p.counts.widest p.column }

def add (a b : Counts) : Counts :=
  ⟨a.lines + b.lines, a.words + b.words, a.bytes + b.bytes, max a.widest b.widest⟩

def chosen (k : Counts) (c : Choices) : List Nat :=
  let all := !(["lines", "words", "chars", "bytes", "max-line-length"].any c.has)
  (if all || c.has "lines" then [k.lines] else []) ++
  (if all || c.has "words" then [k.words] else []) ++
  (if c.has "chars" then [k.bytes] else []) ++
  (if all || c.has "bytes" then [k.bytes] else []) ++
  (if c.has "max-line-length" then [k.widest] else [])

end Counts

/-- The size of a regular file, or nothing for another one; what is not there counts nothing. -/
def sizeOf (t : Text) : Program (Option Nat) := do
  if t == ['-'] then
    match ← Program.perform (.look 0) with
    | .ok (.file _ _ n _) => return some n
    | .ok _ => return none
    | .error _ => return some 0
  else
    match ← Program.onFiles (.kind (path t)) with
    | .ok (.file _ n) => return some n
    | .ok _ => return none
    | .error _ => return some 0

def wc : Tool := withOptions
    "c,bytes m,chars l,lines w,words ,files0-from= L,max-line-length ,total=" fun r c => do
  let files := orInput c.rest
  let totals := ["auto", "always", "only", "never"]
  let total := String.ofList ((c.last? "total").getD "auto".toList)
  match totals.filter fun w => total.toList.isPrefixOf w.toList && !total.isEmpty with
  | [] => do
    r.complain ("invalid argument '" ++ total ++ "' for '--total'")
    tell ("Valid arguments are:\n" ++ String.join (totals.map fun w => "  - '" ++ w ++ "'\n") ++
      r.hint)
    return 1
  | total :: _ => do
    let columns := (Counts.chosen {} c).length
    let sizes ← files.mapM sizeOf
    let digits := (Nat.toDigits 10 ((sizes.map (·.getD 0)).sum)).length
    let width := if total == "only" || (files.length = 1 && columns = 1) then 1
      else if sizes.any Option.isNone then max 7 digits else digits
    let line (k : Counts) (name : Option Text) : Text :=
      [' '].intercalate ((k.chosen c).map (column width)) ++
        (match name with
          | some n => ' ' :: n
          | none => []) ++ ['\n']
    let display : Text → Program (Nat × Counts) := fun t => do
      let name := if c.rest.isEmpty then none else some t
      let visibly : Bool := total != "only"
      match ← readWhole t with
      | .ok data => do
        let k := Counts.ofBytes data
        if visibly then
          let good ← r.print (toBytes (line k name))
          return (if good then 0 else 1, k)
        else return (0, k)
      | .error (.closed e) => return (← r.refuseAt t e, {})
      | .error (.unread e) => do
        let shown := if c.rest.isEmpty then "'standard input'" else named t
        let code ← r.fail (shown ++ ": " ++ e.reason)
        if visibly then
          let _ ← r.print (toBytes (line {} name))
        return (code, {})
    let results ← files.mapM display
    let sum := results.foldl (fun k e => k.add e.2) ({} : Counts)
    let code := worst (results.map (·.1))
    if total == "only" then r.finish (line sum none) code
    else if total == "always" || (total == "auto" && 1 < files.length) then
      r.finish (line sum (some "total".toList)) code
    else return code

/-! ## Dumps -/

/-- How the items of a dump are written. -/
inductive DumpKind where
  | named
  | char
  | signed
  | unsigned
  | octal
  | hex
deriving DecidableEq, Repr

/-- One of the formats of a dump. -/
structure DumpFormat where
  kind : DumpKind
  size : Nat
  trailer : Bool := false

namespace DumpFormat

def width (f : DumpFormat) : Nat :=
  match f.kind with
  | .named | .char => 3
  | .hex => 2 * f.size
  | .octal => (8 * f.size + 2) / 3
  | .unsigned => (Nat.toDigits 10 (256 ^ f.size - 1)).length
  | .signed => (Nat.toDigits 10 (256 ^ f.size / 2)).length + 1

def charNames : List String :=
  ["nul", "soh", "stx", "etx", "eot", "enq", "ack", "bel", "bs", "ht", "nl", "vt", "ff", "cr", "so",
   "si", "dle", "dc1", "dc2", "dc3", "dc4", "nak", "syn", "etb", "can", "em", "sub", "esc", "fs",
   "gs", "rs", "us", "sp"]

def item (f : DumpFormat) (bytes : Bytes) : Text :=
  let n := bytes.reverse.foldl (fun n b => n * 256 + b.toNat) 0
  let zeros (base : Nat) : Text := padded '0' f.width (Nat.toDigits base n)
  match f.kind with
  | .hex => zeros 16
  | .octal => zeros 8
  | .unsigned => Nat.toDigits 10 n
  | .signed =>
    let limit := 256 ^ f.size
    (toString (if n < limit / 2 then (n : Int) else (n : Int) - limit)).toList
  | .named =>
    let k := n % 128
    if k = 127 then "del".toList
    else match charNames[k]? with
      | some name => name.toList
      | none => [Char.ofNat k]
  | .char =>
    let c := Char.ofNat n
    if c == '\x00' then ['\\', '0']
    else if isShown c then [c]
    else
      let e := octalEscape c
      if e.length = 2 then e else octalDigits c

end DumpFormat

def readDumpType (whole : Text) : Nat → Text → List DumpFormat → Except String (List DumpFormat)
  | 0, _, done => .ok done.reverse
  | fuel + 1, t, done =>
    match t with
    | [] => .ok done.reverse
    | letter :: rest => do
      let sized (kind : DumpKind) : Except String (List DumpFormat) := do
        let digits := rest.takeWhile Char.isDigit
        let (size, after) := match digits, rest with
          | [], 'C' :: after => (1, after)
          | [], 'S' :: after => (2, after)
          | [], 'I' :: after => (4, after)
          | [], 'L' :: after => (8, after)
          | [], _ => (4, rest)
          | _, _ => (Scan.readDigits 10 digits, rest.drop digits.length)
        if !([1, 2, 4, 8].contains size) then
          throw ("invalid type string " ++ quoted whole ++ ";\nthis system doesn't provide a " ++
            toString size ++ "-byte integral type")
        let z := after.head? == some 'z'
        readDumpType whole fuel (if z then after.tail else after) (⟨kind, size, z⟩ :: done)
      let plain (kind : DumpKind) : Except String (List DumpFormat) :=
        let z := rest.head? == some 'z'
        readDumpType whole fuel (if z then rest.tail else rest) (⟨kind, 1, z⟩ :: done)
      match letter with
      | 'a' => plain .named
      | 'c' => plain .char
      | 'd' => sized .signed
      | 'o' => sized .octal
      | 'u' => sized .unsigned
      | 'x' => sized .hex
      | c => throw ("invalid character '" ++ str [c] ++ "' in type string " ++ quoted whole)

def dumpFormats (c : Choices) : Except String (List DumpFormat) := do
  let short : List (String × String) :=
    [("a", "a"), ("b", "o1"), ("c", "c"), ("d", "u2"), ("i", "dI"), ("l", "dL"), ("o", "o2"),
     ("s", "d2"), ("x", "x2"), ("h", "x2")]
  let lists ← c.given.filterMapM fun e => do
    let text := if e.1 == "format" then some e.2 else (short.lookup e.1).map (·.toList)
    match text with
    | some t => return some (← readDumpType t (t.length + 1) t [])
    | none => return none
  return if lists.isEmpty then [⟨.octal, 2, false⟩] else lists.flatten

/-- How a dump is written. -/
structure Dump where
  formats : List DumpFormat
  base : Char
  perLine : Nat
  all : Bool

namespace Dump

def address (d : Dump) (n : Nat) : Text :=
  let digits (base width : Nat) : Text := padded '0' width (Nat.toDigits base n)
  match d.base with
  | 'd' => digits 10 7
  | 'x' => digits 16 6
  | 'n' => []
  | _ => digits 8 7

def lineWidth (d : Dump) : Nat :=
  (d.formats.map fun f => (f.width + 1) * (d.perLine / f.size)).foldl max 0

def items (d : Dump) (f : DumpFormat) (block : Bytes) : Text :=
  let fields := d.perLine / f.size
  let pad := d.lineWidth - f.width * fields
  let given := (block.length + f.size - 1) / f.size
  let full := block ++ List.replicate (given * f.size - block.length) 0
  (List.range given).flatMap fun i =>
    let gap := pad * (fields - i) / fields - pad * (fields - i - 1) / fields
    padded ' ' (gap + f.width) (f.item ((full.drop (i * f.size)).take f.size))

def block (d : Dump) (n : Nat) (block : Bytes) : Text :=
  (d.formats.zip (List.range d.formats.length)).flatMap fun (f, i) =>
    let front := d.address n
    let items := d.items f block
    let behind := if f.trailer then
        List.replicate (d.lineWidth - items.length) ' ' ++ "  >".toList ++
          (ofBytes block).map (fun c => if isShown c then c else '.') ++ ['<']
      else []
    (if i = 0 then front else List.replicate front.length ' ') ++ items ++ behind ++ ['\n']

/-- All blocks; one that repeats the block before is left out, and a star stands for several. -/
def blocks (d : Dump) : Nat → Nat → Bytes → Option Bytes → Bool → List Text → List Text
  | 0, _, _, _, _, done => done.reverse
  | fuel + 1, n, data, last, starred, done =>
    if data.isEmpty then
      (if d.base == 'n' then done else (d.address n ++ ['\n']) :: done).reverse
    else
      let now := data.take d.perLine
      let rest := data.drop d.perLine
      if !d.all && last == some now then
        d.blocks fuel (n + now.length) rest last true
          (if starred then done else ['*', '\n'] :: done)
      else d.blocks fuel (n + now.length) rest (some now) false (d.block n now :: done)

end Dump

def od : Tool := withOptions
    ("A,address-radix= j,skip-bytes= N,read-bytes= t,format= v,output-duplicates w,width? " ++
     "a b c d i " ++
     "l o s x h") fun r c => do
  let number (name : String) (default : Nat) : Option Nat :=
    match c.last? name with
    | none => some default
    | some [] => some 32
    | some ('0' :: 'x' :: ds) => some (Scan.readDigits 16 ds)
    | some t => if startsInDigit t then amount? t else none
  let base := (c.last? "address-radix").getD ['o']
  let wrong (letter name : String) : Program Nat :=
    r.fail ("invalid -" ++ letter ++ " argument " ++ quoted ((c.last? name).getD []))
  match dumpFormats c with
  | .error e => r.fail e
  | .ok formats =>
    match number "skip-bytes" 0, number "read-bytes" 0, number "width" 0 with
    | none, _, _ => wrong "j" "skip-bytes"
    | _, none, _ => wrong "N" "read-bytes"
    | _, _, none => wrong "w" "width"
    | some skip, some most, some width =>
      if !(["d", "o", "x", "n"].contains (String.ofList base)) then
        r.fail ("invalid output address radix '" ++ str (base.take 1) ++
          "'; it must be one character from [doxn]")
      else do
        let (data, good) ← inputs r c.rest
        let unit := (formats.map (·.size)).foldl max 1
        let perLine := if c.has "width" then (if width % unit = 0 && width ≠ 0 then width else unit)
          else 16
        if !good && data.isEmpty then return 1
        else if data.length < skip then r.fail "cannot skip past end of combined input"
        else
          let data := data.drop skip
          let data := if c.has "read-bytes" then data.take most else data
          let d : Dump := ⟨formats, base.headD 'o', perLine, c.has "output-duplicates"⟩
          r.finish (d.blocks (data.length + 1) skip data none false []).flatten
            (if good then 0 else 1)

end Judge.Tools
