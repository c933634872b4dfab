import Judge.Tools.Option

/-!
# Tools/Copying — tools that pass data on

They copy everything or a part of it, in order or backwards, to the standard output or to files.
-/

namespace Judge.Tools

open Program (close drain onFiles openFile perform writeAll)

open Shell (Text ofBytes toBytes)

/-! ## Whole files -/

/-- Copies everything from one descriptor to others, and tells which side failed. -/
def pump (source : Descriptor) (targets : List Descriptor) :
    Nat → Program (Except (OsError ⊕ OsError) Unit)
  | 0 => return .ok ()
  | fuel + 1 => do
    match ← Program.read source chunk with
    | .error e => return .error (.inl e)
    | .ok data =>
      if data.isEmpty then return .ok ()
      else
        let results ← targets.mapM fun fd => writeAll fd data
        match results.find? fun r => r.toOption.isNone with
        | some (.error e) => return .error (.inr e)
        | _ => pump source targets fuel

/-- What of the standard output a file must not be, so that copying it has an end. -/
def isOutput (fd : Descriptor) : Program Bool := do
  let source ← perform (.look fd)
  let target ← perform (.look 1)
  match source, target with
  | .ok (.file (some p) offset size _), .ok (.file (some q) _ _ _) =>
    return p == q && decide (offset < size)
  | _, _ => return false

def copyOut (r : Request) (t : Text) : Program Nat := do
  match ← openInput t with
  | .error e => r.refuseAt t e
  | .ok fd => do
    if ← isOutput fd then
      closeInput fd
      r.fail (named t ++ ": input file is output file")
    else
      let result ← pump fd [1] patience
      closeInput fd
      match result with
      | .ok () => return 0
      | .error (.inl e) => r.refuseAt t e
      | .error (.inr e) => do
        r.complain ("write error: " ++ e.reason)
        Program.call (.exit 1) fun e => nomatch e

def visible (c : Char) : Text :=
  let low (n : Nat) : Text :=
    if n < 32 then ['^', Char.ofNat (n + 64)] else if n == 127 then ['^', '?'] else [Char.ofNat n]
  if c == '\n' || c == '\t' then [c]
  else if c.toNat < 128 then low c.toNat
  else 'M' :: '-' :: low (c.toNat - 128)

/-- How lines are decorated. -/
structure Decoration where
  numbers : Bool
  numbersUnlessBlank : Bool
  squeeze : Bool
  ends : Bool
  tabs : Bool
  all : Bool

def Decoration.line (d : Decoration) (l : Text) : Text :=
  let ended := l.getLast? == some '\n'
  let body := if ended then l.dropLast else l
  let display (c : Char) : Text :=
    if c == '\t' && d.tabs then ['^', 'I'] else if d.all then visible c else [c]
  let shown := body.flatMap display
  if !ended then shown
  else if !d.ends then shown ++ ['\n']
  else if body.getLast? == some '\r' && !d.all then shown.dropLast ++ "^M$\n".toList
  else shown ++ ['$', '\n']

/-- Decorates lines; `n` is the number of the next one, and `blank` tells whether the one before was
empty. -/
def Decoration.lines (d : Decoration) : List Text → Nat → Bool → List Text → List Text
  | [], _, _, done => done.reverse
  | l :: rest, n, blank, done =>
    let empty := l == ['\n']
    if d.squeeze && empty && blank then d.lines rest n true done
    else
      let numbered := if d.numbersUnlessBlank then !empty else d.numbers
      let front := if numbered then column 6 n ++ ['\t'] else []
      d.lines rest (if numbered then n + 1 else n) empty ((front ++ d.line l) :: done)

def cat : Tool := withOptions
    ("b,number-nonblank n,number s,squeeze-blank v,show-nonprinting E,show-ends T,show-tabs " ++
     "A,show-all e t u")
    fun r c => do
  let files := orInput c.rest
  if c.given.all fun e => e.1 == "u" then
    match ← perform (.look 1) with
    | .error e => r.fail ("standard output: " ++ e.reason)
    | .ok _ => each files (copyOut r)
  else
    let (data, good) ← gather r plainTelling files
    let d : Decoration :=
      { numbers := c.has "number", numbersUnlessBlank := c.has "number-nonblank"
        squeeze := c.has "squeeze-blank"
        ends := c.has "show-ends" || c.has "show-all" || c.has "e"
        tabs := c.has "show-tabs" || c.has "show-all" || c.has "t"
        all := c.has "show-nonprinting" || c.has "show-all" || c.has "e" || c.has "t" }
    let lines := d.lines (cutBehind '\n' (ofBytes data)) 1 false []
    r.finish lines.flatten (if good then 0 else 1)

/-- Some data cut at each occurrence of a separator, which belongs to the piece before it, or with
`before` to the one after it. -/
def cutAtWord (separator : Text) (before : Bool) : Nat → Text → List Text → List Text
  | 0, t, done => t :: done
  | fuel + 1, t, done =>
    match cutAt separator t with
    | none => t :: done
    | some (front, rest) =>
      if before then
        match cutAtWord separator before fuel rest [] with
        | last => last.dropLast ++ [separator ++ last.getLast?.getD []] ++ front :: done
      else cutAtWord separator before fuel rest ((front ++ separator) :: done)

def tac : Tool := withOptions "b,before r,regex s,separator=" fun r c => do
  let separator := (c.last? "separator").getD ['\n']
  each (orInput c.rest) fun t => do
    match ← readWhole t with
    | .error (.closed e) =>
      r.fail ("failed to open " ++ quoted t ++ " for reading: " ++ e.reason)
    | .error (.unread e) => r.fail (named t ++ ": read error: " ++ e.reason)
    | .ok data =>
      let t := ofBytes data
      r.finish (cutAtWord separator (c.has "before") (t.length + 1) t []).flatten

def tee : Tool := withOptions "a,append i,ignore-interrupts p" fun r c => do
  if c.has "ignore-interrupts" then perform (.onSignal Signal.int .ignore)
  let mode := if c.has "append" then OpenMode.append else OpenMode.write
  let opened ← c.rest.mapM fun t => do
    match ← openFile (path t) mode with
    | .ok fd => return some fd
    | .error e => do
      r.complain (named t ++ ": " ++ e.reason)
      return none
  match ← pump 0 (1 :: opened.filterMap fun fd => fd) patience with
  | .error (.inl e) => r.fail ("read error: " ++ e.reason)
  | .error (.inr e) => r.fail ("'standard output': " ++ e.reason)
  | .ok () => return if opened.any Option.isNone then 1 else 0

def yes : Tool := withOptions "" fun r c => do
  let line := (if c.rest.isEmpty then ['y'] else [' '].intercalate c.rest) ++ ['\n']
  let block := toBytes (List.replicate (max 1 (8192 / line.length)) line).flatten
  let rec go : Nat → Program Nat
    | 0 => return 0
    | fuel + 1 => do
      match ← writeAll 1 block with
      | .ok () => go fuel
      | .error e => r.fail ("standard output: " ++ e.reason)
  go patience

/-! ## The beginning -/

/-- How much of a file is wanted. -/
structure Extent where
  bytes : Bool := false
  count : Nat := 10
  otherEnd : Bool := false

def Extent.read (bytes : Bool) (sign : Char) (t : Text) : Except String Extent :=
  let (t, otherEnd) := match t with
    | c :: rest => if c == sign then (rest, true) else (t, false)
    | [] => (t, false)
  match amount? t with
  | some n => .ok { bytes, count := n, otherEnd }
  | none =>
    .error ("invalid number of " ++ (if bytes then "bytes" else "lines") ++ ": " ++ quoted t)

def blockSize : Nat := 8192

def linesLength (ending : UInt8) : Nat → Bytes → Nat → Nat × Nat
  | 0, _, done => (0, done)
  | n + 1, [], done => (n + 1, done)
  | n + 1, b :: rest, done =>
    if b == ending then linesLength ending n rest (done + 1)
    else linesLength ending (n + 1) rest (done + 1)

/-- Copies so many lines, and goes back to behind the last one. -/
def headLines (r : Request) (ending : UInt8) (fd : Descriptor) :
    Nat → Nat → Program (Except OsError Unit)
  | 0, _ | _, 0 => return .ok ()
  | fuel + 1, n => do
    match ← Program.read fd blockSize with
    | .error e => return .error e
    | .ok data =>
      if data.isEmpty then return .ok ()
      else
        let (left, size) := linesLength ending n data 0
        let _ ← r.print (data.take size)
        if left = 0 then
          let _ ← perform (.seek fd ((size : Int) - data.length))
          return .ok ()
        else headLines r ending fd fuel left

def headBytes (r : Request) (fd : Descriptor) : Nat → Nat → Program (Except OsError Unit)
  | 0, _ | _, 0 => return .ok ()
  | fuel + 1, n => do
    match ← Program.read fd (min n blockSize) with
    | .error e => return .error e
    | .ok data =>
      if data.isEmpty then return .ok ()
      else
        let _ ← r.print data
        headBytes r fd fuel (n - data.length)

/-- Copies everything but the end, and goes back to there. -/
def headExcept (r : Request) (e : Extent) (ending : UInt8) (fd : Descriptor) :
    Program (Except OsError Unit) := do
  match ← drain fd with
  | .error e => return .error e
  | .ok data => do
    let kept := if e.bytes then data.take (data.length - e.count)
      else
        let lines := cutBehind ending data
        (lines.take (lines.length - e.count)).flatten
    let _ ← r.print kept
    let _ ← perform (.seek fd ((kept.length : Int) - data.length))
    return .ok ()

def isHeaded (c : Choices) : Bool :=
  match c.lastOf ["quiet", "silent", "verbose"] with
  | some "verbose" => true
  | some _ => false
  | none => 1 < c.rest.length

def heading (t : Text) (first : Bool) : Text :=
  let name := if t == ['-'] then "standard input".toList else t
  (if first then [] else ['\n']) ++ "==> ".toList ++ name ++ " <==\n".toList

/-- A tool that shows a part of each file, with headings when there are several. -/
def inParts (r : Request) (c : Choices) (part : Descriptor → Program (Except OsError Unit)) :
    Program Nat := do
  let files := orInput c.rest
  let display : Text × Bool → Program (Nat × Bool) := fun (t, first) => do
    match ← openInput t with
    | .error e => return (← r.fail (longTelling t (.closed e)), first)
    | .ok fd => do
      if isHeaded c then
        let _ ← r.print (toBytes (heading t first))
      let result ← part fd
      closeInput fd
      match result with
      | .ok () => return (0, false)
      | .error e => return (← r.fail (longTelling t (.unread e)), false)
  let mut code := 0
  let mut first := true
  for t in files do
    let (n, f) ← display (t, first)
    code := max code n
    first := f
  return code

/-- A number with letters written as the first option, as `-5` or `-2c`. -/
def obsoleteCount (args : List Text) : List Text :=
  match args with
  | ('-' :: c :: more) :: rest =>
    if c.isDigit then
      let digits := c :: more.takeWhile Char.isDigit
      let letters := more.drop (digits.length - 1)
      let unit := letters.filter fun c => "bkm".toList.contains c
      let others := letters.filter fun c => "qvz".toList.contains c
      if letters.contains 'c' || !unit.isEmpty then
        ('-' :: 'c' :: digits ++ unit) :: (if others.isEmpty then rest else ('-' :: others) :: rest)
      else ('-' :: 'n' :: digits) :: (if others.isEmpty then rest else ('-' :: others) :: rest)
    else args
  | _ => args

def extentOf (c : Choices) (sign : Char) : Except String Extent :=
  match c.lastOf ["bytes", "lines"] with
  | some "bytes" => Extent.read true sign (c.value "bytes")
  | some _ => Extent.read false sign (c.value "lines")
  | none => .ok {}

def head : Tool := fun r =>
  withOptions "c,bytes= n,lines= q,quiet ,silent v,verbose z,zero-terminated" (fun r c => do
    match extentOf c '-' with
    | .error e => r.fail e
    | .ok e =>
      let ending : UInt8 := if c.has "zero-terminated" then 0 else 0x0A
      inParts r c fun fd =>
        if e.otherEnd then headExcept r e ending fd
        else if e.bytes then headBytes r fd patience e.count
        else headLines r ending fd patience e.count)
    false 1 { r with args := obsoleteCount r.args }

/-! ## Blocks -/

/-- What `dd` is told. -/
structure BlockCopy where
  source : Option Text := none
  target : Option Text := none
  inSize : Nat := 512
  outSize : Nat := 512
  direct : Bool := false
  count : Option Nat := none
  skip : Nat := 0
  seek : Nat := 0
  conversions : List String := []
  fullBlocks : Bool := false
  status : String := ""

def knownConversions : List String :=
  ["lcase", "ucase", "swab", "sync", "notrunc", "noerror", "excl", "nocreat", "fsync", "fdatasync",
   "sparse"]

def blockNumber? (t : Text) : Option Nat :=
  let factor (t : Text) : Option Nat := match t.reverse with
    | 'c' :: ds => nat? ds.reverse
    | 'w' :: ds => (nat? ds.reverse).map (2 * ·)
    | _ => if startsInDigit t then amount? t else none
  ((splitWhere (· == 'x') t).mapM factor).map fun ns => ns.foldl (· * ·) 1

variable (b : BlockCopy)

def BlockCopy.read (t : Text) : Except (String × Bool) BlockCopy := do
  let name := String.ofList (t.takeWhile (· != '='))
  let value := t.drop (name.length + 1)
  let number : Except (String × Bool) Nat := match blockNumber? value with
    | some n => .ok n
    | none => .error ("invalid number: " ++ quoted value, false)
  let size : Except (String × Bool) Nat := do
    let n ← number
    if n = 0 then throw ("invalid number: " ++ quoted value, false) else return n
  let words := (splitWhere (· == ',') value).map String.ofList
  match name with
  | "if" => return { b with source := some value }
  | "of" => return { b with target := some value }
  | "bs" =>
    let n ← size
    return { b with inSize := n, outSize := n, direct := true }
  | "ibs" => return { b with inSize := ← size }
  | "obs" => return { b with outSize := ← size }
  | "cbs" => do
    let _ ← size
    return b
  | "count" => return { b with count := some (← number) }
  | "skip" | "iseek" => return { b with skip := ← number }
  | "seek" | "oseek" => return { b with seek := ← number }
  | "status" => return { b with status := String.ofList value }
  | "iflag" => return { b with fullBlocks := words.contains "fullblock" }
  | "oflag" => return { b with
      conversions := b.conversions ++ if words.contains "append" then ["append"] else [] }
  | "conv" =>
    match words.find? fun w => !knownConversions.contains w with
    | some w => throw ("invalid conversion: '" ++ w ++ "'", true)
    | none => return { b with conversions := b.conversions ++ words }
  | _ => throw ("unrecognized operand " ++ quoted t, true)

def readBlock (fd : Descriptor) (size : Nat) (full : Bool) : Nat → Bytes →
    Program (Except OsError Bytes)
  | 0, done => return .ok done
  | fuel + 1, done => do
    match ← Program.read fd (size - done.length) with
    | .error e => return .error e
    | .ok data =>
      let done := done ++ data
      if !full || data.isEmpty || done.length = size then return .ok done
      else readBlock fd size full fuel done

def readBlocks (b : BlockCopy) (fd : Descriptor) : Nat → List Bytes → Program (List Bytes)
  | 0, done => return done.reverse
  | fuel + 1, done => do
    match ← readBlock fd b.inSize b.fullBlocks (b.inSize + 1) [] with
    | .error _ => return done.reverse
    | .ok data => if data.isEmpty then return done.reverse else readBlocks b fd fuel (data :: done)

def swapBytes : Bytes → Bytes
  | a :: b :: rest => b :: a :: swapBytes rest
  | rest => rest

def BlockCopy.convert (block : Bytes) : Bytes :=
  let block := if b.conversions.contains "sync" then
      block ++ List.replicate (b.inSize - block.length) 0
    else block
  let block := if b.conversions.contains "swab" then swapBytes block else block
  let onChars (f : Char → Char) : Bytes := toBytes ((ofBytes block).map f)
  if b.conversions.contains "ucase" then onChars Char.toUpper
  else if b.conversions.contains "lcase" then onChars Char.toLower
  else block

def piecesOf (size : Nat) : Nat → Bytes → List Bytes → List Bytes
  | 0, data, done => (data :: done).reverse
  | fuel + 1, data, done =>
    if data.isEmpty then done.reverse
    else piecesOf size fuel (data.drop size) (data.take size :: done)

def blockCounts (size : Nat) (blocks : List Bytes) : String :=
  let whole := (blocks.filter fun b => b.length = size).length
  toString whole ++ "+" ++ toString (blocks.length - whole)

/-- Opens the file that `dd` writes to, at the block where it starts. -/
def BlockCopy.openTarget : Program (Except OsError Descriptor) := do
  match b.target with
  | none => return .ok 1
  | some t =>
    if b.conversions.contains "excl" && (← Program.exists (path t)) then
      return .error .nameTaken
    else if b.conversions.contains "nocreat" && !(← Program.exists (path t)) then
      return .error .noEntry
    else match ← openFile (path t) .update with
      | .error e => return .error e
      | .ok fd => do
        unless b.conversions.contains "notrunc" do
          let _ ← perform (.resize fd (b.seek * b.outSize))
        return .ok fd

def BlockCopy.run (r : Request) : Program Nat := do
  let opened := match b.source with
    | some t => openFile (path t) .read
    | none => pure (.ok 0)
  r.asked opened "failed to open " (b.source.getD []) fun source => do
    r.asked b.openTarget "failed to open " (b.target.getD []) fun target => do
      match ← perform (.seek source (b.skip * b.inSize)) with
      | .ok _ => pure ()
      | .error _ => do
        let _ ← readBlocks { b with fullBlocks := true } source b.skip []
        pure ()
      let _ ← perform (.seek target (b.seek * b.outSize))
      let blocks ← readBlocks b source (b.count.getD patience) []
      let converted := blocks.map b.convert
      let written := if b.direct then converted
        else
          let all := converted.flatten
          piecesOf b.outSize all.length all []
      let data := written.flatten
      let result ← writeAll target data
      unless b.status == "none" do
        let size := if b.direct then b.inSize else b.outSize
        let counts := blockCounts b.inSize blocks ++ " records in\n" ++ blockCounts size written ++
          " records out\n"
        let total := if b.status == "noxfer" then ""
          else toString data.length ++ (if data.length = 1 then " byte" else " bytes") ++
            " copied, 1e-05 s, 0.0 kB/s\n"
        tell (counts ++ total)
      match result with
      | .ok () => return 0
      | .error e => r.fail ("error writing 'standard output': " ++ e.reason)

def dd : Tool := fun r => do
  let args := if r.args.head? == some ['-', '-'] then r.args.tail else r.args
  match args.foldlM BlockCopy.read {} with
  | .error (e, true) => r.misused e
  | .error (e, false) => r.fail e
  | .ok b => b.run r

/-! ## Sizes -/

/-- The size that a file is to have: given, or told by its present one. -/
def newSize (t : Text) (old : Nat) : Option Nat :=
  let (sign, digits) := match t with
    | c :: rest => if "+-<>/%".toList.contains c then (c, rest) else (' ', t)
    | [] => (' ', [])
  (if startsInDigit digits then amount? digits else none).bind fun n =>
    match sign with
    | '+' => some (old + n)
    | '-' => some (old - n)
    | '<' => some (min old n)
    | '>' => some (max old n)
    | '/' => if n = 0 then none else some (old / n * n)
    | '%' => if n = 0 then none else some ((old + n - 1) / n * n)
    | _ => some n

def truncate : Tool := withOptions "c,no-create o,io-blocks r,reference= s,size=" fun r c => do
  match c.last? "size", c.last? "reference" with
  | none, none => r.misused "you must specify either '--size' or '--reference'"
  | size, reference => do
    let base ← match reference with
      | some t => do
        match ← onFiles (.kind (path t)) with
        | .ok (.file _ n) => pure (some n)
        | _ => pure none
      | none => pure none
    let wrong := match size with
      | some t => (newSize t 0).isNone
      | none => false
    if wrong then r.fail ("Invalid number: " ++ quoted (size.getD []))
    else if c.rest.isEmpty then r.misused "missing file operand"
    else
      each c.rest fun t => do
        if c.has "no-create" && !(← Program.exists (path t)) then return 0
        else match ← openFile (path t) .update with
          | .error e => r.fail ("cannot open " ++ quoted t ++ " for writing: " ++ e.reason)
          | .ok fd => do
            let old ← match ← perform (.look fd) with
              | .ok (.file _ _ n _) => pure n
              | _ => pure 0
            let new := match size with
              | some s => (newSize s (base.getD old)).getD 0
              | none => base.getD 0
            let _ ← perform (.resize fd new)
            close fd
            return 0

end Judge.Tools
