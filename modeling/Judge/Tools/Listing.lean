import Judge.Tools.Collation
import Judge.Tools.Names
import Judge.Tools.Permissions

/-!
# Tools/Listing — tools that tell what files there are

They show the names in directories, and what is known about a file.
-/

namespace Judge.Tools

open Program (onFiles)

open Shell (Text ofBytes toBytes)

/-! ## Facts -/

/-- What is shown about a file. -/
structure Facts where
  kind : FileKind
  target : Option Path := none
  inside : Nat := 0

namespace Facts

/-- The facts about a file, where a link counts as a link unless `follow`. -/
def of (follow : Bool) (p : Path) : Program (Except OsError Facts) := do
  let kind ← if follow then onFiles (.kind p) else onFiles (.linkKind p)
  match kind with
  | .error e => return .error e
  | .ok .link => do
    match ← onFiles (.readLink p) with
    | .ok target => return .ok { kind := .link, target := some target }
    | .error e => return .error e
  | .ok .dir => do
    match ← onFiles (.list p) with
    | .ok names => do
      let dirs ← names.filterM fun n => do
        match ← onFiles (.linkKind (p.join ⟨n⟩)) with
        | .ok k => return k.isDir
        | .error _ => return false
      return .ok { kind := .dir, inside := dirs.length }
    | .error e => return .error e
  | .ok kind => return .ok { kind := kind }

variable (f : Facts)

def size : Nat :=
  match f.kind, f.target with
  | .file _ n, _ => n
  | .dir, _ => 4096
  | _, some target => target.text.length
  | _, none => 0

def blocks : Nat :=
  match f.kind with
  | .file _ n => (n + 4095) / 4096 * 4
  | .dir => 4
  | _ => 0

def links : Nat := if f.kind.isDir then f.inside + 2 else 1

def letters : Text :=
  let (letter, mode) := kindMode f.kind
  letter :: modeLetters mode

def mark (executables : Bool) : Text :=
  match f.kind with
  | .dir => ['/']
  | .link => ['@']
  | .fifo => ['|']
  | .socket => ['=']
  | .file mode _ => if executables && isExecutable mode then ['*'] else []
  | .device => []

def kindBits : Nat :=
  match f.kind with
  | .file _ _ => 0o100000
  | .dir => 0o040000
  | .link => 0o120000
  | .device => 0o020000
  | .socket => 0o140000
  | .fifo => 0o010000

end Facts

/-! ## Names in directories -/

/-- An entry of a listing. -/
structure Shown where
  name : Text
  facts : Facts

/-- How a listing looks. -/
structure ListingStyle where
  c : Choices

namespace ListingStyle

variable (s : ListingStyle)

def long : Bool :=
  ["l", "numeric-uid-gid", "g", "o"].any s.c.has

def hidden : Bool := s.c.has "all" || s.c.has "almost-all" || s.c.has "f"

def sorted (entries : List Shown) : List Shown :=
  let byName (a b : Shown) : Ordering := compareTexts a.name b.name
  let ending (t : Text) : Text :=
    match t.reverse.findIdx? (· == '.') with
    | some i => t.drop (t.length - i - 1)
    | none => []
  let word := match s.c.lastOf ["S", "X", "U", "v", "t", "f", "sort"] with
    | some "sort" => s.c.word "sort"
    | some other => other
    | none => ""
  let order : Option (Shown → Shown → Ordering) := match word with
    | "S" | "size" => some fun a b => (compare b.facts.size a.facts.size).then (byName a b)
    | "X" | "extension" => some fun a b =>
      (compareTexts (ending a.name) (ending b.name)).then (byName a b)
    | "v" | "version" => some fun a b => (compareFileVersions a.name b.name).then (byName a b)
    | "U" | "none" | "f" => none
    | _ => some byName
  let entries := match order with
    | some o => entries.mergeSort fun a b => (o a b).isLE
    | none => entries
  let entries := if s.c.has "reverse" then entries.reverse else entries
  if s.c.has "group-directories-first" then
    entries.filter (·.facts.kind.isDir) ++ entries.filter fun e => !e.facts.kind.isDir
  else entries

def name (s : ListingStyle) (e : Shown) : Text :=
  let quotedName := if s.c.has "quote-name" then '"' :: e.name.flatMap (fun c =>
      if c == '"' || c == '\\' then ['\\', c] else [c]) ++ ['"']
    else if s.c.has "escape" then e.name.flatMap fun c =>
      if c == ' ' || c == '\\' then ['\\', c] else if isShown c then [c] else octalEscape c
    else if s.c.has "hide-control-chars" then e.name.map fun c => if isShown c then c else '?'
    else e.name
  let mark := match s.c.lastOf ["F", "classify", "file-type", "p", "indicator-style"] with
    | some "F" | some "classify" => e.facts.mark true
    | some "file-type" => e.facts.mark false
    | some "p" => if e.facts.kind.isDir then ['/'] else []
    | some _ =>
      match s.c.word "indicator-style" with
      | "classify" => e.facts.mark true
      | "file-type" => e.facts.mark false
      | "slash" => if e.facts.kind.isDir then ['/'] else []
      | _ => []
    | none => []
  let arrow := if s.long then (e.facts.target.map fun t => " -> ".toList ++ ofBytes t.text).getD []
    else []
  quotedName ++ (if s.long && e.facts.target.isSome then [] else mark) ++ arrow

def longLines (entries : List Shown) : List Text :=
  let width (f : Facts → Nat) : Nat :=
    (entries.map fun e => (Nat.toDigits 10 (f e.facts)).length).foldl max 0
  let user := if s.c.has "numeric-uid-gid" then "0" else "root"
  let owner := if s.c.has "g" then "" else user ++ " "
  let group := if s.c.has "o" || s.c.has "no-group" then "" else user ++ " "
  entries.map fun e =>
    e.facts.letters ++ ' ' :: column (width Facts.links) e.facts.links ++ ' ' :: owner.toList ++
      group.toList ++ column (width Facts.size) e.facts.size ++ " Jan  1 00:00 ".toList ++ s.name e

def text (entries : List Shown) : Text :=
  let entries := s.sorted entries
  let ending := if s.c.has "zero" then '\x00' else '\n'
  if s.long then unlines ending (s.longLines entries)
  else
    let blocksWidth := (entries.map fun e => (Nat.toDigits 10 e.facts.blocks).length).foldl max 0
    let line (e : Shown) : Text :=
      (if s.c.has "size" then column blocksWidth e.facts.blocks ++ [' '] else []) ++ s.name e
    let inOne (between : String) : Text :=
      if entries.isEmpty then []
      else between.toList.intercalate (entries.map line) ++ ['\n']
    match s.c.lastOf ["m", "1", "C", "x"] with
    | some "m" => inOne ", "
    | some "C" | some "x" => inOne "  "
    | _ => unlines ending (entries.map line)

end ListingStyle

def entriesOf (s : ListingStyle) (dir : Path) : Program (Except OsError (List Shown)) := do
  match ← onFiles (.list dir) with
  | .error e => return .error e
  | .ok names => do
    let names := (names.map ofBytes).filter fun n => s.hidden || n.head? != some '.'
    let ignored := (s.c.all "ignore") ++ (s.c.all "hide")
    let names := names.filter fun n => !ignored.contains n &&
      !(s.c.has "ignore-backups" && n.getLast? == some '~')
    let names := if s.c.has "all" || s.c.has "f" then ['.'] :: ['.', '.'] :: names else names
    let found ← names.mapM fun n => do
      match ← Facts.of (s.c.has "dereference") (dir.join (path n)) with
      | .ok f => return some ⟨n, f⟩
      | .error _ => do
        match ← Facts.of false (dir.join (path n)) with
        | .ok f => return some ⟨n, f⟩
        | .error _ => return none
    return .ok (found.filterMap fun e => e)

/-- Shows directories; `headed` tells whether their names are shown, and `first` whether nothing was
printed before. -/
def listDirectories (r : Request) (s : ListingStyle) (headed : Bool) :
    Nat → List Text → Bool → Nat → Program Nat
  | 0, _, _, code | _, [], _, code => return code
  | fuel + 1, d :: rest, first, code => do
    match ← entriesOf s (path d) with
    | .error e => do
      r.complain ("cannot open directory " ++ quoted d ++ ": " ++ e.reason)
      listDirectories r s headed fuel rest first (max code 2)
    | .ok entries => do
      let title := if headed then (if first then [] else ['\n']) ++ d ++ [':', '\n'] else []
      let total := if s.long || s.c.has "size" then
          ("total " ++ toString (entries.map fun e => e.facts.blocks).sum ++ "\n").toList
        else []
      let good ← r.print (toBytes (title ++ total ++ s.text entries))
      let below := if s.c.has "recursive" then
          ((s.sorted entries).filter fun e =>
            e.facts.kind.isDir && e.name != ['.'] && e.name != ['.', '.']).map fun e =>
              childOf d e.name
        else []
      listDirectories r s headed fuel (below ++ rest) false (if good then code else 2)

def ls : Tool := withOptions
    ("a,all A,almost-all ,author b,escape B,ignore-backups c C d,directory f F ,classify? " ++
     ",file-type g ,group-directories-first G,no-group h,human-readable ,si H ,hide= " ++
     ",indicator-style= i,inode I,ignore= k,kibibytes l L,dereference m n,numeric-uid-gid " ++
     "N,literal o p q,hide-control-chars Q,quote-name r,reverse R,recursive s,size S ,sort= t " ++
     "T,tabsize= u U v w,width= x X Z 1 ,zero ,color? ,full-time ,time= ,time-style= " ++
     ",show-control-chars ,block-size= ,quoting-style= ,format=") (fun r c => do
  let s : ListingStyle := ⟨c⟩
  let given := if c.rest.isEmpty then [['.']] else c.rest
  let plain := c.has "directory"
  let follow := c.has "dereference" || c.has "H"
  let keepsLinks := s.long || plain || c.has "F" || c.has "classify"
  let looked ← given.mapM fun t => do
    match ← Facts.of follow (path t) with
    | .error e => do
      r.complain ("cannot access " ++ quoted t ++ ": " ++ e.reason)
      return none
    | .ok f =>
      match f.kind with
      | .link =>
        if keepsLinks then return some (⟨t, f⟩ : Shown)
        else match ← Facts.of true (path t) with
          | .ok g => return some ⟨t, if g.kind.isDir then g else f⟩
          | .error _ => return some ⟨t, f⟩
      | _ => return some ⟨t, f⟩
  let shown := looked.filterMap fun e => e
  let files := shown.filter fun e => plain || !e.facts.kind.isDir
  let dirs := shown.filter fun e => !plain && e.facts.kind.isDir
  let good ← r.print (toBytes (s.text files))
  let headed := 1 < given.length || c.has "recursive"
  let code := if looked.any Option.isNone || !good then 2 else 0
  listDirectories r s headed patience ((s.sorted dirs).map (·.name)) files.isEmpty code) false 2

/-! ## Facts about a file -/

def factText (name : Text) (f : Facts) (letter : Char) : Text :=
  let number (n : Nat) : Text := Nat.toDigits 10 n
  let mode := (kindMode f.kind).2
  match letter with
  | 's' => number f.size
  | 'n' => name
  | 'N' => (quoted name ++ (f.target.map fun t => " -> " ++ quoted (ofBytes t.text)).getD "").toList
  | 'a' => Nat.toDigits 8 mode
  | 'A' => f.letters
  | 'F' => f.kind.words.toList
  | 'f' => Nat.toDigits 16 (f.kindBits + mode)
  | 'h' => number f.links
  | 'b' => number (2 * f.blocks)
  | 'B' => "512".toList
  | 'o' => "4096".toList
  | 'u' | 'g' => ['0']
  | 'U' | 'G' => "root".toList
  | 't' | 'T' => ['0']
  | 'd' | 'D' | 'i' => ['1']
  | 'm' => ['/']
  | 'X' | 'Y' | 'Z' | 'W' => ['0']
  | '%' => ['%']
  | _ => ['?']

/-- Fills a format with facts; with `escapes` backslashes mean something. -/
def fillFacts (name : Text) (f : Facts) (escapes : Bool) : Nat → Text → Text → Text
  | 0, _, done => done.reverse
  | fuel + 1, t, done =>
    match t with
    | [] => done.reverse
    | '%' :: rest =>
      let left := rest.head? == some '-'
      let zero := rest.head? == some '0'
      let rest := rest.dropWhile fun c => "-0+ #'".toList.contains c
      let digits := rest.takeWhile Char.isDigit
      match rest.drop digits.length with
      | [] => ('%' :: done).reverse
      | letter :: rest =>
        let text := factText name f letter
        let fill := List.replicate (Scan.readDigits 10 digits - text.length)
          (if zero then '0' else ' ')
        let text := if left then text ++ fill else fill ++ text
        fillFacts name f escapes fuel rest (text.reverse ++ done)
    | '\\' :: c :: rest =>
      if escapes then
        let d := match c with
          | 'n' => '\n'
          | 't' => '\t'
          | 'a' => '\x07'
          | 'r' => '\r'
          | c => c
        fillFacts name f escapes fuel rest (d :: done)
      else fillFacts name f escapes fuel (c :: rest) ('\\' :: done)
    | c :: rest => fillFacts name f escapes fuel rest (c :: done)

def stat : Tool := withOptions
    "L,dereference f,file-system ,cached= c,format= ,printf= t,terse" fun r c => do
  if c.rest.isEmpty then r.lacking
  else each c.rest fun t =>
    r.asked (Facts.of (c.has "dereference") (path t)) "cannot statx " t fun f =>
      match c.last? "format", c.last? "printf" with
      | some format, _ => r.finish (fillFacts t f false (format.length + 1) format [] ++ ['\n'])
      | none, some format => r.finish (fillFacts t f true (format.length + 1) format [])
      | none, none =>
        let format := ("  File: %N\n  Size: %-15s Blocks: %-10b IO Block: %-6o %F\n" ++
          "Device: 0,1 Inode: 1           Links: %h\n" ++
          "Access: (%04a/%A)  Uid: (    0/    root)   Gid: (    0/    root)\n").toList
        r.finish (fillFacts t f false (format.length + 1) format [])

end Judge.Tools
