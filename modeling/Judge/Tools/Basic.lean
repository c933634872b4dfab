import Judge.Machine.Kernel
import Judge.Machine.Act
import Judge.Number.Scan
import Judge.Shell.Command

/-!
# Tools/Basic — small programs of a machine

A tool is told its name, its arguments and its environment, and ends with an exit code.  Here are
the things that most tools do: complain, read what they are given, and print.
-/

/-- What kind of file it is, in words. -/
def Judge.FileKind.words : Judge.FileKind → String
  | .file _ 0 => "regular empty file"
  | .file _ _ => "regular file"
  | .dir => "directory"
  | .link => "symbolic link"
  | .device => "character special file"
  | .socket => "socket"
  | .fifo => "fifo"

namespace Judge.Tools

open Shell (Text ofBytes toBytes)

/-- What a tool is told: the name that it was called by, the arguments after it, and variables. -/
structure Request where
  name : String
  args : List Text
  env : Environment

abbrev Tool := Request → Program Nat

variable (t : Text)

def str : String := Utf8.text (toBytes t)

def path : Path := ⟨toBytes t⟩

/-! ## Names in messages -/

def isShown (c : Char) : Bool := ' ' ≤ c && c ≤ '~'

def octalDigits (c : Char) : Text :=
  [Char.ofNat (48 + c.toNat / 64), Char.ofNat (48 + c.toNat / 8 % 8), Char.ofNat (48 + c.toNat % 8)]

/-- A byte that cannot be shown, as it is written between quotes. -/
def octalEscape (c : Char) : Text :=
  let letters : List (Char × Char) :=
    [('\x07', 'a'), ('\x08', 'b'), ('\t', 't'), ('\n', 'n'), ('\x0b', 'v'), ('\x0c', 'f'),
     ('\r', 'r')]
  '\\' :: match letters.lookup c with
    | some l => [l]
    | none => octalDigits c

/-- A text between quotes, which are interrupted for what cannot be shown; `inside` tells whether
they are. -/
def quoteAll : Text → Bool → Text → Text
  | [], _, done => ('\'' :: done).reverse
  | c :: rest, inside, done =>
    if isShown c then
      let done := if inside then '\'' :: '\'' :: done else done
      let shown := if c == '\'' then "'\\''".toList else [c]
      quoteAll rest false (shown.reverse ++ done)
    else
      let done := if inside then done else '\'' :: '$' :: '\'' :: done
      quoteAll rest true ((octalEscape c).reverse ++ done)

def quoted : String :=
  let awkward (c : Char) : Bool := !isShown c || "\"$\\\x60".toList.contains c
  if t.contains '\'' && !t.any awkward then "\"" ++ String.ofList t ++ "\""
  else String.ofList (quoteAll t false ['\''])

def named : String :=
  let special := " !\"$&'()*;<=>?[\\]^\x60|:".toList
  let awkward (c : Char) : Bool := !isShown c || special.contains c
  let first := (t.head?.map fun c => c == '#' || c == '~').getD true
  let brace := t == ['\x7b'] || t == ['\x7d']
  if first || brace || t.any awkward then quoted t else String.ofList t

def chunk : Nat := 65536

def patience : Nat := 10 ^ 9

/-- Writes to the standard error. -/
def tell (text : String) : Program Unit := do
  let _ ← Program.writeAll 2 (utf8 text)

namespace Request

variable (r : Request)

/-- Tells of a fault, under the name of the tool. -/
def complain (message : String) : Program Unit := tell (r.name ++ ": " ++ message ++ "\n")

/-- Complains, and ends. -/
def fail (message : String) (code : Nat := 1) : Program Nat := do
  r.complain message
  return code

/-- Fails with `t` because the system refused something. -/
def refuse (what : String) (t : Text) (e : OsError) (code : Nat := 1) : Program Nat :=
  r.fail (what ++ quoted t ++ ": " ++ e.reason) code

/-- The same without a word. -/
def refuseAt (t : Text) (e : OsError) : Program Nat := r.fail (named t ++ ": " ++ e.reason)

/-- Goes on with what the system gives, unless it refuses. -/
def asked {α : Type} (call : Program (Except OsError α)) (what : String) (t : Text)
    (next : α → Program Nat) : Program Nat := do
  match ← call with
  | .ok a => next a
  | .error e => r.refuse what t e

/-- Where more is told about a tool. -/
def hint : String := "Try '" ++ r.name ++ " --help' for more information.\n"

/-- Fails because the arguments are wrong. -/
def misused (message : String) (code : Nat := 1) : Program Nat := do
  r.complain message
  tell r.hint
  return code

def lacking (code : Nat := 1) : Program Nat := r.misused "missing operand" code

def burdened (t : Text) (code : Nat := 1) : Program Nat :=
  r.misused ("extra operand " ++ quoted t) code

def print (data : Bytes) : Program Bool := do
  match ← Program.writeAll 1 data with
  | .ok () => return true
  | .error e => do
    r.complain ("write error: " ++ e.reason)
    return false

def finish (t : Text) (code : Nat := 0) (broken : Nat := 1) : Program Nat := do
  if ← r.print (toBytes t) then return code else return broken

end Request

def worst (codes : List Nat) : Nat := codes.foldl max 0

/-- Does something with each of some things; the worst exit code counts. -/
def each {α : Type} (all : List α) (act : α → Program Nat) : Program Nat :=
  return worst (← all.mapM act)

/-! ## Reading -/

/-- How the reading of a file may fail. -/
inductive Obstacle where
  | closed (e : OsError)
  | unread (e : OsError)

def openInput : Program (Except OsError Descriptor) :=
  if t == ['-'] then return .ok 0 else Program.openFile (path t) .read

def closeInput (fd : Descriptor) : Program Unit := if fd = 0 then return () else Program.close fd

/-- Everything in a file, where a hyphen stands for the standard input. -/
def readWhole : Program (Except Obstacle Bytes) := do
  match ← openInput t with
  | .error e => return .error (.closed e)
  | .ok fd => do
    let found ← Program.drain fd
    closeInput fd
    match found with
    | .ok data => return .ok data
    | .error e => return .error (.unread e)

def plainTelling : Obstacle → String
  | .closed e | .unread e => named t ++ ": " ++ e.reason

def longTelling : Obstacle → String
  | .closed e => "cannot open " ++ quoted t ++ " for reading: " ++ e.reason
  | .unread e => "error reading " ++ quoted t ++ ": " ++ e.reason

def orInput (files : List Text) : List Text := if files.isEmpty then [['-']] else files

/-- What is in the files; what cannot be read is complained about.  The flag tells whether all could
be read. -/
def gather (r : Request) (tell : Text → Obstacle → String) : List Text → Program (Bytes × Bool)
  | [] => return ([], true)
  | t :: rest => do
    match ← readWhole t with
    | .ok data => do
      let (others, good) ← gather r tell rest
      return (data ++ others, good)
    | .error o => do
      r.complain (tell t o)
      let (others, _) ← gather r tell rest
      return (others, false)

def inputs (r : Request) (files : List Text) : Program (Bytes × Bool) :=
  gather r plainTelling (orInput files)

/-! ## Lines -/

def cutBehind {α : Type} [BEq α] (ending : α) (data : List α) : List (List α) :=
  let step (acc : List α × List (List α)) (x : α) : List α × List (List α) :=
    if x == ending then ([], (x :: acc.1).reverse :: acc.2) else (x :: acc.1, acc.2)
  let (last, pieces) := data.foldl step ([], [])
  (if last.isEmpty then pieces else last.reverse :: pieces).reverse

def linesOf (ending : Char) (data : Bytes) : List Text :=
  (cutBehind ending (ofBytes data)).map fun l =>
    if l.getLast? == some ending then l.dropLast else l

def unlines (ending : Char) (lines : List Text) : Text := lines.flatMap fun l => l ++ [ending]

/-! ## Numbers -/

/-- Whether a digit comes first. -/
def startsInDigit : Bool := (t.head?.map Char.isDigit).getD false

def nat? : Option Nat :=
  if t.isEmpty || !t.all Char.isDigit then none else some (Scan.readDigits 10 t)

def int? : Text → Option Int
  | '-' :: ds => (nat? ds).map fun n => -(n : Int)
  | '+' :: ds | ds => (nat? ds).map Int.ofNat

def multiple? : Option Nat :=
  let powers : List (Char × Nat) :=
    [('K', 1), ('k', 1), ('M', 2), ('G', 3), ('T', 4), ('P', 5), ('E', 6), ('Z', 7), ('Y', 8)]
  match t with
  | [] => some 1
  | ['b'] => some 512
  | [c] => (powers.lookup c).map (1024 ^ ·)
  | [c, 'B'] => (powers.lookup c).map (1000 ^ ·)
  | [c, 'i', 'B'] => (powers.lookup c).map (1024 ^ ·)
  | _ => none

def amount? : Option Nat :=
  let digits := t.takeWhile Char.isDigit
  let suffix := t.drop digits.length
  if t.isEmpty then none
  else (multiple? suffix).map fun m =>
    m * (if digits.isEmpty then 1 else Scan.readDigits 10 digits)

/-- A text with so much in front of it that it has a width. -/
def padded (fill : Char) (width : Nat) (t : Text) : Text :=
  List.replicate (width - t.length) fill ++ t

/-- A number at the right of a column. -/
def column (width : Nat) (n : Nat) : Text := padded ' ' width (Nat.toDigits 10 n)

end Judge.Tools
