import Judge.Number.Directive
import Judge.Number.Scan
import Judge.Shell.Command

/-!
# Shell/Format — printing in the shell

Backslash sequences, and texts that are filled with arguments.
-/

namespace Judge.Shell

namespace Format

open Directive (Shape)

/-! ## Backslash sequences -/

def isOctal (c : Char) : Bool := '0' ≤ c && c ≤ '7'

def octalChar (ds : Text) : Char := Char.ofNat (Scan.readDigits 8 ds % 256)

def escapes : List (Char × Char) :=
  [('\\', '\\'), ('a', '\x07'), ('b', '\x08'), ('e', '\x1b'), ('f', '\x0c'), ('n', '\n'),
   ('r', '\r'), ('t', '\t'), ('v', '\x0b')]

/-- What a backslash sequence stands for, and what follows it; any other one is a backslash. -/
def escape (cs : Text) : Char × Text :=
  match cs with
  | [] => ('\\', [])
  | c :: rest =>
    if isOctal c then
      let digits := (cs.take 3).takeWhile isOctal
      (octalChar digits, cs.drop digits.length)
    else match escapes.lookup c with
      | some d => (d, rest)
      | none => ('\\', cs)

/-- A text with its backslash sequences resolved, and whether it goes on after it. -/
def unescape : Nat → Text → Text → Text × Bool
  | 0, _, done => (done.reverse, true)
  | fuel + 1, cs, done =>
    match cs with
    | [] => (done.reverse, true)
    | '\\' :: 'c' :: _ => (done.reverse, false)
    | '\\' :: rest =>
      let rest := match rest with
        | '0' :: d :: more => if isOctal d then d :: more else rest
        | _ => rest
      let (c, rest) := escape rest
      unescape fuel rest (c :: done)
    | c :: rest => unescape fuel rest (c :: done)

def echo (args : List Text) : Text :=
  let (args, newline) := match args with
    | ['-', 'n'] :: rest => (rest, false)
    | _ => (args, true)
  let text := [' '].intercalate args
  let (text, goesOn) := unescape (text.length + 1) text []
  if newline && goesOn then text ++ ['\n'] else text

/-! ## Filling in arguments -/

/-- What filling in has printed, what arguments are left, and what went wrong, the last thing
first. -/
structure Filled where
  text : Text := []
  args : List Text := []
  errors : List String := []
  stopped : Bool := false
  broken : Bool := false

def wrongNumber (arg : Text) (found outOfRange : Bool) (rest : Text) : Option String :=
  if !rest.isEmpty then
    some (String.ofList arg ++ if found then ": not completely converted"
      else ": expected numeric value")
  else if outOfRange then some (String.ofList arg ++ ": Numerical result out of range")
  else none

/-- The number that an argument writes, and what is wrong with it; a quotation mark stands for the
number of the character behind it. -/
def integer (low high : Int) (arg : Text) : Int × Option String :=
  match arg with
  | '\'' :: rest | '"' :: rest => ((rest.headD '\x00').toNat, none)
  | _ =>
    let r := Scan.whole .written low high arg
    (r.value, wrongNumber arg r.found r.outOfRange r.rest)

def signedArgument (arg : Text) : Int × Option String := integer (-2 ^ 63) (2 ^ 63 - 1) arg

/-- A number without a sign; a negative one stands for its remainder. -/
def unsignedArgument (arg : Text) : Nat × Option String :=
  let (n, wrong) := integer (-(2 ^ 64 - 1)) (2 ^ 64 - 1) arg
  ((n % 2 ^ 64).toNat, wrong)

def realArgument (arg : Text) : Binary64 × Option String :=
  match arg with
  | '\'' :: rest | '"' :: rest => (Binary64.ofNat (rest.headD '\x00').toNat, none)
  | _ =>
    let r := Scan.real arg
    (r.value, wrongNumber arg r.found r.outOfRange r.rest)

/-- A count in a directive, where a star takes an argument. -/
def takeCount (cs : Text) (f : Filled) : Option Int × Text × Filled :=
  match cs with
  | '*' :: rest =>
    let (n, wrong) := signedArgument (f.args.headD [])
    (some n, rest, { f with args := f.args.tail, errors := wrong.toList ++ f.errors })
  | _ =>
    let digits := cs.takeWhile Char.isDigit
    (if digits.isEmpty then none else some (Scan.readDigits 10 digits : Int),
      cs.drop digits.length, f)

def takeShape (cs : Text) (f : Filled) : Shape × Text × Filled :=
  let (s, cs) := Directive.readFlags cs {}
  let (width, cs, f) := takeCount cs f
  let width := width.getD 0
  let s := { s with width := width.natAbs, left := s.left || decide (width < 0) }
  match cs with
  | '.' :: rest =>
    let (p, rest, f) := takeCount rest f
    let p := p.getD 0
    ({ s with precision := if p < 0 then none else some p.toNat }, rest, f)
  | _ => (s, cs, f)

def used (f : Filled) (t : Text) (wrong : Option String := none) : Filled :=
  { f with
    text := t.reverse ++ f.text, args := f.args.tail, errors := wrong.toList ++ f.errors }

/-- Prints one directive, which begins with a percent sign; `f.text` is backwards. -/
def directive (cs : Text) (f : Filled) : Filled × Text :=
  let (s, after, f) := takeShape (cs.drop 1) f
  let arg := f.args.headD []
  match after with
  | [] =>
    ({ f with
        errors := "missing format character" :: f.errors, stopped := true, broken := true }, [])
  | letter :: rest =>
    if letter == 's' then (used f (Directive.text s arg), rest)
    else if letter == 'c' then (used f (Directive.pad s [arg.headD '\x00']), rest)
    else if letter == 'b' then
      let (t, goesOn) := unescape (arg.length + 1) arg []
      ({ used f (Directive.text s t) with stopped := !goesOn }, rest)
    else if letter == 'd' || letter == 'i' then
      let (n, wrong) := signedArgument arg
      (used f (Directive.signed s n) wrong, rest)
    else if "ouxX".toList.contains letter then
      let (n, wrong) := unsignedArgument arg
      let base := if letter == 'o' then 8 else if letter == 'u' then 10 else 16
      (used f (Directive.unsigned s base (letter == 'X') n) wrong, rest)
    else if "aAeEfFgG".toList.contains letter then
      let (x, wrong) := realArgument arg
      (used f (Directive.floating s letter x) wrong, rest)
    else
      let shown := String.ofList (cs.take (cs.length - rest.length))
      ({ f with
          errors := (shown ++ ": invalid directive") :: f.errors, stopped := true, broken := true },
        [])

def fillOnce : Nat → Text → Filled → Filled
  | 0, _, f => f
  | fuel + 1, cs, f =>
    if f.stopped then f
    else match cs with
      | [] => f
      | '\\' :: rest =>
        let (c, rest) := escape rest
        fillOnce fuel rest { f with text := c :: f.text }
      | '%' :: '%' :: rest => fillOnce fuel rest { f with text := '%' :: f.text }
      | '%' :: _ =>
        let (f, rest) := directive cs f
        fillOnce fuel rest f
      | c :: rest => fillOnce fuel rest { f with text := c :: f.text }

/-- Prints a text with directives until the arguments are used up. -/
def fillAll : Nat → Text → Filled → Filled
  | 0, _, f => f
  | fuel + 1, format, f =>
    let next := fillOnce (format.length + 1) format f
    if next.stopped || next.args.isEmpty || next.args.length == f.args.length then next
    else fillAll fuel format next

def printf (format : Text) (args : List Text) : Filled :=
  let f := fillAll (args.length + 1) format { args := args }
  { f with text := f.text.reverse }

end Format

end Judge.Shell
