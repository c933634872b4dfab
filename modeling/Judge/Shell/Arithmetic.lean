import Judge.Number.Scan
import Judge.Shell.Command

/-!
# Shell/Arithmetic — arithmetic of the shell

Expressions over signed numbers of sixty-four bits, with the operators of the shell and assignments
to variables.  An expression is computed while it is read, so what is wrong first is what is told;
operands that do not count are read, but neither looked up nor computed.
-/

namespace Judge.Shell

namespace Arithmetic

/-! ## Numbers -/

def wrap (n : Int) : Int := Int.bmod n (2 ^ 64)

def greatest : Int := 2 ^ 63 - 1

def least : Int := -2 ^ 63

def scanNumber (base : Scan.Base) (t : Text) : Scan.Whole := Scan.whole base least greatest t

/-- The number that a text writes, with blanks around it; only where the base is written with it an
empty text stands for zero. -/
def number? (base : Scan.Base) (t : Text) : Option Int :=
  let r := scanNumber base t
  let more := !(r.rest.dropWhile Scan.isSpace).isEmpty
  if r.outOfRange || (base == .ten && !r.found) || more then none
  else some r.value

/-! ## Operators -/

/-- An operator with two operands. -/
inductive Operator where
  | add | sub | mul | div | rem
  | shiftLeft | shiftRight
  | less | lessEqual | greater | greaterEqual | equal | unequal
  | bitAnd | bitXor | bitOr
deriving DecidableEq, Repr

/-- What is wrong with an expression. -/
inductive Error where
  | wrong (reason : String)
  | illegalNumber (t : Text)
  | refused (name : Text)
deriving DecidableEq, Repr

def ofBool (b : Bool) : Int := if b then 1 else 0

def apply (op : Operator) (a b : Int) : Except Error Int :=
  match op with
  | .add => .ok (wrap (a + b))
  | .sub => .ok (wrap (a - b))
  | .mul => .ok (wrap (a * b))
  | .div => if b = 0 then .error (.wrong "division by zero") else .ok (wrap (Int.tdiv a b))
  | .rem => if b = 0 then .error (.wrong "division by zero") else .ok (wrap (Int.tmod a b))
  | .shiftLeft => .ok (wrap (a * 2 ^ (b % 64).toNat))
  | .shiftRight => .ok (Int.fdiv a (2 ^ (b % 64).toNat))
  | .less => .ok (ofBool (a < b))
  | .lessEqual => .ok (ofBool (a ≤ b))
  | .greater => .ok (ofBool (b < a))
  | .greaterEqual => .ok (ofBool (b ≤ a))
  | .equal => .ok (ofBool (a = b))
  | .unequal => .ok (ofBool (a ≠ b))
  | .bitAnd => .ok (BitVec.ofInt 64 a &&& BitVec.ofInt 64 b).toInt
  | .bitXor => .ok (BitVec.ofInt 64 a ^^^ BitVec.ofInt 64 b).toInt
  | .bitOr => .ok (BitVec.ofInt 64 a ||| BitVec.ofInt 64 b).toInt

def operators : List (String × Operator × Nat) :=
  [("|", .bitOr, 1), ("^", .bitXor, 2), ("&", .bitAnd, 3), ("==", .equal, 4), ("!=", .unequal, 4),
   ("<", .less, 5), ("<=", .lessEqual, 5), (">", .greater, 5), (">=", .greaterEqual, 5),
   ("<<", .shiftLeft, 6), (">>", .shiftRight, 6), ("+", .add, 7), ("-", .sub, 7), ("*", .mul, 8),
   ("/", .div, 8), ("%", .rem, 8)]

def assignments : List (String × Option Operator) :=
  [("=", none), ("+=", some .add), ("-=", some .sub), ("*=", some .mul), ("/=", some .div),
   ("%=", some .rem), ("<<=", some .shiftLeft), (">>=", some .shiftRight), ("&=", some .bitAnd),
   ("^=", some .bitXor), ("|=", some .bitOr)]

/-! ## Lexemes -/

/-- A lexeme of an expression. -/
inductive Lexeme where
  | number (n : Int)
  | name (t : Text)
  | symbol (s : String)
  | finish
  | bad
deriving DecidableEq, Repr

def symbols : List String :=
  ["<<=", ">>=", "<<", ">>", "<=", ">=", "==", "!=", "&&", "||", "+=", "-=", "*=", "/=", "%=", "&=",
   "^=", "|=", "+", "-", "*", "/", "%", "<", ">", "=", "!", "~", "&", "|", "^", "?", ":", "(", ")"]

def lex (cs : Text) : Lexeme × Text :=
  let cs := cs.dropWhile fun c => c == ' ' || c == '\t' || c == '\n'
  match cs with
  | [] => (.finish, [])
  | c :: rest =>
    if c.isDigit then
      let r := scanNumber .written cs
      (.number r.value, r.rest)
    else if isNameStart c then
      let name := takeName cs
      (.name name, cs.drop name.length)
    else match symbols.find? fun s => s.toList.isPrefixOf cs with
      | some s => (.symbol s, cs.drop s.toList.length)
      | none => (.bad, rest)

/-! ## Values -/

/-- The variables around an expression. -/
structure Variables where
  value : Text → Text
  settable : Text → Bool

/-- The variables set so far, the last one first. -/
abbrev Updates := List (Text × Int)

/-- How far an expression is computed. -/
structure Progress where
  rest : Text
  lexeme : Lexeme := .finish
  updates : Updates := []

abbrev Computing := StateT Progress (Except Error)

def advance : Computing Unit :=
  modify fun p =>
    let (l, rest) := lex p.rest
    { p with lexeme := l, rest }

def fail {α : Type} (reason : String) : Computing α := throw (.wrong reason)

def operator? : Lexeme → Option (Operator × Nat)
  | .symbol s => operators.lookup s
  | _ => none

variable (vars : Variables)

def lookUp (name : Text) : Computing Int := do
  match (← get).updates.lookup name with
  | some n => return n
  | none =>
    match number? .written (vars.value name) with
    | some n => return n
    | none => throw (.illegalNumber (vars.value name))

def assigned? (p : Progress) : Option (Text × Option Operator × Text) :=
  match p.lexeme with
  | .name name =>
    match lex p.rest with
    | (.symbol s, rest) => (assignments.lookup s).map fun op => (name, op, rest)
    | _ => none
  | _ => none

mutual

/-- An assignment, a choice or anything that binds more strongly.  With `idle` the value does not
count. -/
def assignment : Nat → Bool → Computing Int
  | 0, _ => fail "expecting primary"
  | fuel + 1, idle => do
    match assigned? (← get) with
    | none => choice fuel idle
    | some (name, op, rest) => do
      modify fun p => { p with rest }
      advance
      let n ← assignment fuel idle
      if idle then return n
      let r ← match op with
        | none => pure n
        | some op => do
          let old ← lookUp vars name
          apply op old n
      unless vars.settable name do throw (.refused name)
      modify fun p => { p with updates := (name, r) :: p.updates }
      return r

def choice : Nat → Bool → Computing Int
  | 0, _ => fail "expecting primary"
  | fuel + 1, idle => do
    let a ← logical fuel idle true
    if (← get).lexeme != .symbol "?" then return a
    advance
    let b ← assignment fuel (idle || a = 0)
    if (← get).lexeme != .symbol ":" then fail "expecting ':'"
    advance
    let c ← choice fuel (idle || a ≠ 0)
    return if a ≠ 0 then b else c

/-- A disjunction if `either`, and otherwise a conjunction; what is settled leaves the rest idle. -/
def logical : Nat → Bool → Bool → Computing Int
  | 0, _, _ => fail "expecting primary"
  | fuel + 1, idle, either => do
    let a ← if either then logical fuel idle false else binary fuel idle 1
    if (← get).lexeme != .symbol (if either then "||" else "&&") then return a
    advance
    let settled := (a != 0) == either
    let b ← logical fuel (idle || settled) either
    return ofBool (if settled then either else b != 0)

def binary : Nat → Bool → Nat → Computing Int
  | 0, _, _ => fail "expecting primary"
  | fuel + 1, idle, least => do
    let a ← primary fuel idle
    more fuel idle least a

def more : Nat → Bool → Nat → Int → Computing Int
  | 0, _, _, _ => fail "expecting primary"
  | fuel + 1, idle, least, a => do
    match operator? (← get).lexeme with
    | none => return a
    | some (op, strength) =>
      if strength < least then return a
      else
        advance
        let b ← binary fuel idle (strength + 1)
        let r ← if idle then pure b else apply op a b
        more fuel idle least r

def primary : Nat → Bool → Computing Int
  | 0, _ => fail "expecting primary"
  | fuel + 1, idle => do
    let here := (← get).lexeme
    match here with
    | .number n => do
      advance
      return n
    | .name name => do
      let n ← if idle then pure 0 else lookUp vars name
      advance
      return n
    | .symbol s => do
      advance
      match s with
      | "(" => do
        let n ← assignment fuel idle
        if (← get).lexeme != .symbol ")" then fail "expecting ')'"
        advance
        return n
      | "+" => primary fuel idle
      | "-" => return wrap (-(← primary fuel idle))
      | "!" => return ofBool ((← primary fuel idle) = 0)
      | "~" => return wrap (-(← primary fuel idle) - 1)
      | _ => fail "expecting primary"
    | _ => fail "expecting primary"

end

/-- **The value of an expression** and the variables that it sets, the last one first. -/
def evaluate (t : Text) : Except Error (Int × Updates) := do
  let whole : Computing Int := do
    advance
    let n ← assignment vars (16 * (t.length + 4)) false
    if (← get).lexeme != .finish then fail "expecting EOF"
    return n
  let (n, p) ← whole.run { rest := t }
  return (n, p.updates)

end Arithmetic

end Judge.Shell
