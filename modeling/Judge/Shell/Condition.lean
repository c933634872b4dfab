import Judge.Machine.Act
import Judge.Shell.Arithmetic

/-!
# Shell/Condition — conditions on texts, numbers and files

The language of `test`.  A condition is looked at while it is read: every question in it is asked,
and a word that could be an operator is one only where the words around it leave room for that.
-/

namespace Judge.Shell

namespace Condition

/-- A word with a meaning of its own. -/
inductive Operator where
  | ask (question : Char)
  | compare (name : String)
  | not
  | both
  | either
  | openParen
  | closeParen
deriving DecidableEq, Repr

def questions : List Char := "rwxefdcbpugkstznhOGLS".toList

def comparisons : List String :=
  ["=", "!=", "<", ">", "-eq", "-ne", "-ge", "-gt", "-le", "-lt", "-nt", "-ot", "-ef"]

def operator? (t : Text) : Option Operator :=
  let s := String.ofList t
  if comparisons.contains s then some (.compare s)
  else match t with
    | ['-', 'a'] => some .both
    | ['-', 'o'] => some .either
    | ['-', c] => if questions.contains c then some (.ask c) else none
    | ['!'] => some .not
    | ['('] => some .openParen
    | [')'] => some .closeParen
    | _ => none

def isComparison (t : Text) : Bool :=
  match operator? t with
  | some (.compare _) => true
  | _ => false

/-- What a word is among those that follow it. -/
inductive Role where
  | missing
  | operand
  | operator (o : Operator)
deriving DecidableEq, Repr

/-- Whether a question at the head of `words` is an operand: nothing follows it, or a comparison and
something else does. -/
def isOperand : List Text → Bool
  | _ :: second :: _ :: _ => isComparison second
  | [_, _] => false
  | _ => true

def role : List Text → Role
  | [] => .missing
  | word :: rest =>
    match operator? word with
    | some (.ask c) => if isOperand (word :: rest) then .operand else .operator (.ask c)
    | some .openParen => if rest.isEmpty then .operand else .operator .openParen
    | some o => .operator o
    | none => .operand

abbrev Testing := StateT (List Text) (ExceptT String Program)

def refuse {α : Type} (operator : String) (reason : String) : Testing α :=
  throw (if operator.isEmpty then reason else operator ++ ": " ++ reason)

def numberOf (t : Text) : Testing Int :=
  match Arithmetic.number? .ten t with
  | some n => return n
  | none => throw ("Illegal number: " ++ String.ofList t)

def compareWords (op : String) (a b : Text) : Testing Bool := do
  match op with
  | "=" => return a == b
  | "!=" => return a != b
  | "<" => return decide (a < b)
  | ">" => return decide (b < a)
  | "-ef" => do
    let p ← Program.onFiles (.place ⟨toBytes a⟩)
    let q ← Program.onFiles (.place ⟨toBytes b⟩)
    match (p : Except OsError Place), (q : Except OsError Place) with
    | .ok p, .ok q => return decide (p = q)
    | _, _ => return false
  | "-nt" | "-ot" => return false
  | _ => do
    let m ← numberOf a
    let n ← numberOf b
    return match op with
      | "-eq" => decide (m = n)
      | "-ne" => decide (m ≠ n)
      | "-lt" => decide (m < n)
      | "-le" => decide (m ≤ n)
      | "-gt" => decide (n < m)
      | _ => decide (n ≤ m)

def askFile (question : Char) (t : Text) : Program Bool := do
  let p : Path := ⟨toBytes t⟩
  if question == 'L' || question == 'h' then
    match ← Program.onFiles (.linkKind p) with
    | .ok k => return k == .link
    | .error _ => return false
  else
    match ← Program.onFiles (.kind p) with
    | .error _ => return false
    | .ok k =>
      return match question, k with
        | 'f', _ => k.isFile
        | 'd', _ => k.isDir
        | 's', .file _ size => size != 0
        | 's', .dir => true
        | 'x', .file mode _ => isExecutable mode
        | 'x', .dir => true
        | 'u', .file mode _ => mode &&& 0o4000 != 0
        | 'g', .file mode _ => mode &&& 0o2000 != 0
        | 'k', .file mode _ => mode &&& 0o1000 != 0
        | 'c', .device | 'p', .fifo | 'S', .socket | 'e', _ | 'r', _ | 'w', _ | 'O', _ | 'G', _ =>
          true
        | _, _ => false

def ask (question : Char) (t : Text) : Testing Bool := do
  match question with
  | 'n' => return !t.isEmpty
  | 'z' => return t.isEmpty
  | 't' => do
    let _ ← numberOf t
    return false
  | _ => StateT.lift (ExceptT.lift (askFile question t))

def skip (n : Nat) : Testing Unit := modify fun ws => ws.drop n

def word : Testing Text := do return (← get).headD []

def roleAt (ahead : Nat) : Testing Role := do return role ((← get).drop ahead)

mutual

/-- Conditions of which one has to hold if `either`, and otherwise all. -/
def several : Nat → Bool → Role → Testing Bool
  | 0, _, _ => return false
  | fuel + 1, either, r => do
    let a ← if either then several fuel false r else negation fuel r
    if (← roleAt 1) == .operator (if either then .either else .both) then
      skip 2
      let b ← several fuel either (← roleAt 0)
      return if either then a || b else a && b
    else return a

def negation : Nat → Role → Testing Bool
  | 0, _ => return false
  | fuel + 1, r => do
    if r == .operator .not then
      let next ← roleAt 1
      if next != .missing then skip 1
      return !(← negation fuel next)
    else single fuel r

def single : Nat → Role → Testing Bool
  | 0, _ => return false
  | fuel + 1, r => do
    match r with
    | .missing => return false
    | .operator .openParen => do
      skip 1
      let next ← roleAt 0
      if next == .operator .closeParen then return false
      let b ← several fuel true next
      skip 1
      if (← roleAt 0) != .operator .closeParen then refuse "" "closing paren expected"
      return b
    | .operator (.ask question) => do
      let name ← word
      skip 1
      if (← get).isEmpty then refuse (String.ofList name) "argument expected"
      ask question (← word)
    | _ =>
      match ← roleAt 1 with
      | .operator (.compare op) => do
        let a ← word
        skip 2
        if (← get).isEmpty then refuse op "argument expected"
        compareWords op a (← word)
      | _ => return !(← word).isEmpty

end

def whole (words : List Text) (first : Role) : Program (Except String Bool) := do
  let looking : Testing Bool := do
    let b ← several (8 * (words.length + 2)) true first
    match ← get with
    | extra :: _ :: _ => refuse (String.ofList extra) "unexpected operator"
    | _ => return b
  let r ← (looking.run words).run
  return r.map (·.1)

/-- **Whether a condition holds.**  Three and four words are first looked at for a comparison,
parentheses or a negation. -/
def holds : List Text → Program (Except String Bool)
  | [] => return .ok false
  | words@([a, op, b]) =>
    if isComparison op then whole words .operand
    else if a == ['('] && b == [')'] then whole [op] (role [op])
    else if a == ['!'] then return (← holds [op, b]).map (!·)
    else whole words (role words)
  | words@([a, b, c, d]) =>
    if a == ['('] && d == [')'] then whole [b, c] (role [b, c])
    else if a == ['!'] then return (← holds [b, c, d]).map (!·)
    else whole words (role words)
  | words => whole words (role words)
termination_by words => words.length

end Condition

end Judge.Shell
