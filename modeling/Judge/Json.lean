import Judge.Number.Decimal
import Judge.Number.HexFloat
import Judge.Text.Quoted

/-!
# Json — structured values as text

Reports are exchanged as JSON.  A number keeps the text it was written with, so that an integer, a
fraction and a signed zero stay apart; `Json.nat?` and `Json.double?` say what the text means.
-/

namespace Judge

/-- A JSON value. -/
inductive Json where
  | null
  | bool (value : Bool)
  | number (literal : String)
  | string (value : String)
  | array (items : List Json)
  | object (fields : List (String × Json))
deriving Repr, Inhabited

namespace Json

/-! ## Writing -/

/-- A control character in two hexadecimal digits. -/
def hex2 (n : Nat) : List Char := [Nat.digitChar (n / 16), Nat.digitChar (n % 16)]

/-- How a character is written in a string: quotes, backslashes and controls are escaped. -/
def escapeChar (c : Char) : List Char :=
  if c = '"' then ['\\', '"']
  else if c = '\\' then ['\\', '\\']
  else if c = '\n' then ['\\', 'n']
  else if c = '\r' then ['\\', 'r']
  else if c = '\t' then ['\\', 't']
  else if c = '\x08' then ['\\', 'b']
  else if c = '\x0c' then ['\\', 'f']
  else if c.toNat < 0x20 then ['\\', 'u', '0', '0'] ++ hex2 c.toNat
  else [c]

def quote (s : String) : String := String.ofList (['"'] ++ s.toList.flatMap escapeChar ++ ['"'])

mutual

/-- The text of a value, without blanks. -/
def compact : Json → String
  | .null => "null"
  | .bool value => if value then "true" else "false"
  | .number literal => literal
  | .string value => quote value
  | .array items => "[" ++ compactItems items ++ "]"
  | .object fields => "\x7b" ++ compactFields fields ++ "\x7d"

def compactItems : List Json → String
  | [] => ""
  | [item] => compact item
  | item :: more => compact item ++ "," ++ compactItems more

def compactFields : List (String × Json) → String
  | [] => ""
  | [(key, value)] => quote key ++ ":" ++ compact value
  | (key, value) :: more => quote key ++ ":" ++ compact value ++ "," ++ compactFields more

end

def ofNat (n : Nat) : Json := .number (toString n)

def ofInt (n : Int) : Json := .number (toString n)

/-! ## Reading -/

def isSpace (c : Char) : Bool := c == ' ' || c == '\t' || c == '\n' || c == '\r'

/-- The value of a hexadecimal digit. -/
def hexValue? : Char → Option Nat := HexFloat.digit?

/-- Four hexadecimal digits. -/
def hex4? : List Char → Option (Nat × List Char)
  | a :: b :: c :: d :: rest => do
    let a ← hexValue? a
    let b ← hexValue? b
    let c ← hexValue? c
    let d ← hexValue? d
    some (((a * 16 + b) * 16 + c) * 16 + d, rest)
  | _ => none

/-- What follows `\u`: one unit, or two that make one character. -/
def unicodeEscape? (cs : List Char) : Option (Char × List Char) := do
  let (high, rest) ← hex4? cs
  if 0xD800 ≤ high ∧ high < 0xDC00 then
    match rest with
    | '\\' :: 'u' :: more =>
      let (low, rest) ← hex4? more
      if 0xDC00 ≤ low ∧ low < 0xE000 then
        some (Char.ofNat (0x10000 + (high - 0xD800) * 0x400 + (low - 0xDC00)), rest)
      else none
    | _ => none
  else if 0xDC00 ≤ high ∧ high < 0xE000 then none
  else some (Char.ofNat high, rest)

def shortEscape? (c : Char) : Option Char :=
  [('"', '"'), ('\\', '\\'), ('/', '/'), ('b', '\x08'), ('f', '\x0c'), ('n', '\n'), ('r', '\r'),
   ('t', '\t')].lookup c

/-- The rest of a string after its opening quote; `acc` holds what was read, last one first. -/
def readString : Nat → List Char → List Char → Option (String × List Char)
  | 0, _, _ | _ + 1, _, [] => none
  | _ + 1, acc, '"' :: rest => some (String.ofList acc.reverse, rest)
  | fuel + 1, acc, '\\' :: 'u' :: rest =>
    match unicodeEscape? rest with
    | some (c, rest) => readString fuel (c :: acc) rest
    | none => none
  | fuel + 1, acc, '\\' :: c :: rest =>
    match shortEscape? c with
    | some c => readString fuel (c :: acc) rest
    | none => none
  | fuel + 1, acc, c :: rest => if c.toNat < 0x20 then none else readString fuel (c :: acc) rest

def isNumberChar (c : Char) : Bool :=
  Numeral.isDigit c || c == '-' || c == '+' || c == '.' || c == 'e' || c == 'E'

def readWord (word : String) (value : Json) (cs : List Char) : Option (Json × List Char) :=
  if word.toList.isPrefixOf cs then some (value, cs.drop word.length) else none

mutual

def readValue : Nat → List Char → Option (Json × List Char)
  | 0, _ => none
  | fuel + 1, cs =>
    match cs.dropWhile isSpace with
    | '"' :: rest => (readString (rest.length + 1) [] rest).map fun r => (.string r.1, r.2)
    | '[' :: rest =>
      match rest.dropWhile isSpace with
      | ']' :: rest => some (.array [], rest)
      | rest => readItems fuel [] rest
    | '\x7b' :: rest =>
      match rest.dropWhile isSpace with
      | '\x7d' :: rest => some (.object [], rest)
      | rest => readFields fuel [] rest
    | 't' :: rest => readWord "true" (.bool true) ('t' :: rest)
    | 'f' :: rest => readWord "false" (.bool false) ('f' :: rest)
    | 'n' :: rest => readWord "null" .null ('n' :: rest)
    | rest =>
      let literal := rest.takeWhile isNumberChar
      if literal.isEmpty then none
      else some (.number (String.ofList literal), rest.dropWhile isNumberChar)

/-- The items of an array, of which `acc` were read. -/
def readItems : Nat → List Json → List Char → Option (Json × List Char)
  | 0, _, _ => none
  | fuel + 1, acc, cs =>
    match readValue fuel cs with
    | none => none
    | some (item, rest) =>
      match rest.dropWhile isSpace with
      | ',' :: rest => readItems fuel (item :: acc) rest
      | ']' :: rest => some (.array (item :: acc).reverse, rest)
      | _ => none

/-- The fields of an object, of which `acc` were read. -/
def readFields : Nat → List (String × Json) → List Char → Option (Json × List Char)
  | 0, _, _ => none
  | fuel + 1, acc, cs =>
    match cs.dropWhile isSpace with
    | '"' :: rest =>
      match readString (rest.length + 1) [] rest with
      | none => none
      | some (key, rest) =>
        match rest.dropWhile isSpace with
        | ':' :: rest =>
          match readValue fuel rest with
          | none => none
          | some (value, rest) =>
            match rest.dropWhile isSpace with
            | ',' :: rest => readFields fuel ((key, value) :: acc) rest
            | '\x7d' :: rest => some (.object ((key, value) :: acc).reverse, rest)
            | _ => none
        | _ => none
    | _ => none

end

def read? (text : String) : Option Json :=
  let cs := text.toList
  match readValue (cs.length + 1) cs with
  | some (value, rest) => if rest.all isSpace then some value else none
  | none => none

/-! ## Meaning -/

/-- The field `key` of an object, the last one if there are several. -/
def field? (j : Json) (key : String) : Option Json :=
  match j with
  | .object fields => fields.reverse.lookup key
  | _ => none

def string? : Json → Option String
  | .string value => some value
  | _ => none

def bool? : Json → Option Bool
  | .bool value => some value
  | _ => none

def items? : Json → Option (List Json)
  | .array items => some items
  | _ => none

/-- The number that is written without sign, point and exponent. -/
def nat? : Json → Option Nat
  | .number literal => if literal.toList.all Numeral.isDigit then literal.toNat? else none
  | _ => none

/-- The integer that is written without point and exponent. -/
def int? : Json → Option Int
  | .number literal =>
    match literal.toList with
    | '-' :: ds => if ds.all Numeral.isDigit then (Nat.cast <$> (String.ofList ds).toNat?).map
        fun n : Int => -n else none
    | ds => if ds.all Numeral.isDigit then literal.toNat?.map Int.ofNat else none
  | _ => none

/-- The digits of a number that are taken into account: as many as fit into 64 bits.  The second
part counts the digits left out. -/
def takeDigits : List Char → Nat × Nat → Nat × Nat
  | [], acc => acc
  | c :: cs, (value, dropped) =>
    let next := value * 10 + (c.toNat - '0'.toNat)
    if dropped = 0 ∧ next < 2 ^ 64 then takeDigits cs (next, 0)
    else takeDigits cs (value, dropped + 1)

/-- `± digits · 10 ^ exponent`, with the digits rounded to a double first and multiplied, or
divided, by the power afterwards. -/
def scaleDecimal (negative : Bool) (digits : Nat) (exponent : Int) : Option Binary64 :=
  let start := Binary64.ofRatio negative digits 1
  if digits = 0 then some start
  else if 308 < exponent then none
  else if 0 ≤ exponent then
    match start.mul (Numeral.ofDecimal false 1 exponent) with
    | .infinite _ => none
    | x => some x
  else if -308 ≤ exponent then some (start.div (Numeral.ofDecimal false 1 (-exponent)))
  else if -616 ≤ exponent then
    some ((start.div (Numeral.ofDecimal false 1 308)).div
      (Numeral.ofDecimal false 1 (-exponent - 308)))
  else some (.finite negative 0 Binary64.minExponent)

/-- The double that a number names. -/
def double? : Json → Option Binary64
  | .number literal =>
    let cs := literal.toList
    let negative := cs.head? == some '-'
    let cs := if negative then cs.tail else cs
    let int := cs.takeWhile Numeral.isDigit
    let rest := cs.dropWhile Numeral.isDigit
    let hasPoint := rest.head? == some '.'
    let frac := if hasPoint then rest.tail.takeWhile Numeral.isDigit else []
    let rest := if hasPoint then rest.tail.dropWhile Numeral.isDigit else rest
    let (front, dropped) := takeDigits int (0, 0)
    let (digits, skipped) :=
      if dropped = 0 then takeDigits frac (front, 0) else (front, frac.length)
    let base : Int := (dropped : Int) - ((frac.length - skipped : Nat) : Int)
    match rest with
    | [] => scaleDecimal negative digits base
    | _ :: exponent => (Numeral.readExponent? exponent).bind fun e =>
        scaleDecimal negative digits (base + e)
  | _ => none

end Json

end Judge
