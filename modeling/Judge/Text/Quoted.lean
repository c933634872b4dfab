import Judge.Text.Cut
import Judge.Text.Hidden

/-!
# Text/Quoted — texts as they are shown in messages

A shown text stands between double quotes.  Quotes, backslashes and the five common controls have
short forms, a hidden character is written by its number, and every other character stands for
itself.
-/

namespace Judge

def hexDigits (n : Nat) : List Char := Nat.toDigits 16 n

def quoteChar (c : Char) : List Char :=
  if c = '\x00' then ['\\', '0']
  else if c = '\t' then ['\\', 't']
  else if c = '\n' then ['\\', 'n']
  else if c = '\r' then ['\\', 'r']
  else if c = '"' then ['\\', '"']
  else if c = '\\' then ['\\', '\\']
  else if isHidden c then ['\\', 'u', '\x7b'] ++ hexDigits c.toNat ++ ['\x7d']
  else [c]

def quoteChars (cs : List Char) : List Char := ['"'] ++ cs.flatMap quoteChar ++ ['"']

def shown (s : String) : String := String.ofList (quoteChars s.toList)

/-- Raw data as it is shown: broken pieces appear as `U+FFFD`. -/
def shownBytes (bs : Bytes) : String := String.ofList (quoteChars (Utf8.decodeLossy bs))

def shownList (ss : List String) : String := "[" ++ ", ".intercalate (ss.map shown) ++ "]"

end Judge
