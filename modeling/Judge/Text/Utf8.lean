/-!
# Text/Utf8 — bytes as text

What programs print, what files hold and how files are called are `Bytes`.  `Utf8.units` cuts bytes
into characters and broken pieces; the strict and the lossy reading are two views of that one list,
and `Utf8.encode` is the way back.
-/

namespace Judge

/-- Raw data: what a program prints, what a file holds, what a file is called. -/
abbrev Bytes := List UInt8

/-- The order of byte strings, by their first difference. -/
def Bytes.le : Bytes → Bytes → Bool
  | [], _ => true
  | _ :: _, [] => false
  | a :: as, b :: bs => if a < b then true else if b < a then false else Bytes.le as bs

namespace Utf8

/-! ## Writing -/

def encodeChar (c : Char) : Bytes := String.utf8EncodeChar c

def encode (cs : List Char) : Bytes := cs.flatMap encodeChar

@[simp] theorem encode_nil : encode [] = [] := rfl

@[simp] theorem encode_cons (c : Char) (cs : List Char) :
    encode (c :: cs) = encodeChar c ++ encode cs := rfl

@[simp] theorem encode_append (xs ys : List Char) : encode (xs ++ ys) = encode xs ++ encode ys := by
  simp [encode]

/-! ## Reading

A first byte fixes how many bytes follow it and, for the shortest form to be the only form, which
range the second byte lies in.  Every later byte lies in `0x80–0xBF`. -/

/-- What a first byte announces: the bytes that follow, the range of the next one, and the bits it
carries itself. -/
structure Lead where
  more : Nat
  low : UInt8
  high : UInt8
  bits : Nat

/-- What the byte `b` announces as a first byte, if it can be one. -/
def lead (b : UInt8) : Option Lead :=
  if b < 0x80 then some ⟨0, 0x80, 0xBF, b.toNat⟩
  else if b < 0xC2 then none
  else if b < 0xE0 then some ⟨1, 0x80, 0xBF, b.toNat % 32⟩
  else if b = 0xE0 then some ⟨2, 0xA0, 0xBF, 0⟩
  else if b = 0xED then some ⟨2, 0x80, 0x9F, 13⟩
  else if b < 0xF0 then some ⟨2, 0x80, 0xBF, b.toNat % 16⟩
  else if b = 0xF0 then some ⟨3, 0x90, 0xBF, 0⟩
  else if b < 0xF4 then some ⟨3, 0x80, 0xBF, b.toNat % 8⟩
  else if b = 0xF4 then some ⟨3, 0x80, 0x8F, 4⟩
  else none

/-- Reads `n` following bytes, the first of them between `low` and `high`.  A byte that does not
belong is left where it is. -/
def follow : Nat → UInt8 → UInt8 → Nat → Bytes → Option Char × Bytes
  | 0, _, _, acc, rest => (some (Char.ofNat acc), rest)
  | _ + 1, _, _, _, [] => (none, [])
  | n + 1, low, high, acc, b :: rest =>
    if low ≤ b ∧ b ≤ high then follow n 0x80 0xBF (acc * 64 + b.toNat % 64) rest
    else (none, b :: rest)

/-- One unit: a character, or `none` for a broken piece, and what is left. -/
def next (b : UInt8) (rest : Bytes) : Option Char × Bytes :=
  match lead b with
  | none => (none, rest)
  | some l => follow l.more l.low l.high l.bits rest

theorem length_follow_le (n : Nat) (low high : UInt8) (acc : Nat) (rest : Bytes) :
    (follow n low high acc rest).2.length ≤ rest.length := by
  induction rest generalizing n low high acc with
  | nil => cases n <;> simp [follow]
  | cons b rest ih =>
    cases n with
    | zero => simp [follow]
    | succ n =>
      simp only [follow]
      split
      · exact Nat.le_succ_of_le (ih ..)
      · simp

theorem length_next_le (b : UInt8) (rest : Bytes) : (next b rest).2.length ≤ rest.length := by
  unfold next
  split
  · exact Nat.le_refl _
  · exact length_follow_le ..

/-- The units of `bs`, in front of which those of `done` were read, last one first. -/
def unitsFrom (done : List (Option Char)) : Bytes → List (Option Char)
  | [] => done.reverse
  | b :: rest => unitsFrom ((next b rest).1 :: done) (next b rest).2
termination_by bs => bs.length
decreasing_by exact Nat.lt_succ_of_le (length_next_le b rest)

/-- **The units of a byte string**: its characters, with `none` for every broken piece.  A broken
piece is as long as it could have been the beginning of a character. -/
def units (bs : Bytes) : List (Option Char) := unitsFrom [] bs

/-- The text of `bs` when no piece of it is broken. -/
def decode? (bs : Bytes) : Option (List Char) := (units bs).mapM id

/-- The text of `bs` with `U+FFFD` in the place of each broken piece. -/
def decodeLossy (bs : Bytes) : List Char := (units bs).map (·.getD '�')

def text? (bs : Bytes) : Option String := (decode? bs).map String.ofList

/-- The text of `bs`, broken pieces replaced. -/
def text (bs : Bytes) : String := String.ofList (decodeLossy bs)

end Utf8

def utf8 (s : String) : Bytes := Utf8.encode s.toList

end Judge
