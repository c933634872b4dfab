import Judge.Text.Cut
import Mathlib.Data.List.Basic
import Mathlib.Tactic.IntervalCases

/-!
# Proofs/Utf8 — reading and writing are inverse

A byte string is valid if and only if it is written by some text, and then by that text alone
(`decode?_eq_some_iff`).  A character is read exactly where its bytes stand (`next_encodeChar`,
`eq_encodeChar_of_next`).  These are a first byte and up to three that continue it (`trail`);
`lead_cases` and `follow_succ` say what the reader accepts, `lead_two` … and `follow_trail` that it
accepts what is written.

Bytes that are not valid are read too, with a mark for each broken piece; an ASCII character is then
found as often as its byte (`count_decodeLossy`).
-/

namespace Judge

open List

namespace Utf8

/-! ## The bytes of a character -/

/-- A byte that continues a character: the last six bits of `n`. -/
def trail (n : Nat) : UInt8 := UInt8.ofNat (n % 64 + 0x80)

theorem toNat_ofNat_of_lt {n : Nat} (h : n < 256) : (UInt8.ofNat n).toNat = n := by
  rw [UInt8.toNat_ofNat']
  exact Nat.mod_eq_of_lt h

theorem toNat_trail (n : Nat) : (trail n).toNat = n % 64 + 0x80 :=
  toNat_ofNat_of_lt (by omega)

/-- How a character is written, by the number of its bytes. -/
theorem encodeChar_eq (c : Char) :
    encodeChar c =
      if c.toNat ≤ 0x7F then [UInt8.ofNat c.toNat]
      else if c.toNat ≤ 0x7FF then [UInt8.ofNat (c.toNat / 64 % 32 + 0xC0), trail c.toNat]
      else if c.toNat ≤ 0xFFFF then
        [UInt8.ofNat (c.toNat / 4096 % 16 + 0xE0), trail (c.toNat / 64), trail c.toNat]
      else
        [UInt8.ofNat (c.toNat / 262144 % 8 + 0xF0), trail (c.toNat / 4096), trail (c.toNat / 64),
          trail c.toNat] := rfl

/-! ## What a first byte announces -/

theorem lead_one {n : Nat} (h : n < 0x80) : lead (UInt8.ofNat n) = some ⟨0, 0x80, 0xBF, n⟩ := by
  have hn : (UInt8.ofNat n).toNat = n := toNat_ofNat_of_lt (by omega)
  have hlt : UInt8.ofNat n < 0x80 := by
    rw [UInt8.lt_iff_toNat_lt, hn]
    exact h
  rw [lead, if_pos hlt, hn]

theorem lead_two {x : Nat} (hlow : 2 ≤ x) (hhigh : x < 32) :
    lead (UInt8.ofNat (x + 0xC0)) = some ⟨1, 0x80, 0xBF, x⟩ := by
  interval_cases x <;> rfl

theorem lead_three {x : Nat} (h : x < 16) :
    lead (UInt8.ofNat (x + 0xE0))
      = some ⟨2, if x = 0 then 0xA0 else 0x80, if x = 13 then 0x9F else 0xBF, x⟩ := by
  interval_cases x <;> rfl

theorem lead_four {x : Nat} (h : x ≤ 4) :
    lead (UInt8.ofNat (x + 0xF0))
      = some ⟨3, if x = 0 then 0x90 else 0x80, if x = 4 then 0x8F else 0xBF, x⟩ := by
  interval_cases x <;> rfl

variable {b : UInt8}

/-- No character begins in the middle of one, in a form that is not the shortest, or beyond the
last. -/
theorem lead_eq_none (h : 0x80 ≤ b.toNat) (h' : b.toNat < 0xC2 ∨ 0xF4 < b.toNat) :
    lead b = none := by
  have hle : b.toNat ≤ 255 := Nat.le_of_lt_succ b.toNat_lt_size
  rw [← UInt8.ofNat_toNat (x := b)]
  generalize b.toNat = n at *
  rcases h' with h' | h' <;> interval_cases n <;> rfl

/-- **A first byte is of one of these four kinds.** -/
theorem lead_cases {l : Lead} (h : lead b = some l) :
    (∃ n < 0x80, b = UInt8.ofNat n) ∨ (∃ x, 2 ≤ x ∧ x < 32 ∧ b = UInt8.ofNat (x + 0xC0)) ∨
    (∃ x < 16, b = UInt8.ofNat (x + 0xE0)) ∨ (∃ x ≤ 4, b = UInt8.ofNat (x + 0xF0)) := by
  have hsub : ∀ k ≤ b.toNat, b = UInt8.ofNat (b.toNat - k + k) := by
    intro k hk
    rw [Nat.sub_add_cancel hk, UInt8.ofNat_toNat]
  have hsome : ¬ (0x80 ≤ b.toNat ∧ (b.toNat < 0xC2 ∨ 0xF4 < b.toNat)) := by
    rintro ⟨h1, h2⟩
    rw [lead_eq_none h1 h2] at h
    cases h
  by_cases h1 : b.toNat < 0x80
  · exact .inl ⟨b.toNat, h1, hsub 0 (Nat.zero_le _)⟩
  by_cases h2 : b.toNat < 0xE0
  · exact .inr (.inl ⟨b.toNat - 0xC0, by omega, by omega, hsub _ (by omega)⟩)
  by_cases h3 : b.toNat < 0xF0
  · exact .inr (.inr (.inl ⟨b.toNat - 0xE0, by omega, hsub _ (by omega)⟩))
  · exact .inr (.inr (.inr ⟨b.toNat - 0xF0, by omega, hsub _ (by omega)⟩))

/-! ## What follows it -/

/-- A continuing byte in its range adds its six bits. -/
theorem follow_trail {low high : UInt8} {n : Nat} (hlow : low.toNat ≤ n % 64 + 0x80)
    (hhigh : n % 64 + 0x80 ≤ high.toNat) (k acc : Nat) (rest : Bytes) :
    follow (k + 1) low high acc (trail n :: rest)
      = follow k 0x80 0xBF (acc * 64 + n % 64) rest := by
  have hrange : low ≤ trail n ∧ trail n ≤ high := by
    simp only [UInt8.le_iff_toNat_le, toNat_trail]
    exact ⟨hlow, hhigh⟩
  rw [follow, if_pos hrange, toNat_trail]
  congr 2
  omega

variable {bs rest : Bytes} {c : Char}

/-- Nothing but a continuing byte in its range leads on. -/
theorem follow_succ {k : Nat} {low high : UInt8} {acc : Nat} (h80 : 0x80 ≤ low.toNat)
    (hBF : high.toNat ≤ 0xBF) (h : follow (k + 1) low high acc bs = (some c, rest)) :
    ∃ n more, bs = trail n :: more ∧ n < 64 ∧ low.toNat ≤ n + 0x80 ∧ n + 0x80 ≤ high.toNat ∧
      follow k 0x80 0xBF (acc * 64 + n) more = (some c, rest) := by
  cases bs with
  | nil => cases h
  | cons b more =>
    rw [follow] at h
    split at h
    · rename_i hrange
      simp only [UInt8.le_iff_toNat_le] at hrange
      have hb : b = trail (b.toNat % 64) := by
        rw [← UInt8.toNat_inj, toNat_trail]
        omega
      exact ⟨b.toNat % 64, more, by rw [← hb], by omega, by omega, by omega, h⟩
    · cases h

/-! ## One character -/

/-- **A character is read where it stands.** -/
theorem next_encodeChar (c : Char) :
    ∃ b bs, encodeChar c = b :: bs ∧ ∀ rest, next b (bs ++ rest) = (some c, rest) := by
  have hvalid : c.toNat < 0xD800 ∨ (0xDFFF < c.toNat ∧ c.toNat < 0x110000) := c.valid
  have hread : ∀ n rest, n = c.toNat → follow 0 0x80 0xBF n rest = (some c, rest) := by
    rintro n rest rfl
    rw [follow, Char.ofNat_toNat]
  rw [encodeChar_eq]
  split_ifs with h1 h2 h3
  · refine ⟨_, _, rfl, fun rest => ?_⟩
    rw [next, lead_one (by omega)]
    exact hread _ _ rfl
  · refine ⟨_, _, rfl, fun rest => ?_⟩
    rw [next, lead_two (by omega) (by omega)]
    dsimp only [cons_append, nil_append]
    rw [follow_trail (by simp) (by simp; omega)]
    exact hread _ _ (by omega)
  · refine ⟨_, _, rfl, fun rest => ?_⟩
    rw [next, lead_three (by omega)]
    dsimp only [cons_append, nil_append]
    -- a first byte without bits needs the second one, and the surrogates are left out
    rw [follow_trail (by split_ifs <;> simp; omega) (by split_ifs <;> (simp; omega)),
      follow_trail (by simp) (by simp; omega)]
    exact hread _ _ (by omega)
  · refine ⟨_, _, rfl, fun rest => ?_⟩
    rw [next, lead_four (by omega)]
    dsimp only [cons_append, nil_append]
    rw [follow_trail (by split_ifs <;> simp; omega) (by split_ifs <;> (simp; omega)),
      follow_trail (by simp) (by simp; omega), follow_trail (by simp) (by simp; omega)]
    exact hread _ _ (by omega)

theorem trail_add (m n : Nat) : trail (m * 64 + n) = trail n := by
  rw [trail, trail, Nat.mul_add_mod']

theorem follow_zero {low high : UInt8} {acc : Nat}
    (hvalid : acc < 0xD800 ∨ (0xDFFF < acc ∧ acc < 0x110000))
    (h : follow 0 low high acc bs = (some c, rest)) : c.toNat = acc ∧ bs = rest := by
  rw [follow] at h
  obtain ⟨hc, hrest⟩ := Prod.mk.inj h
  refine ⟨?_, hrest⟩
  rw [← Option.some.inj hc, Char.ofNat, dif_pos hvalid]
  rfl

/-- **What is read as a character are its bytes.** -/
theorem eq_encodeChar_of_next (h : next b bs = (some c, rest)) :
    b :: bs = encodeChar c ++ rest := by
  cases hl : lead b with
  | none =>
    rw [next, hl] at h
    cases h
  | some l =>
    rcases lead_cases hl with ⟨n, hn, rfl⟩ | ⟨x, hx, hx', rfl⟩ | ⟨x, hx, rfl⟩ | ⟨x, hx, rfl⟩
    · rw [next, lead_one hn] at h
      dsimp only at h
      obtain ⟨hc, rfl⟩ := follow_zero (by omega) h
      rw [encodeChar_eq, hc, if_pos (by omega)]
      rfl
    · rw [next, lead_two hx hx'] at h
      dsimp only at h
      obtain ⟨y, bs, rfl, hy, -, -, h⟩ := follow_succ (by simp) (by simp) h
      obtain ⟨hc, rfl⟩ := follow_zero (by omega) h
      rw [encodeChar_eq, hc, if_neg (by omega), if_pos (by omega), trail_add,
        show (x * 64 + y) / 64 % 32 = x by omega]
      rfl
    · rw [next, lead_three hx] at h
      dsimp only at h
      obtain ⟨y, bs, rfl, hy, hlow, hhigh, h⟩ := follow_succ (by split_ifs <;> simp)
        (by split_ifs <;> simp) h
      obtain ⟨z, bs, rfl, hz, -, -, h⟩ := follow_succ (by simp) (by simp) h
      -- the range of the second byte keeps the number clear of short forms and surrogates
      have hlow : x = 0 → 0x20 ≤ y := by rintro rfl; simpa using hlow
      have hhigh : x = 13 → y < 0x20 := by rintro rfl; simp at hhigh; omega
      obtain ⟨hc, rfl⟩ := follow_zero (by omega) h
      rw [encodeChar_eq, hc, if_neg (by omega), if_neg (by omega), if_pos (by omega), trail_add,
        show ((x * 64 + y) * 64 + z) / 64 = x * 64 + y by omega, trail_add,
        show ((x * 64 + y) * 64 + z) / 4096 % 16 = x by omega]
      rfl
    · rw [next, lead_four hx] at h
      dsimp only at h
      obtain ⟨y, bs, rfl, hy, hlow, hhigh, h⟩ := follow_succ (by split_ifs <;> simp)
        (by split_ifs <;> simp) h
      obtain ⟨z, bs, rfl, hz, -, -, h⟩ := follow_succ (by simp) (by simp) h
      obtain ⟨u, bs, rfl, hu, -, -, h⟩ := follow_succ (by simp) (by simp) h
      have hlow : x = 0 → 0x10 ≤ y := by rintro rfl; simpa using hlow
      have hhigh : x = 4 → y < 0x10 := by rintro rfl; simp at hhigh; omega
      obtain ⟨hc, rfl⟩ := follow_zero (by omega) h
      rw [encodeChar_eq, hc, if_neg (by omega), if_neg (by omega), if_neg (by omega), trail_add,
        show (((x * 64 + y) * 64 + z) * 64 + u) / 64 = (x * 64 + y) * 64 + z by omega, trail_add,
        show (((x * 64 + y) * 64 + z) * 64 + u) / 4096 = x * 64 + y by omega, trail_add,
        show (((x * 64 + y) * 64 + z) * 64 + u) / 262144 % 8 = x by omega]
      rfl

/-! ## Whole texts -/

/-- What was read before only stands in front. -/
theorem unitsFrom_eq (done : List (Option Char)) (bs : Bytes) :
    unitsFrom done bs = done.reverse ++ units bs := by
  induction hlength : bs.length using Nat.strongRecOn generalizing done bs with
  | ind n ih =>
    cases bs with
    | nil => simp [units, unitsFrom]
    | cons b rest =>
      have hlt : (next b rest).2.length < n := by
        rw [← hlength]
        exact Nat.lt_succ_of_le (length_next_le b rest)
      rw [units, unitsFrom, unitsFrom, ih _ hlt _ _ rfl, ih _ hlt [_] _ rfl]
      simp

@[simp] theorem units_nil : units [] = [] := by
  rw [units, unitsFrom, reverse_nil]

theorem units_cons (b : UInt8) (rest : Bytes) :
    units (b :: rest) = (next b rest).1 :: units (next b rest).2 := by
  rw [units, unitsFrom, unitsFrom_eq]
  rfl

theorem units_encodeChar_append (c : Char) (bs : Bytes) :
    units (encodeChar c ++ bs) = some c :: units bs := by
  obtain ⟨b, rest, hchar, hnext⟩ := next_encodeChar c
  rw [hchar, cons_append, units_cons, hnext]

theorem units_encode_append (cs : List Char) (bs : Bytes) :
    units (encode cs ++ bs) = cs.map some ++ units bs := by
  induction cs with
  | nil => rfl
  | cons c cs ih =>
    rw [encode_cons, append_assoc, units_encodeChar_append, ih, map_cons, cons_append]

/-- **A text is read back.** -/
theorem units_encode (cs : List Char) : units (encode cs) = cs.map some := by
  simpa using units_encode_append cs []

/-- **Bytes with no broken piece are those of their text.** -/
theorem eq_encode_of_units {cs : List Char} (h : units bs = cs.map some) : bs = encode cs := by
  induction cs generalizing bs with
  | nil =>
    cases bs with
    | nil => rfl
    | cons b rest =>
      rw [units_cons] at h
      cases h
  | cons c cs ih =>
    cases bs with
    | nil =>
      rw [units_nil] at h
      cases h
    | cons b rest =>
      rw [units_cons, map_cons] at h
      obtain ⟨hchar, hrest⟩ := cons.inj h
      rw [encode_cons, ← ih hrest]
      exact eq_encodeChar_of_next (Prod.ext hchar rfl)

theorem mapM_id_eq_some_iff {us : List (Option Char)} {cs : List Char} :
    us.mapM id = some cs ↔ us = cs.map some := by
  induction us generalizing cs with
  | nil => cases cs <;> simp
  | cons u us ih =>
    cases u with
    | none => cases cs <;> simp
    | some c => cases cs <;> simp [Option.bind_eq_some_iff, ih, and_comm]

/-- **The valid byte strings are those that some text writes**, and it is read from them. -/
theorem decode?_eq_some_iff {cs : List Char} : decode? bs = some cs ↔ bs = encode cs := by
  rw [decode?, mapM_id_eq_some_iff]
  constructor
  · exact eq_encode_of_units
  · rintro rfl
    exact units_encode cs

theorem decode?_utf8 (s : String) : decode? (utf8 s) = some s.toList :=
  decode?_eq_some_iff.mpr rfl

theorem text?_eq_some_iff {s : String} : text? bs = some s ↔ bs = utf8 s := by
  rw [text?, Option.map_eq_some_iff]
  constructor
  · rintro ⟨cs, hcs, rfl⟩
    rw [decode?_eq_some_iff.mp hcs, utf8, String.toList_ofList]
  · rintro rfl
    exact ⟨s.toList, decode?_utf8 s, String.ofList_toList⟩

/-- The lossy reading loses nothing of a text. -/
theorem decodeLossy_encode (cs : List Char) : decodeLossy (encode cs) = cs := by
  simp [decodeLossy, units_encode]

/-- The bytes of the text that is shown for `bs`. -/
def mended (bs : Bytes) : Bytes := encode (decodeLossy bs)

theorem mended_eq_self (h : (decode? bs).isSome) : mended bs = bs := by
  obtain ⟨cs, hcs⟩ := Option.isSome_iff_exists.mp h
  rw [decode?_eq_some_iff.mp hcs, mended, decodeLossy_encode]

/-! ## Cutting texts at ASCII characters -/

theorem le_of_mem_encodeChar (hc : 0x7F < c.toNat) (hb : b ∈ encodeChar c) : 0x80 ≤ b.toNat := by
  have htrail : ∀ n, 0x80 ≤ (trail n).toNat := fun n => by
    rw [toNat_trail]
    omega
  have hfirst : ∀ {n}, 0x80 ≤ n → n < 256 → 0x80 ≤ (UInt8.ofNat n).toNat := fun hn hn' => by
    rwa [toNat_ofNat_of_lt hn']
  rw [encodeChar_eq, if_neg (by omega)] at hb
  split_ifs at hb with h2 h3
  · simp only [mem_cons, not_mem_nil, or_false] at hb
    rcases hb with rfl | rfl
    · exact hfirst (by omega) (by omega)
    · exact htrail _
  · simp only [mem_cons, not_mem_nil, or_false] at hb
    rcases hb with rfl | rfl | rfl
    · exact hfirst (by omega) (by omega)
    all_goals exact htrail _
  · simp only [mem_cons, not_mem_nil, or_false] at hb
    rcases hb with rfl | rfl | rfl | rfl
    · exact hfirst (by omega) (by omega)
    all_goals exact htrail _

/-- **An ASCII byte occurs in no character but its own.** -/
theorem mem_encodeChar (hb : b.toNat < 0x80) (c : Char) : b ∈ encodeChar c ↔ c.toNat = b.toNat := by
  by_cases hc : c.toNat ≤ 0x7F
  · rw [encodeChar_eq, if_pos hc, mem_singleton, ← UInt8.toNat_inj,
      toNat_ofNat_of_lt (by omega)]
    exact eq_comm
  · refine ⟨fun hmem => ?_, fun heq => ?_⟩
    · have := le_of_mem_encodeChar (by omega) hmem
      omega
    · omega

theorem mem_utf8 {c : Char} (hc : c.toNat < 0x80) (s : String) :
    UInt8.ofNat c.toNat ∈ utf8 s ↔ c ∈ s.toList := by
  have hb : (UInt8.ofNat c.toNat).toNat = c.toNat := toNat_ofNat_of_lt (by omega)
  simp [utf8, encode, mem_encodeChar (hb.trans_lt hc), hb, Char.toNat_inj]

theorem count_encodeChar (hc : c.toNat < 0x80) (d : Char) :
    (encodeChar d).count (UInt8.ofNat c.toNat) = if d = c then 1 else 0 := by
  have hbyte : (UInt8.ofNat c.toNat).toNat = c.toNat := toNat_ofNat_of_lt (by omega)
  split
  · rename_i heq
    subst heq
    rw [encodeChar_eq, if_pos (by omega), count_singleton_self]
  · rename_i hne
    refine count_eq_zero.mpr fun hmem => hne ?_
    rw [mem_encodeChar (by omega), hbyte] at hmem
    exact Char.toNat_inj.mp hmem

/-! ### ASCII characters within a byte string -/

theorem lead_range {l : Lead} (h : lead b = some l) : 0x80 ≤ l.low.toNat ∧ l.high.toNat ≤ 0xBF := by
  unfold lead at h
  repeat' split at h
  all_goals cases h
  all_goals dsimp only; decide

/-- What is taken for a broken piece has no ASCII byte after its first one. -/
theorem count_follow_none {a : UInt8} (ha : a.toNat < 0x80) {k : Nat} {low high : UInt8} {acc : Nat}
    (hlow : 0x80 ≤ low.toNat) (h : follow k low high acc bs = (none, rest)) :
    bs.count a = rest.count a := by
  induction bs generalizing k low high acc with
  | nil =>
    cases k with
    | zero => cases h
    | succ k =>
      cases h
      rfl
  | cons b bs ih =>
    cases k with
    | zero => cases h
    | succ k =>
      rw [follow] at h
      split at h
      · rename_i hrange
        have hle : low.toNat ≤ b.toNat := UInt8.le_iff_toNat_le.mp hrange.1
        have hne : b ≠ a := fun heq => by
          subst heq
          omega
        rw [count_cons_of_ne hne]
        exact ih (by decide) h
      · cases h
        rfl

/-- A broken piece has no ASCII byte. -/
theorem count_next_none {a : UInt8} (ha : a.toNat < 0x80) (h : next b bs = (none, rest)) :
    (b :: bs).count a = rest.count a := by
  -- an ASCII byte is a character by itself
  have hne : b ≠ a := fun heq => by
    subst heq
    have hlead := lead_one ha
    rw [UInt8.ofNat_toNat] at hlead
    rw [next, hlead] at h
    cases h
  rw [count_cons_of_ne hne]
  cases hl : lead b with
  | none =>
    rw [next, hl] at h
    cases h
    rfl
  | some l =>
    rw [next, hl] at h
    exact count_follow_none ha (lead_range hl).1 h

/-- **An ASCII character is shown as often as its byte stands there**, broken as the bytes may
be. -/
theorem count_decodeLossy (hc : c.toNat < 0x80) (bs : Bytes) :
    (decodeLossy bs).count c = bs.count (UInt8.ofNat c.toNat) := by
  have hbyte : (UInt8.ofNat c.toNat).toNat < 0x80 := by rwa [toNat_ofNat_of_lt (by omega)]
  induction hlength : bs.length using Nat.strongRecOn generalizing bs with
  | ind n ih =>
    cases bs with
    | nil => rw [decodeLossy, units_nil, map_nil, count_nil, count_nil]
    | cons b bs =>
      have hlt : (next b bs).2.length < n := by
        rw [← hlength]
        exact Nat.lt_succ_of_le (length_next_le b bs)
      have hrest := ih _ hlt (next b bs).2 rfl
      rw [decodeLossy, units_cons, map_cons, count_cons, ← decodeLossy, hrest]
      cases hnext : (next b bs).1 with
      | none =>
        have hshown : '�' ≠ c := fun heq => by
          subst heq
          exact absurd hc (by decide)
        rw [count_next_none hbyte (Prod.ext hnext rfl)]
        simp [hshown]
      | some d =>
        rw [eq_encodeChar_of_next (Prod.ext hnext rfl), count_append, count_encodeChar hc,
          Nat.add_comm]
        simp

/-- An ASCII character is shown only where its byte stands. -/
theorem mem_of_mem_decodeLossy (hc : c.toNat < 0x80) (h : c ∈ decodeLossy bs) :
    UInt8.ofNat c.toNat ∈ bs := by
  rw [← count_pos_iff, ← count_decodeLossy hc]
  exact count_pos_iff.mpr h

end Utf8

section Split

variable {α : Type} {p : α → Bool}

theorem splitWhere_cons {x : α} (hx : p x = true) (xs : List α) :
    splitWhere p (x :: xs) = [] :: splitWhere p xs := by
  simp [splitWhere, hx]

/-- A list without separators goes in front of the first piece. -/
theorem splitWhere_append {xs : List α} (hxs : ∀ x ∈ xs, p x = false) {ys piece : List α}
    {more : List (List α)} (hys : splitWhere p ys = piece :: more) :
    splitWhere p (xs ++ ys) = (xs ++ piece) :: more := by
  induction xs with
  | nil => exact hys
  | cons x xs ih =>
    have hrest := ih fun y hy => hxs y (mem_cons_of_mem _ hy)
    have hx : p x = false := hxs x mem_cons_self
    rw [splitWhere] at hrest
    simp [splitWhere, hx, hrest]

theorem splitWhere_eq_singleton {xs : List α} (hxs : ∀ x ∈ xs, p x = false) :
    splitWhere p xs = [xs] := by
  have h := splitWhere_append hxs (rfl : splitWhere p [] = [[]])
  rwa [append_nil] at h

/-- The first separator ends the first piece. -/
theorem splitWhere_append_cons {xs : List α} {x : α} (hxs : ∀ y ∈ xs, p y = false)
    (hx : p x = true) (ys : List α) : splitWhere p (xs ++ x :: ys) = xs :: splitWhere p ys := by
  rw [splitWhere_append hxs (splitWhere_cons hx ys), append_nil]

/-- There is always a first piece. -/
theorem splitWhere_ne_nil (p : α → Bool) (xs : List α) : splitWhere p xs ≠ [] := by
  cases xs with
  | nil => simp [splitWhere]
  | cons x xs =>
    rw [splitWhere, foldr_cons]
    split
    · simp
    · split <;> simp

/-- **A list is its pieces with separators between them**, and no piece has one. -/
theorem splitWhere_spec [BEq α] [LawfulBEq α] (sep : α) (xs : List α) :
    [sep].intercalate (splitWhere (· == sep) xs) = xs ∧
      ∀ piece ∈ splitWhere (· == sep) xs, sep ∉ piece := by
  induction xs with
  | nil => simp [splitWhere]
  | cons x xs ih =>
    obtain ⟨piece, more, hpieces⟩ :=
      exists_cons_of_ne_nil (splitWhere_ne_nil (· == sep) xs)
    rw [hpieces] at ih
    by_cases hx : x = sep
    · rw [splitWhere_cons (p := (· == sep)) (beq_iff_eq.mpr hx), hpieces,
        intercalate_cons_cons, ih.1, hx]
      exact ⟨rfl, forall_mem_cons.mpr ⟨not_mem_nil, ih.2⟩⟩
    · have hone : ∀ y ∈ [x], (y == sep) = false := by simpa using hx
      have hcons : splitWhere (· == sep) (x :: xs) = (x :: piece) :: more :=
        splitWhere_append hone hpieces
      obtain ⟨hhead, hmore⟩ := forall_mem_cons.mp ih.2
      rw [hcons]
      refine ⟨?_, forall_mem_cons.mpr ⟨?_, hmore⟩⟩
      · have hshift : [sep].intercalate ((x :: piece) :: more)
            = x :: [sep].intercalate (piece :: more) := by
          cases more <;> simp
        rw [hshift, ih.1]
      · exact not_mem_cons_of_ne_of_not_mem (Ne.symm hx) hhead

end Split

namespace Utf8

/-- **Cutting the bytes of a text at an ASCII byte cuts the text at its character.** -/
theorem splitWhere_encode (hb : b.toNat < 0x80) (cs : List Char) :
    splitWhere (· == b) (encode cs) = (splitWhere (fun c => c.toNat == b.toNat) cs).map encode := by
  induction cs with
  | nil => rfl
  | cons c cs ih =>
    obtain ⟨piece, more, hpieces⟩ :=
      exists_cons_of_ne_nil (splitWhere_ne_nil (fun c => c.toNat == b.toNat) cs)
    rw [hpieces, map_cons] at ih
    by_cases hc : c.toNat = b.toNat
    · have hchar : encodeChar c = [b] := by
        rw [encodeChar_eq, if_pos (by omega), hc, UInt8.ofNat_toNat]
      rw [encode_cons, hchar, singleton_append, splitWhere_cons (p := (· == b)) BEq.rfl,
        splitWhere_cons (p := fun c : Char => c.toNat == b.toNat) (beq_iff_eq.mpr hc), hpieces, ih]
      rfl
    · have hnot : ∀ x ∈ encodeChar c, (x == b) = false := by
        intro x hx
        rw [beq_eq_false_iff_ne]
        rintro rfl
        exact hc ((mem_encodeChar hb c).mp hx)
      have hone : ∀ x ∈ [c], (x.toNat == b.toNat) = false := by simpa using hc
      have hcons : splitWhere (fun c => c.toNat == b.toNat) (c :: cs) = (c :: piece) :: more :=
        splitWhere_append hone hpieces
      rw [encode_cons, splitWhere_append hnot ih, hcons]
      rfl

end Utf8

end Judge
