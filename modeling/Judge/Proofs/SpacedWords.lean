import Judge.Proofs.Comparisons

/-!
# Proofs/SpacedWords — what is compared when spaces are ignored

The words of raw data are the maximal runs in which no white space stands, where white space is the
bytes of a blank character (`Utf8.BlankBytes`).  They are found without reading the data as text.

The comparison that ignores spaces reads both sides as text first, with a mark for each broken
piece, and cuts the texts.  No byte but the first of a character can begin one, so a text is cut at
the same places as its bytes (`Utf8.words_decodeLossy`); but broken pieces are no longer told apart
then.  `Checker.ignoreSpaces_accepts` says what is left: words are compared as they are shown, which
is byte by byte unless one of them is broken.
-/

namespace Judge

open List

namespace Utf8

variable {b : UInt8} {bs xs ys w : Bytes} {ws : List Bytes} {c d : Char}

/-! ## Where a character begins -/

/-- A byte that may stand in a character but does not begin one. -/
def Continues (b : UInt8) : Prop := 0x80 ≤ b.toNat ∧ b.toNat ≤ 0xBF

/-- **The first byte of a character begins one, and no other byte of it does.** -/
theorem encodeChar_marked (c : Char) :
    ∃ b bs, encodeChar c = b :: bs ∧ ¬ Continues b ∧ ∀ x ∈ bs, Continues x := by
  have htrail : ∀ n, Continues (trail n) := fun n => by
    rw [Continues, toNat_trail]
    omega
  have hfirst : ∀ n < 256, n < 0x80 ∨ 0xC0 ≤ n → ¬ Continues (UInt8.ofNat n) := fun n hn hside => by
    rw [Continues, toNat_ofNat_of_lt hn]
    omega
  rw [encodeChar_eq]
  split_ifs with h1 h2 h3
  all_goals exact ⟨_, _, rfl, hfirst _ (by omega) (by omega), by simp [htrail]⟩

/-- What follows does not belong to a character that was begun before. -/
def AtStart (bs : Bytes) : Prop := ∀ b, bs.head? = some b → ¬ Continues b

theorem atStart_encodeChar_append (c : Char) (bs : Bytes) : AtStart (encodeChar c ++ bs) := by
  obtain ⟨b, more, hchar, hb, -⟩ := encodeChar_marked c
  intro x hx
  rw [hchar] at hx
  obtain rfl : b = x := Option.some.inj hx
  exact hb

theorem follow_append (hys : AtStart ys) {low high : UInt8} (hlow : 0x80 ≤ low.toNat)
    (hhigh : high.toNat ≤ 0xBF) (n acc : Nat) (bs : Bytes) :
    follow n low high acc (bs ++ ys) =
      ((follow n low high acc bs).1, (follow n low high acc bs).2 ++ ys) := by
  induction bs generalizing n low high acc with
  | nil =>
    cases n with
    | zero => rfl
    | succ n =>
      cases ys with
      | nil => rfl
      | cons y ys =>
        have hy : ¬ (low ≤ y ∧ y ≤ high) := fun hrange =>
          hys y rfl ⟨hlow.trans (UInt8.le_iff_toNat_le.mp hrange.1),
            (UInt8.le_iff_toNat_le.mp hrange.2).trans hhigh⟩
        rw [nil_append, follow, follow, if_neg hy]
        rfl
  | cons b bs ih =>
    cases n with
    | zero => rfl
    | succ n =>
      rw [cons_append, follow, follow]
      split
      · exact ih (by decide) (by decide) ..
      · rfl

theorem next_append (hys : AtStart ys) (b : UInt8) (bs : Bytes) :
    next b (bs ++ ys) = ((next b bs).1, (next b bs).2 ++ ys) := by
  unfold next
  cases hl : lead b with
  | none => rfl
  | some l => exact follow_append hys (lead_range hl).1 (lead_range hl).2 ..

/-- **Bytes are read in two parts** when the second one is at a start. -/
theorem units_append (xs : Bytes) (hys : AtStart ys) : units (xs ++ ys) = units xs ++ units ys := by
  induction hlength : xs.length using Nat.strongRecOn generalizing xs with
  | ind n ih =>
    cases xs with
    | nil => rw [units_nil, nil_append, nil_append]
    | cons b xs =>
      have hlt : (next b xs).2.length < n := by
        rw [← hlength]
        exact Nat.lt_succ_of_le (length_next_le b xs)
      rw [cons_append, units_cons, next_append hys, ih _ hlt _ rfl, units_cons,
        cons_append]

theorem follow_suffix (n : Nat) (low high : UInt8) (acc : Nat) (bs : Bytes) :
    (follow n low high acc bs).2 <:+ bs := by
  induction bs generalizing n low high acc with
  | nil => cases n <;> exact suffix_rfl
  | cons b bs ih =>
    cases n with
    | zero => exact suffix_rfl
    | succ n =>
      rw [follow]
      split
      · exact (ih ..).trans (suffix_cons b bs)
      · exact suffix_rfl

theorem next_suffix (b : UInt8) (bs : Bytes) : (next b bs).2 <:+ bs := by
  unfold next
  split
  · exact suffix_rfl
  · exact follow_suffix ..

/-- **A character is read if and only if its bytes occur.** -/
theorem some_mem_units_iff : some c ∈ units bs ↔ encodeChar c <:+: bs := by
  constructor
  · intro h
    induction hlength : bs.length using Nat.strongRecOn generalizing bs with
    | ind n ih =>
      cases bs with
      | nil =>
        rw [units_nil] at h
        exact absurd h not_mem_nil
      | cons b bs =>
        rw [units_cons] at h
        rcases mem_cons.mp h with hfirst | hlater
        · rw [eq_encodeChar_of_next (Prod.ext hfirst.symm rfl)]
          exact (prefix_append _ _).isInfix
        · have hlt : (next b bs).2.length < n := by
            rw [← hlength]
            exact Nat.lt_succ_of_le (length_next_le b bs)
          have hsuffix := (next_suffix b bs).trans (suffix_cons b bs)
          exact (ih _ hlt hlater rfl).trans hsuffix.isInfix
  · rintro ⟨front, back, rfl⟩
    rw [append_assoc, units_append front (atStart_encodeChar_append c back),
      units_encodeChar_append]
    simp

/-! ## White space -/

/-- **White space**: the bytes of a blank of text. -/
def BlankBytes (s : Bytes) : Prop := ∃ c, isBlank c = true ∧ s = encodeChar c

theorem crisp_blankBytes : Crisp BlankBytes where
  marked := by
    refine ⟨Continues, ?_⟩
    rintro _ ⟨c, -, rfl⟩
    exact encodeChar_marked c
  prefixFree := by
    rintro _ _ ⟨c, -, rfl⟩ ⟨d, -, rfl⟩ ⟨more, hmore⟩
    have hunits := units_encodeChar_append d []
    rw [append_nil, ← hmore, units_encodeChar_append] at hunits
    rw [Option.some.inj (cons.inj hunits).1]

theorem free_blankBytes_iff : Free BlankBytes w ↔ ∀ c, some c ∈ units w → isBlank c = false := by
  constructor
  · intro h c hc
    exact Bool.eq_false_iff.mpr fun hblank =>
      h _ ⟨c, hblank, rfl⟩ (some_mem_units_iff.mp hc)
  · rintro h _ ⟨c, hblank, rfl⟩ hoccurs
    rw [h c (some_mem_units_iff.mpr hoccurs)] at hblank
    contradiction

theorem decodeLossy_append (xs : Bytes) (hys : AtStart ys) :
    decodeLossy (xs ++ ys) = decodeLossy xs ++ decodeLossy ys := by
  rw [decodeLossy, units_append xs hys, map_append]
  rfl

theorem decodeLossy_encodeChar_append (c : Char) (bs : Bytes) :
    decodeLossy (encodeChar c ++ bs) = c :: decodeLossy bs := by
  rw [decodeLossy, units_encodeChar_append]
  rfl

theorem decodeLossy_ne_nil (h : bs ≠ []) : decodeLossy bs ≠ [] := by
  obtain ⟨b, more, rfl⟩ := exists_cons_of_ne_nil h
  rw [decodeLossy, units_cons]
  exact cons_ne_nil _ _

/-- A run without white space is shown without blanks: the mark of a broken piece is none. -/
theorem free_decodeLossy (h : Free BlankBytes w) : Free (OneOf isBlank) (decodeLossy w) := by
  refine free_oneOf_iff.mpr fun c hc => ?_
  obtain ⟨u, hu, rfl⟩ := mem_map.mp hc
  cases u with
  | none => decide
  | some c => exact free_blankBytes_iff.mp h c hu

/-- **A text is cut at the same places as its bytes.** -/
theorem maximalRuns_decodeLossy (h : MaximalRuns BlankBytes bs ws) :
    MaximalRuns (OneOf isBlank) (decodeLossy bs) (ws.map decodeLossy) := by
  induction h with
  | nil =>
    rw [decodeLossy, units_nil]
    exact .nil
  | skip hs _ ih =>
    obtain ⟨c, hblank, rfl⟩ := hs
    rw [decodeLossy_encodeChar_append]
    exact .skip ⟨c, hblank, rfl⟩ ih
  | @run w xs ws hne hfree hhalts _ ih =>
    have hstart : AtStart xs ∧ Halts (OneOf isBlank) (decodeLossy xs) := by
      rcases hhalts with rfl | ⟨s, ⟨c, hblank, rfl⟩, rest, rfl⟩
      · exact ⟨by simp [AtStart], .inl (by rw [decodeLossy, units_nil, map_nil])⟩
      · refine ⟨atStart_encodeChar_append c rest, .inr ⟨[c], ⟨c, hblank, rfl⟩, ?_⟩⟩
        rw [decodeLossy_encodeChar_append]
        exact prefix_append [c] _
    rw [decodeLossy_append w hstart.1]
    exact .run (decodeLossy_ne_nil hne) (free_decodeLossy hfree) hstart.2 ih

theorem words_decodeLossy (h : MaximalRuns BlankBytes bs ws) :
    words (decodeLossy bs) = ws.map decodeLossy :=
  (maximalRuns_oneOf_iff.mp (maximalRuns_decodeLossy h)).symm

theorem encode_injective : Function.Injective encode := fun cs ds h => by
  rw [← decodeLossy_encode cs, h, decodeLossy_encode]

theorem map_mended_eq_iff {ws vs : List Bytes} :
    ws.map mended = vs.map mended ↔ ws.map decodeLossy = vs.map decodeLossy := by
  have hmended : ∀ us : List Bytes, us.map mended = (us.map decodeLossy).map encode :=
    fun us => (map_map ..).symm
  rw [hmended, hmended, (map_injective_iff.mpr encode_injective).eq_iff]

end Utf8

namespace Checker

open Utf8 (BlankBytes mended decode?)

/-- **What is compared when spaces are ignored.**  Of either side these are the words between white
space, in their order.  They are compared as they are shown, with the same mark for every broken
piece, so a word that is accepted for another one is that word unless one of the two is broken. -/
theorem ignoreSpaces_accepts (eps : Binary64) (produced reference : Bytes) :
    ∃ ps rs : List Bytes, (∀ ws, MaximalRuns BlankBytes produced ws ↔ ws = ps) ∧
      (∀ ws, MaximalRuns BlankBytes reference ws ↔ ws = rs) ∧
      (compare eps produced reference .ignoreSpaces = .ok () ↔ ps.map mended = rs.map mended) ∧
      (compare eps produced reference .ignoreSpaces = .ok () → ps.length = rs.length ∧
        ∀ (i : Nat) (p r : Bytes), ps[i]? = some p → rs[i]? = some r →
          (decode? p).isSome → (decode? r).isSome → p = r) := by
  obtain ⟨ps, hps⟩ := Utf8.crisp_blankBytes.exists_maximalRuns_iff produced
  obtain ⟨rs, hrs⟩ := Utf8.crisp_blankBytes.exists_maximalRuns_iff reference
  have hiff : compare eps produced reference .ignoreSpaces = .ok () ↔
      ps.map mended = rs.map mended := by
    rw [compare, compareWords_eq_ok, Utf8.words_decodeLossy ((hps ps).mpr rfl),
      Utf8.words_decodeLossy ((hrs rs).mpr rfl), Utf8.map_mended_eq_iff]
  refine ⟨ps, rs, hps, hrs, hiff, fun haccepted => ?_⟩
  have hshown := hiff.mp haccepted
  refine ⟨by simpa using congrArg List.length hshown, fun i p r hp hr hvalid hvalid' => ?_⟩
  have hword : mended p = mended r := by
    have hat := congrArg (·[i]?) hshown
    simpa [hp, hr] using hat
  rwa [Utf8.mended_eq_self hvalid, Utf8.mended_eq_self hvalid'] at hword

/-- Two words that are broken in different ways are accepted for one another. -/
theorem broken_words_are_confused :
    compare .zero [0xFF] [0xFE] .ignoreSpaces = .ok () ∧
      MaximalRuns BlankBytes [0xFF] [[0xFF]] ∧ MaximalRuns BlankBytes [0xFE] [[0xFE]] := by
  have hbroken : ∀ b : UInt8, Utf8.lead b = none → Utf8.units [b] = [none] := by
    intro b hb
    rw [Utf8.units_cons, Utf8.next, hb]
    exact congrArg _ Utf8.units_nil
  have hrun : ∀ b : UInt8, Utf8.lead b = none → MaximalRuns BlankBytes [b] [[b]] := by
    intro b hb
    refine .run (List.cons_ne_nil b []) (Utf8.free_blankBytes_iff.mpr ?_) (.inl rfl) .nil
    simp [hbroken b hb]
  refine ⟨?_, hrun _ rfl, hrun _ rfl⟩
  rw [compare, compareWords_eq_ok, Utf8.decodeLossy, Utf8.decodeLossy, hbroken _ rfl, hbroken _ rfl]

end Checker

end Judge
