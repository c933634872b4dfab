import Judge.CommandLine.Interactor
import Judge.Proofs.Rounding
import Judge.Proofs.ScriptLayout
import Judge.Proofs.Traces
import Judge.Proofs.Utf8

/-!
# Proofs/EndlessSleeps — the pause that no span holds

A script that cannot be read is reported as a crash of the conversation, with one exception.  A pause
may be any finite number of seconds, but a span holds fewer than `2 ^ 64`.  A script that comes to a
longer one breaks the interactor off, and nothing is reported.

`Overlong` says that a text writes such a pause, `Endless` where it has to stand to be met, and
`malformed_script_reported` that there is no other way out.
-/

namespace Judge

open Binary64

variable {m : Nat} {f : Int} {s : Bool}

/-! ## Seconds that no span holds -/

theorem Binary64.Rounds.canonical {q : ℚ} {s' : Bool} (h : Rounds s q (.finite s' m f)) :
    Canonical m f := by
  obtain ⟨e, k, -, -, hends⟩ := h.exists_step
  cases hends with
  | finite hm => exact hm

theorem Numeral.canonical_ofDecimal {negative : Bool} {digits : Nat} {exponent : Int}
    (h : ofDecimal negative digits exponent = .finite s m f) : Canonical m f := by
  unfold ofDecimal at h
  split at h
  · cases h
    exact canonical_subnormal (by norm_num)
  split at h
  · cases h
  split at h
  · cases h
    exact canonical_subnormal (by norm_num)
  split at h
  · exact Rounds.canonical ⟨_, _, one_ne_zero, rfl, h.symm⟩
  · exact Rounds.canonical ⟨_, _, (Nat.pow_pos (by norm_num)).ne', rfl, h.symm⟩

theorem canonical_of_readDouble {raw : List Char} (h : readDouble raw = .ok (.finite s m f)) :
    Canonical m f := by
  obtain ⟨numeral, -, hvalue⟩ := ok_of_map h
  cases numeral with
  | decimal => exact Numeral.canonical_ofDecimal hvalue
  | nan | infinite => cases hvalue

/-- **A span holds fewer than `2 ^ 64` seconds.** -/
theorem Span.ofSeconds?_eq_none_iff (hm : Canonical m f) :
    Span.ofSeconds? (.finite s m f) = none ↔ (2 : ℚ) ^ 64 ≤ m * 2 ^ f := by
  have hnone : Span.ofSeconds? (.finite s m f) = none ↔
      2 ^ 64 * perSecond ≤ (ofDyadicSeconds m f).nanos := by
    simp [ofSeconds?]
  rw [hnone, ofDyadicSeconds]
  split
  · rename_i hf
    obtain ⟨k, rfl⟩ := Int.eq_ofNat_of_zero_le hf
    rw [zpow_natCast]
    rw [Nat.mul_le_mul_right_iff (by decide)]
    exact_mod_cast Iff.rfl
  · -- with a fraction there are fewer than `2 ^ 53`, also after rounding to nanoseconds
    have hfits : (m : ℚ) < 2 ^ 53 := by exact_mod_cast hm.fits
    have hround : roundDiv (m * perSecond) (2 ^ (-f).toNat) ≤ 2 ^ 53 * perSecond := by
      refine (nearestStep_roundDiv (Nat.two_pow_pos _) _).le_of_le ?_
      refine (div_le_self (by positivity) (by exact_mod_cast Nat.one_le_two_pow)).trans ?_
      exact_mod_cast Nat.mul_le_mul_right perSecond hm.fits.le
    have hfraction : (2 : ℚ) ^ f ≤ 1 := zpow_le_one_of_nonpos₀ (by norm_num) (by omega)
    have hvalue : (m : ℚ) * 2 ^ f ≤ m := mul_le_of_le_one_right (by positivity) hfraction
    refine iff_of_false (not_le.mpr (hround.trans_lt (by decide))) (not_le.mpr ?_)
    linarith [show (2 : ℚ) ^ 53 < 2 ^ 64 by norm_num]

theorem Binary64.zero_le_finite_iff : zero.le (.finite s m f) = true ↔ s = false ∨ m = 0 := by
  have hpos : (0 : Int) < 2 ^ (f - min minExponent f).toNat := by positivity
  have hsign : 0 ≤ signed s m ↔ s = false ∨ m = 0 := by
    cases s <;> simp [signed]
  have hzero : signed false 0 = 0 := rfl
  simp [le, zero, aligned, hzero, hsign, hpos]

namespace Script

variable {name verb : List Char}

/-- **A pause of a finite number of seconds that no span holds.** -/
def Overlong (raw : List Char) : Prop :=
  ∃ m f, readDouble raw = .ok (.finite false m f) ∧ (2 : ℚ) ^ 64 ≤ m * 2 ^ f

theorem readSleep_eq_endless_iff {arg : List Char} :
    readSleep name arg = .error .endlessSleep ↔ Overlong (trim arg) := by
  unfold Overlong
  cases hread : readDouble (trim arg) with
  | error e => simp [readSleep, hread]
  | ok x =>
    cases x with
    | nan | infinite => simp [readSleep, hread, isFinite]
    | finite s m f =>
      have hnone := Span.ofSeconds?_eq_none_iff (s := s) (canonical_of_readDouble hread)
      have hendless : readSleep name arg = .error .endlessSleep ↔
          zero.le (.finite s m f) = true ∧ Span.ofSeconds? (.finite s m f) = none := by
        cases hzero : zero.le (.finite s m f) <;>
          cases hspan : Span.ofSeconds? (.finite s m f) <;>
            simp [readSleep, hread, isFinite, hzero, hspan]
      rw [hendless, hnone, zero_le_finite_iff]
      constructor
      · rintro ⟨rfl | rfl, hle⟩
        · exact ⟨m, f, rfl, hle⟩
        · norm_num at hle
      · rintro ⟨m', f', ⟨⟩, hle⟩
        exact ⟨.inl rfl, hle⟩

theorem readCommand_eq_endless_iff {arg : Option (List Char)} :
    readCommand name verb arg = .error .endlessSleep ↔
      verb = "sleep".toList ∧ ∃ raw, arg = some raw ∧ Overlong (trim raw) := by
  unfold readCommand
  by_cases hsleep : verb = "sleep".toList
  · rw [if_pos hsleep]
    cases arg with
    | none => simp [required, Except.bind]
    | some raw => simp [required, Except.bind, hsleep, readSleep_eq_endless_iff]
  · refine iff_of_false ?_ fun h => hsleep h.1
    rw [if_neg hsleep]
    split_ifs <;> cases arg <;> simp [required, Except.map]

theorem applyLine_eq_endless_iff {s : Script} {line : Line} :
    s.applyLine line = .error .endlessSleep ↔
      ∃ name raw, line = .command name "sleep".toList (some raw) ∧
        s.declares (String.ofList name) = true ∧ Overlong (trim raw) := by
  cases line with
  | nothing | barrier | incomplete => simp [applyLine]
  | command name verb arg =>
    unfold applyLine
    dsimp only
    split
    · rename_i hknown
      constructor
      · intro h
        obtain ⟨rfl, raw, rfl, hlong⟩ := readCommand_eq_endless_iff.mp (error_of_map h)
        exact ⟨name, raw, rfl, hknown, hlong⟩
      · rintro ⟨_, raw, ⟨⟩, -, hlong⟩
        rw [readCommand_eq_endless_iff.mpr ⟨rfl, raw, rfl, hlong⟩]
        rfl
    · rename_i hnew
      constructor
      · intro h
        have := error_of_map h
        unfold readTransport at this
        dsimp only at this
        split_ifs at this <;> cases this
      · rintro ⟨_, raw, ⟨⟩, hknown, -⟩
        exact absurd hknown hnew

/-- **Reading fails at the first line that is not accepted.** -/
theorem readFrom_eq_error_iff {s : Script} {ls : List (List Char)} {e : Error} :
    s.readFrom ls = .error e ↔ ∃ before line after s', ls = before ++ line :: after ∧
      s.readFrom before = .ok s' ∧ s'.applyLine (Line.read line) = .error e := by
  constructor
  · intro h
    induction ls generalizing s with
    | nil => cases h
    | cons line ls ih =>
      rw [readFrom_cons] at h
      rcases error_of_bind h with h | ⟨s₁, hs₁, h⟩
      · exact ⟨[], line, ls, s, rfl, rfl, h⟩
      · obtain ⟨before, line', after, s', rfl, hbefore, hline⟩ := ih h
        refine ⟨line :: before, line', after, s', rfl, ?_, hline⟩
        rw [readFrom_cons, bind_of_ok hs₁, hbefore]
  · rintro ⟨before, line, after, s', rfl, hbefore, hline⟩
    rw [readFrom_append, bind_of_ok hbefore, readFrom_cons, hline]
    rfl

/-- **A script that comes to such a pause**: the lines before it are accepted, and its connection is
known by then. -/
def Endless (text : List Char) : Prop :=
  ∃ before line after s name raw, lines text = before ++ line :: after ∧
    readFrom {} before = .ok s ∧ Line.read line = .command name "sleep".toList (some raw) ∧
    s.declares (String.ofList name) = true ∧ Overlong (trim raw)

theorem read_eq_endless_iff {text : List Char} :
    read text = .error .endlessSleep ↔ Endless text := by
  have hread : read text = .error .endlessSleep ↔
      readFrom {} (lines text) = .error .endlessSleep := by
    refine ⟨error_of_map, fun h => ?_⟩
    change (readFrom {} (lines text)).map close = _
    rw [h]
    rfl
  simp only [hread, readFrom_eq_error_iff, applyLine_eq_endless_iff]
  constructor
  · rintro ⟨before, line, after, s, hlines, hbefore, name, raw, hline⟩
    exact ⟨before, line, after, s, name, raw, hlines, hbefore, hline⟩
  · rintro ⟨before, line, after, s, name, raw, hlines, hbefore, hline⟩
    exact ⟨before, line, after, s, hlines, hbefore, name, raw, hline⟩

end Script

namespace Interactor

open Program

variable {r : Request} {endpoints : Endpoints} {text : List Char} {T₁ T₂ : List Event}
  {held : Held}

theorem makes_loadText (p : Path) (text : List Char) :
    Makes (loadText p) [⟨.file (.read p), .ok (Utf8.encode text)⟩] (.ok text) := by
  refine .call (c := .file (.read p)) (Except.ok (Utf8.encode text)) ?_
  simp only [Program.bind]
  rw [Utf8.decode?_eq_some_iff.mpr rfl]
  exact .done

/-- What becomes of a script that was read. -/
def heldOf (endpoints : Endpoints) : Except Script.Error Script → Program Held
  | .error .endlessSleep => pure none
  | .error e => pure (some (.error (.crash e.message), []))
  | .ok script => do
    Program.sleep startupDelay
    let (result, v) ← Conversation.converse script endpoints
    return some (result, v.logText)

theorem makes_hold_iff (hendpoints : Makes (loadEndpoints r.info) T₁ (.ok endpoints)) :
    Makes (hold r) (T₁ ++ ⟨.file (.read r.script), .ok (Utf8.encode text)⟩ :: T₂) held ↔
      Makes (heldOf endpoints (Script.read text)) T₂ held := by
  constructor
  · intro hm
    exact (makes_loadText r.script text).of_bind (hendpoints.of_bind hm)
  · intro hm
    exact hendpoints.bind ((makes_loadText r.script text).bind hm)

/-- **A script that cannot be read is reported, unless it comes to a pause that no span holds.**
Reading breaks off exactly if the script is `Endless`.  If it is, the interactor has nothing to
report, whatever else happens; and if it is not, then a script that is not accepted is reported as a
crash, with an empty log. -/
theorem malformed_script_reported (text : List Char) :
    (Script.read text = .error .endlessSleep ↔ Script.Endless text) ∧
    ∀ (r : Request) (endpoints : Endpoints) (T₁ T₂ : List Event) (held : Held),
      Makes (loadEndpoints r.info) T₁ (.ok endpoints) →
      Makes (hold r) (T₁ ++ ⟨.file (.read r.script), .ok (Utf8.encode text)⟩ :: T₂) held →
      (held = none ↔ Script.Endless text) ∧
      ∀ e, Script.read text = .error e → ¬ Script.Endless text →
        held = some (.error (.crash e.message), []) := by
  refine ⟨Script.read_eq_endless_iff, fun r endpoints T₁ T₂ held hendpoints hm => ?_⟩
  have hheld := (makes_hold_iff hendpoints).mp hm
  rw [← Script.read_eq_endless_iff]
  cases hread : Script.read text with
  | error e =>
    rw [hread] at hheld
    cases e with
    | endlessSleep =>
      obtain ⟨-, rfl⟩ := makes_pure hheld
      exact ⟨by simp, fun e he hne => absurd rfl hne⟩
    | _ =>
      obtain ⟨-, rfl⟩ := makes_pure hheld
      refine ⟨by simp, ?_⟩
      rintro e ⟨⟩ -
      rfl
  | ok script =>
    rw [hread] at hheld
    obtain ⟨_, _, _, -, -, hconverse⟩ := makes_bind hheld
    obtain ⟨_, ⟨result, v⟩, _, -, -, hdone⟩ := makes_bind hconverse
    obtain ⟨-, rfl⟩ := makes_pure hdone
    simp

/-! A record that names a port and a socket, and two scripts with a pause. -/

def pauseRequest : Request :=
  { script := .ofString "in", output := .ofString "out", info := some (.ofString "inf") }

def recordRead : List Event :=
  [⟨.file (.read (.ofString "inf")), .ok (Utf8.encode "params = 80 s".toList)⟩]

theorem makes_recordRead : Makes (loadEndpoints pauseRequest.info) recordRead (.ok ⟨80, "s"⟩) := by
  have hendpoints : Endpoints.ofEntries (Endpoints.entries "params = 80 s".toList) =
      .ok ⟨80, "s"⟩ := by decide +kernel
  refine (makes_loadText (.ofString "inf") "params = 80 s".toList).bind ?_
  rw [← hendpoints]
  exact .done

theorem negative_pause_reported :
    ∃ held, Makes (hold pauseRequest) (recordRead ++ [⟨.file (.read pauseRequest.script),
        .ok (Utf8.encode "a type tcp\na sleep -1\n".toList)⟩]) held ∧
      held = some (.error (.crash "a: bad sleep duration \"-1\""), []) := by
  have hread : Script.read "a type tcp\na sleep -1\n".toList =
      .error (.badSleep ['a'] "-1".toList) := by decide +kernel
  obtain ⟨hendless, hreported⟩ := malformed_script_reported "a type tcp\na sleep -1\n".toList
  have hm : Makes (hold pauseRequest) (recordRead ++ [⟨.file (.read pauseRequest.script),
      .ok (Utf8.encode "a type tcp\na sleep -1\n".toList)⟩]) _ :=
    (makes_hold_iff makes_recordRead).mpr (by rw [hread]; exact .done)
  refine ⟨_, hm, (hreported _ _ _ _ _ makes_recordRead hm).2 _ hread fun h => ?_⟩
  cases hread.symm.trans (hendless.mpr h)

/-- **A pause of `10 ^ 20` seconds breaks the interactor off.** -/
theorem endless_pause_breaks_off :
    Script.read "a type tcp\na sleep 1e20\n".toList = .error .endlessSleep ∧
      Makes (hold pauseRequest) (recordRead ++ [⟨.file (.read pauseRequest.script),
        .ok (Utf8.encode "a type tcp\na sleep 1e20\n".toList)⟩]) none := by
  have hread : Script.read "a type tcp\na sleep 1e20\n".toList = .error .endlessSleep := by
    decide +kernel
  refine ⟨hread, (makes_hold_iff makes_recordRead).mpr ?_⟩
  rw [hread]
  exact .done

end Interactor

end Judge
