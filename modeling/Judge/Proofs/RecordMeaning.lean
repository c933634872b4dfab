import Judge.Proofs.RecordLines

/-!
# Proofs/RecordMeaning — what a record says

Each key has the list of the values that its lines give (`valuesOf`).  `Key.Shows` says what the
values of a key make of its field: one value or none for the parameters and the exit code, the last
one for the limits, the last assignment to each variable for the environments.  A record shows all
of this for the lines read so far, one more line keeps it so (`Means.step`), and the lines that can
all be read are the well formed ones (`exists_steps`).
-/

namespace Judge

open List

/-- The last assignment to a variable counts, an older value only if there is none. -/
theorem Vars.get?_overlay (v w : Vars) (name : String) :
    (v.overlay w).get? name = (w.entries.reverse.lookup name).or (v.get? name) := by
  obtain ⟨entries⟩ := w
  rw [overlay]
  induction entries generalizing v with
  | nil => rfl
  | cons e entries ih =>
    rw [foldl_cons, ih, get?_set, reverse_cons, lookup_append, Option.or_assoc,
      Assoc.lookup_cons_eq, lookup_nil]
    split <;> simp

namespace Metadata

variable {m m' : Metadata} {line value : List Char} {ls done : List (List Char)} {k k' : Key}

/-! ## The values of a key -/

/-- The values that lines give to a key, in their order. -/
def valuesOf (k : Key) (ls : List (List Char)) : List (List Char) :=
  ((ls.filterMap given?).filter (·.1 = k)).map (·.2)

theorem valuesOf_append (k : Key) (ls more : List (List Char)) :
    valuesOf k (ls ++ more) = valuesOf k ls ++ valuesOf k more := by
  simp [valuesOf]

theorem valuesOf_of_given (h : given? line = some (k, value)) :
    valuesOf k' [line] = if k = k' then [value] else [] := by
  simp only [valuesOf, filterMap_cons, h, filterMap_nil, filter_cons]
  split <;> simp_all

theorem valuesOf_cons_of_given (h : given? line = some (k, value)) (more : List (List Char)) :
    valuesOf k (line :: more) = value :: valuesOf k more := by
  rw [← singleton_append, valuesOf_append, valuesOf_of_given h, if_pos rfl]
  rfl

theorem mem_valuesOf_iff : value ∈ valuesOf k ls ↔ ∃ line ∈ ls, given? line = some (k, value) := by
  simp only [valuesOf, mem_map, mem_filter, mem_filterMap, decide_eq_true_eq]
  constructor
  · rintro ⟨⟨k', value'⟩, ⟨⟨line, hline, hgiven⟩, rfl⟩, rfl⟩
    exact ⟨line, hline, hgiven⟩
  · rintro ⟨line, hline, hgiven⟩
    exact ⟨(k, value), ⟨⟨line, hline, hgiven⟩, rfl⟩, rfl⟩

theorem valuesOf_of_none (h : given? line = none) : valuesOf k [line] = [] := by
  simp [valuesOf, h]

theorem given?_eq_none_of_not_isInfix (h : ¬ " = ".toList <:+: line) : given? line = none :=
  Option.eq_none_iff_forall_ne_some.2 fun _ hgiven => h (infix_of_given? hgiven)

/-! ## What the values make of the record -/

section Fields

variable {β : Type}

/-- A field with one value at most. -/
def Sole (R : List Char → β → Prop) (values : List (List Char)) (field : Option β) : Prop :=
  (values = [] ∧ field = none) ∨ ∃ value b, values = [value] ∧ field = some b ∧ R value b

/-- A field of which the last value counts. -/
def Latest (R : List Char → β → Prop) (values : List (List Char)) (field : Option β) : Prop :=
  Option.Rel R values.getLast? field

/-- The assignments of several values, one after the other. -/
inductive AssignsAll : List (List Char) → List (String × String) → Prop
  | nil : AssignsAll [] []
  | concat {values pairs value more} (h : AssignsAll values pairs) (hlast : Assigns value more) :
      AssignsAll (values ++ [value]) (pairs ++ more)

/-- Variables of which the last assignment counts. -/
def Assigned (values : List (List Char)) (vars : Vars) : Prop :=
  ∃ pairs, AssignsAll values pairs ∧ ∀ name, vars.get? name = pairs.reverse.lookup name

end Fields

/-- **What the values of a key make of its field.** -/
def Key.Shows : Key → List (List Char) → Metadata → Prop
  | .params, values, m => Sole (fun v p => p = String.ofList v ∧ p ≠ "") values m.params
  | .environ, values, m => Assigned values m.environ
  | .interactorEnviron, values, m => Assigned values m.interactorEnviron
  | .timeLimit, values, m =>
    Latest (fun v t => ∃ n, Integer.Natural v n ∧ n < 2 ^ 64 ∧ t = Span.ofMillis n) values m.timeLimit
  | .exitCode, values, m => Sole ExitPattern.Written values m.exitCode
  | .maxProcesses, values, m =>
    Latest (fun v n => Integer.Natural v n ∧ n < 2 ^ 64) values m.maxProcesses
  | .ignored, _, _ => True

/-- Whether a flag is set. -/
def hasFlag (m : Metadata) : Flag → Bool
  | .enableSubst => m.enableSubst
  | .checkStderr => m.checkStderr
  | .nukeEnviron => m.nukeEnviron
  | .dropFirstParam => m.dropFirstParam

/-- **The meaning of lines**: every field is what the values of its key make of it, and a flag is set
if its token is a line. -/
structure Means (ls : List (List Char)) (m : Metadata) : Prop where
  keys : ∀ k : Key, k.Shows (valuesOf k ls) m
  flags : ∀ f : Flag, m.hasFlag f = true ↔ f.token ∈ ls

theorem means_nil : Means [] {} where
  keys k := by
    cases k with
    | params => exact .inl ⟨rfl, rfl⟩
    | environ | interactorEnviron => exact ⟨[], .nil, fun _ => rfl⟩
    | timeLimit => exact .none
    | exitCode => exact .inl ⟨rfl, rfl⟩
    | maxProcesses => exact .none
    | ignored => trivial
  flags f := by cases f <;> simp [hasFlag]

variable {values : List (List Char)}

theorem Sole.of_none {β : Type} {R : List Char → β → Prop} {b : β} (h : Sole R values none)
    (hb : R value b) : Sole R (values ++ [value]) (some b) := by
  rcases h with ⟨rfl, -⟩ | ⟨_, _, -, hsome, -⟩
  · exact .inr ⟨value, b, rfl, rfl, hb⟩
  · cases hsome

theorem Latest.concat {β : Type} {R : List Char → β → Prop} {b : β} (hb : R value b) :
    Latest R (values ++ [value]) (some b) := by
  rw [Latest, getLast?_concat]
  exact .some hb

theorem Assigned.concat {vars : Vars} {more : List (String × String)} (h : Assigned values vars)
    (hmore : Assigns value more) : Assigned (values ++ [value]) (vars.overlay ⟨more⟩) := by
  obtain ⟨pairs, hpairs, hget⟩ := h
  refine ⟨pairs ++ more, .concat hpairs hmore, fun name => ?_⟩
  rw [Vars.get?_overlay, hget, reverse_append, lookup_append]

/-- A value that is taken counts for its key. -/
theorem Takes.shows (h : Takes m value k m') (hne : value ≠ []) (hk : k.Shows values m) :
    k.Shows (values ++ [value]) m' := by
  cases h with
  | params hfirst =>
    rw [Key.Shows, hfirst] at hk
    exact hk.of_none ⟨rfl, by simpa using hne⟩
  | environ h | interactorEnviron h => exact Assigned.concat hk h
  | timeLimit h hfits => exact Latest.concat ⟨_, h, hfits, rfl⟩
  | exitCode hfirst h =>
    rw [Key.Shows, hfirst] at hk
    exact hk.of_none h
  | maxProcesses h hfits => exact Latest.concat ⟨h, hfits⟩
  | ignored => trivial

theorem Takes.shows_other (h : Takes m value k m') (hne : k ≠ k') :
    k'.Shows values m' ↔ k'.Shows values m := by
  cases h <;> cases k' <;> simp [Key.Shows] at hne ⊢

theorem Takes.hasFlag (h : Takes m value k m') (f : Flag) : m'.hasFlag f = m.hasFlag f := by
  cases h <;> cases f <;> rfl

theorem shows_setFlag (f : Flag) : k.Shows values (m.setFlag f) ↔ k.Shows values m := by
  cases f <;> cases k <;> rfl

theorem hasFlag_setFlag (f f' : Flag) :
    (m.setFlag f).hasFlag f' = true ↔ f' = f ∨ m.hasFlag f' = true := by
  cases f <;> cases f' <;> simp [setFlag, hasFlag]

theorem token_injective {f f' : Flag} (h : f.token = f'.token) : f = f' := by
  have hread := Flag.read?_eq_some_iff.2 h
  rw [Flag.read?_eq_some_iff.2 rfl] at hread
  exact Option.some.inj hread

/-- A line that gives no value changes no field… -/
theorem Means.shows_concat (hm : Means ls m) (hnone : given? line = none) (k : Key) :
    k.Shows (valuesOf k (ls ++ [line])) m := by
  rw [valuesOf_append, valuesOf_of_none hnone, append_nil]
  exact hm.keys k

theorem Means.hasFlag_concat (hm : Means ls m) (hline : ∀ f : Flag, line ≠ f.token) (f : Flag) :
    m.hasFlag f = true ↔ f.token ∈ ls ++ [line] := by
  rw [hm.flags, mem_append, mem_singleton, eq_comm (b := line)]
  simp only [hline, or_false]

/-- **One more line keeps the meaning.** -/
theorem Means.step (hm : Means ls m) (h : Step m line m') (htrim : trim line = line) :
    Means (ls ++ [line]) m' := by
  cases h with
  | entry hgiven h =>
    refine ⟨fun k' => ?_, fun f => ?_⟩
    · rw [valuesOf_append, valuesOf_of_given hgiven]
      split
      next heq =>
        subst heq
        exact h.shows (value_of_given? hgiven htrim).2 (hm.keys _)
      next hne =>
        rw [append_nil, h.shows_other hne]
        exact hm.keys k'
    · rw [h.hasFlag]
      exact hm.hasFlag_concat (fun _ hf => not_separator_of_token hf (infix_of_given? hgiven)) f
  | unset h =>
    exact ⟨hm.shows_concat (given?_eq_none_of_not_isInfix h.1),
      hm.hasFlag_concat fun _ hf => not_unset_of_token hf h.2⟩
  | flag h =>
    have hnone := given?_eq_none_of_not_isInfix (not_separator_of_token h)
    refine ⟨fun k => (shows_setFlag _).2 (hm.shows_concat hnone k), fun f => ?_⟩
    rw [hasFlag_setFlag, hm.flags, mem_append, mem_singleton, h, or_comm]
    exact or_congr_right ⟨fun heq => heq ▸ rfl, token_injective⟩

theorem Means.steps (hm : Means done m) (h : Steps m ls m')
    (htrim : ∀ line ∈ ls, trim line = line) : Means (done ++ ls) m' := by
  induction h generalizing done with
  | nil => rwa [append_nil]
  | cons h _ ih =>
    obtain ⟨hline, hmore⟩ := forall_mem_cons.1 htrim
    have := ih (hm.step h hline) hmore
    rwa [append_assoc] at this

/-! ## Which lines can be read -/

/-- **Which values a key takes.** -/
def Key.Admits : Key → List Char → Prop
  | .params, _ => True
  | .environ, value | .interactorEnviron, value => ∃ pairs, Assigns value pairs
  | .timeLimit, value => ∃ n, Integer.Natural value n ∧ n < 2 ^ 64
  | .exitCode, value => ∃ pattern, ExitPattern.Written value pattern
  | .maxProcesses, value => ∃ n, Integer.Natural value n ∧ n < 2 ^ 64
  | .ignored, _ => True

/-- A line that can be read: a key with a value that it takes, a line without a value, or a flag. -/
def Sound (line : List Char) : Prop :=
  (∃ k value, given? line = some (k, value) ∧ k.Admits value) ∨ Unset line ∨
    ∃ f : Flag, line = f.token

/-- **Well formed lines**: each of them is sound, and parameters and exit code are given once at
most. -/
structure WellFormed (ls : List (List Char)) : Prop where
  sound : ∀ line ∈ ls, Sound line
  params : (valuesOf .params ls).length ≤ 1
  exitCode : (valuesOf .exitCode ls).length ≤ 1

theorem Takes.admits (h : Takes m value k m') : k.Admits value := by
  cases h with
  | params => trivial
  | environ h | interactorEnviron h => exact ⟨_, h⟩
  | timeLimit h hfits => exact ⟨_, h, hfits⟩
  | exitCode _ h => exact ⟨_, h⟩
  | maxProcesses h hfits => exact ⟨_, h, hfits⟩
  | ignored => trivial

theorem Key.Admits.exists_takes (h : k.Admits value) (hparams : k = .params → m.params = none)
    (hexit : k = .exitCode → m.exitCode = none) : ∃ m', Takes m value k m' := by
  cases k with
  | params => exact ⟨_, .params (hparams rfl)⟩
  | environ =>
    obtain ⟨pairs, h⟩ := h
    exact ⟨_, .environ h⟩
  | interactorEnviron =>
    obtain ⟨pairs, h⟩ := h
    exact ⟨_, .interactorEnviron h⟩
  | timeLimit =>
    obtain ⟨n, h, hfits⟩ := h
    exact ⟨_, .timeLimit h hfits⟩
  | exitCode =>
    obtain ⟨pattern, h⟩ := h
    exact ⟨_, .exitCode (hexit rfl) h⟩
  | maxProcesses =>
    obtain ⟨n, h, hfits⟩ := h
    exact ⟨_, .maxProcesses h hfits⟩
  | ignored => exact ⟨_, .ignored⟩

theorem Step.sound (h : Step m line m') : Sound line := by
  cases h with
  | entry hgiven h => exact .inl ⟨_, _, hgiven, h.admits⟩
  | unset h => exact .inr (.inl h)
  | flag h => exact .inr (.inr ⟨_, h⟩)

theorem Sole.length_le {β : Type} {R : List Char → β → Prop} {field : Option β}
    (h : Sole R values field) : values.length ≤ 1 := by
  rcases h with ⟨rfl, -⟩ | ⟨_, _, rfl, -⟩ <;> simp

/-- A field is still free if its key may be given one more value. -/
theorem Sole.eq_none {β : Type} {R : List Char → β → Prop} {field : Option β} {more : List (List Char)}
    (h : Sole R (valuesOf k done) field) (hgiven : given? line = some (k, value))
    (hlength : (valuesOf k (done ++ line :: more)).length ≤ 1) : field = none := by
  rcases h with ⟨-, hnone⟩ | ⟨_, _, hone, -⟩
  · exact hnone
  · rw [valuesOf_append, valuesOf_cons_of_given hgiven, hone] at hlength
    simp at hlength

theorem Sound.exists_step {more : List (List Char)} (h : Sound line) (hm : Means done m)
    (hwell : WellFormed (done ++ line :: more)) : ∃ m', Step m line m' := by
  rcases h with ⟨k, value, hgiven, hadmits⟩ | hunset | ⟨f, hflag⟩
  · obtain ⟨m', htakes⟩ := hadmits.exists_takes (m := m)
      (fun hk => (hm.keys .params).eq_none (hk ▸ hgiven) hwell.params)
      (fun hk => (hm.keys .exitCode).eq_none (hk ▸ hgiven) hwell.exitCode)
    exact ⟨m', .entry hgiven htakes⟩
  · exact ⟨m, .unset hunset⟩
  · exact ⟨m.setFlag f, .flag hflag⟩

/-- **Well formed lines can all be taken**, after any that were. -/
theorem exists_steps (hwell : WellFormed (done ++ ls)) (htrim : ∀ line ∈ ls, trim line = line)
    (hm : Means done m) : ∃ m', Steps m ls m' := by
  induction ls generalizing done m with
  | nil => exact ⟨m, .nil⟩
  | cons line ls ih =>
    obtain ⟨hline, hmore⟩ := forall_mem_cons.1 htrim
    have hsound := hwell.sound line (mem_append_right done mem_cons_self)
    obtain ⟨m₁, hstep⟩ := hsound.exists_step hm hwell
    rw [← singleton_append, ← append_assoc] at hwell
    obtain ⟨m', hsteps⟩ := ih hwell hmore (hm.step hstep hline)
    exact ⟨m', .cons hstep hsteps⟩

theorem read_means {text : List Char} (h : read text = .ok m) : Means (lines text) m := by
  have hmeans := means_nil.steps (read_eq_ok_iff.1 h) fun _ => trim_of_mem_lines
  rwa [nil_append] at hmeans

theorem exists_read {text : List Char} (hwell : WellFormed (lines text)) :
    ∃ m, read text = .ok m := by
  have hwell' : WellFormed ([] ++ lines text) := hwell
  obtain ⟨m, hsteps⟩ := exists_steps hwell' (fun _ => trim_of_mem_lines) means_nil
  exact ⟨m, read_eq_ok_iff.2 hsteps⟩

/-- The expected exit code is that of the one line for it, and zero without one. -/
theorem Means.expectedExit (hm : Means ls m) :
    (valuesOf .exitCode ls = [] → m.expectedExit = .exactly 0) ∧
      ∀ value ∈ valuesOf .exitCode ls, ExitPattern.Written value m.expectedExit := by
  rcases hm.keys .exitCode with ⟨hnone, hfield⟩ | ⟨value, pattern, hone, hfield, hwritten⟩
  · rw [Metadata.expectedExit, hfield, hnone]
    exact ⟨fun _ => rfl, forall_mem_nil _⟩
  · rw [Metadata.expectedExit, hfield, hone]
    exact ⟨nofun, forall_mem_singleton.2 hwritten⟩

/-- **The meaning of a record**: a text is a record if and only if its lines are well formed, and
then its fields are what the lines say. -/
theorem record_is_its_lines (text : List Char) :
    ((∃ m, read text = .ok m) ↔ WellFormed (lines text)) ∧
      ∀ m, read text = .ok m → Means (lines text) m ∧
        (valuesOf .exitCode (lines text) = [] → m.expectedExit = .exactly 0) ∧
        ∀ value ∈ valuesOf .exitCode (lines text), ExitPattern.Written value m.expectedExit := by
  refine ⟨⟨?_, exists_read⟩, fun m hm => ⟨read_means hm, (read_means hm).expectedExit⟩⟩
  rintro ⟨m, hm⟩
  have hmeans := read_means hm
  exact ⟨(read_eq_ok_iff.1 hm).forall_mem Step.sound, (hmeans.keys .params).length_le,
    (hmeans.keys .exitCode).length_le⟩

/-- A record with two spellings of one key, both ways to assign variables, and a limit given
twice. -/
def fullRecord : List Char :=
  "params =\nenviron = A=1 B=x=y\ntime_limit_ms = 5\ncompiler_env = \"A=two words\"\n \n".toList ++
    "real_time_limit_ms = +7\nexit_code = !0\nnuke_environ\nparams = 8080 /s".toList

/-- What `fullRecord` says. -/
def fullMetadata : Metadata where
  params := some "8080 /s"
  environ := ⟨[("A", "two words"), ("B", "x=y")]⟩
  timeLimit := some (Span.ofMillis 7)
  exitCode := some .nonzero
  nukeEnviron := true

theorem full_record_is_its_lines :
    read fullRecord = .ok fullMetadata ∧ WellFormed (lines fullRecord) ∧
      Means (lines fullRecord) fullMetadata := by
  have hread : read fullRecord = .ok fullMetadata := by decide +kernel
  exact ⟨hread, (record_is_its_lines fullRecord).1.1 ⟨_, hread⟩,
    ((record_is_its_lines fullRecord).2 _ hread).1⟩

end Metadata

end Judge
