import Judge.Metadata
import Judge.Proofs.Cuts
import Judge.Proofs.Numerals

/-!
# Proofs/RecordLines — what one line of a record may be

A line gives a value to a key of the table (`given?`), leaves something without a value (`Unset`) or
is the token of a flag.  `Takes` says which values each key takes and what they do to the record,
`Step` what a line does, and `read_eq_ok_iff` that a record is read if and only if its lines take the
empty record to it, step by step.

The keys and flags are a closed set, with one hole: a line without a value is passed over whatever
it names (`only_unset_lines_escape`).
-/

namespace Judge

open List

/-! ## Values -/

namespace ExitPattern

def Written (value : List Char) : ExitPattern → Prop
  | .nonzero => value = ['!', '0']
  | .exactly code => Integer.Signed value code ∧ -2 ^ 31 ≤ code ∧ code < 2 ^ 31

theorem not_signed_bang (code : Int) : ¬ Integer.Signed ['!', '0'] code := by
  rw [Integer.signed_iff_natural (by decide)]
  simp only [Integer.natural_iff_numeral (show ['!', '0'].head? ≠ some '+' by decide)]
  rintro ⟨n, h, -⟩
  exact Integer.not_numeral_cons (by decide) h

theorem read_eq_ok_iff {value : List Char} (htrim : trim value = value) {pattern : ExitPattern} :
    read value = .ok pattern ↔ Written value pattern := by
  simp only [read, htrim]
  by_cases hbang : value = ['!', '0']
  · subst hbang
    cases pattern with
    | nonzero => simp [Written]
    | exactly code => simp [Written, not_signed_bang]
  · have hread : ∀ code, Integer.readSigned32 value = .ok code ↔ Written value (.exactly code) := by
      intro code
      rw [Integer.readSigned32, Integer.readInt_eq_ok_iff, Written]
      refine and_congr_right fun _ => and_congr_right fun _ => ?_
      exact Int.le_sub_one_iff (n := 2 ^ 31)
    rw [if_neg hbang]
    cases pattern with
    | nonzero => split <;> simp [Written, hbang]
    | exactly code =>
      rw [← hread]
      split
      next other hother => simp [hother]
      next e he => simp [he]

end ExitPattern

namespace Metadata

def assignment (pair : String × String) : List Char := pair.1.toList ++ '=' :: pair.2.toList

/-- The assignments that a value makes: one between double quotes, or one to each word. -/
def Assigns (value : List Char) (pairs : List (String × String)) : Prop :=
  (∀ pair ∈ pairs, pair.1 ≠ "" ∧ '=' ∉ pair.1.toList) ∧
    ((∃ pair, pairs = [pair] ∧ value = '"' :: (assignment pair ++ ['"'])) ∨
      (value.head? ≠ some '"' ∧ words value = pairs.map assignment))

theorem cutAssignment?_eq_some_iff {word : List Char} {pair : String × String} :
    cutAssignment? word = some pair ↔
      word = assignment pair ∧ pair.1 ≠ "" ∧ '=' ∉ pair.1.toList := by
  obtain ⟨name, value⟩ := pair
  have hcut : cutAssignment? word = some (name, value) ↔
      cutAt ['='] word = some (name.toList, value.toList) ∧ name.toList ≠ [] := by
    rw [cutAssignment?]
    split
    next hcut => simp only [hcut, Option.some.injEq, Prod.mk.injEq, reduceCtorEq, false_iff]
                 rintro ⟨⟨hname, -⟩, hne⟩
                 exact hne hname.symm
    next front back hne hcut =>
      simp only [hcut, Option.some.injEq, Prod.mk.injEq]
      constructor
      · rintro ⟨rfl, rfl⟩
        simpa using hne
      · rintro ⟨⟨rfl, rfl⟩, -⟩
        simp
    next hcut => simp [hcut]
  rw [hcut, cutAt_singleton_eq_some_iff, assignment, and_assoc, and_comm (a := '=' ∉ _)]
  simp

theorem mapM_cutAssignment?_eq_some_iff {ws : List (List Char)} {pairs : List (String × String)} :
    ws.mapM cutAssignment? = some pairs ↔
      ws = pairs.map assignment ∧ ∀ pair ∈ pairs, pair.1 ≠ "" ∧ '=' ∉ pair.1.toList := by
  induction ws generalizing pairs with
  | nil =>
    rw [mapM_nil, eq_comm (a := []), map_eq_nil_iff]
    constructor
    · rintro ⟨⟩
      exact ⟨rfl, forall_mem_nil _⟩
    · rintro ⟨rfl, -⟩
      rfl
  | cons word ws ih =>
    rw [mapM_cons]
    constructor
    · intro h
      obtain ⟨pair, hpair, h⟩ := Option.bind_eq_some_iff.1 h
      obtain ⟨more, hmore, h⟩ := Option.bind_eq_some_iff.1 h
      obtain rfl := Option.some.inj h
      obtain ⟨rfl, hname⟩ := cutAssignment?_eq_some_iff.1 hpair
      obtain ⟨rfl, hnames⟩ := ih.1 hmore
      exact ⟨rfl, forall_mem_cons.2 ⟨hname, hnames⟩⟩
    · rintro ⟨heq, hnames⟩
      obtain ⟨pair, more, rfl, rfl, rfl⟩ := map_eq_cons_iff.1 heq.symm
      obtain ⟨hname, hnames⟩ := forall_mem_cons.1 hnames
      rw [cutAssignment?_eq_some_iff.2 ⟨rfl, hname⟩, ih.2 ⟨rfl, hnames⟩]
      rfl

section Assignments

variable {value quoted : List Char} {pairs : List (String × String)}

/-- Between double quotes there is one assignment. -/
theorem assignments?_quoted_eq_some_iff (hne : trim ('"' :: quoted) ≠ []) :
    assignments? ('"' :: quoted) = some pairs ↔ Assigns ('"' :: quoted) pairs := by
  have hquoted : assignments? ('"' :: quoted) =
      if quoted.getLast? = some '"' then (cutAssignment? quoted.dropLast).map ([·]) else none := by
    unfold assignments?
    exact if_neg (by rwa [List.isEmpty_iff])
  rw [hquoted, Assigns]
  split
  next hlast =>
    obtain ⟨inside, rfl⟩ := getLast?_eq_some_iff.1 hlast
    rw [dropLast_concat, Option.map_eq_some_iff]
    constructor
    · rintro ⟨pair, hpair, rfl⟩
      obtain ⟨rfl, hname⟩ := cutAssignment?_eq_some_iff.1 hpair
      exact ⟨forall_mem_singleton.2 hname, .inl ⟨pair, rfl, rfl⟩⟩
    · rintro ⟨hnames, ⟨pair, rfl, hvalue⟩ | ⟨hhead, -⟩⟩
      · obtain rfl := append_cancel_right (cons.inj hvalue).2
        exact ⟨pair, cutAssignment?_eq_some_iff.2 ⟨rfl, hnames pair mem_cons_self⟩, rfl⟩
      · exact absurd rfl hhead
  next hlast =>
    refine iff_of_false nofun ?_
    rintro ⟨-, ⟨pair, -, hvalue⟩ | ⟨hhead, -⟩⟩
    · rw [(cons.inj hvalue).2] at hlast
      exact hlast getLast?_concat
    · exact hhead rfl

/-- Without them each word is one. -/
theorem assignments?_plain_eq_some_iff (hhead : value.head? ≠ some '"') (hne : trim value ≠ []) :
    assignments? value = some pairs ↔ Assigns value pairs := by
  have hplain : assignments? value = (words value).mapM cutAssignment? := by
    unfold assignments?
    rw [if_neg (by rwa [List.isEmpty_iff])]
    split
    next => exact absurd rfl hhead
    next => rfl
  rw [hplain, mapM_cutAssignment?_eq_some_iff, Assigns, and_comm]
  refine and_congr_right fun _ => ⟨fun h => .inr ⟨hhead, h⟩, ?_⟩
  rintro (⟨pair, -, rfl⟩ | ⟨-, hwords⟩)
  · exact absurd rfl hhead
  · exact hwords

theorem assignments?_eq_some_iff (hne : trim value ≠ []) :
    assignments? value = some pairs ↔ Assigns value pairs := by
  by_cases hhead : value.head? = some '"'
  · obtain ⟨quoted, rfl⟩ := head?_eq_some_iff.1 hhead
    exact assignments?_quoted_eq_some_iff hne
  · exact assignments?_plain_eq_some_iff hhead hne

end Assignments

/-! ## Lines -/

variable {m m' : Metadata} {raw line key value : List Char} {k : Key}

/-- How a flag is written. -/
def Flag.token : Flag → List Char
  | .enableSubst => "enable_subst".toList
  | .checkStderr => "check_stderr".toList
  | .nukeEnviron => "nuke_environ".toList
  | .dropFirstParam => "drop_first_param".toList

/-- **The key and the value that a line gives**: a word of the table, an equals sign between blanks,
and the value. -/
def given? (line : List Char) : Option (Key × List Char) :=
  Key.table.findSome? fun e =>
    let lead := e.1.toList ++ " = ".toList
    if lead.isPrefixOf line then some (e.2, trim (line.drop lead.length)) else none

/-- A line without a value: it ends with an equals sign and has none between blanks. -/
def Unset (line : List Char) : Prop := ¬ " = ".toList <:+: line ∧ " =".toList <:+ line

instance decidableUnset (line : List Char) : Decidable (Unset line) :=
  decidable_of_iff (cutAt " = ".toList line = none ∧ " =".toList.isSuffixOf line = true)
    (and_congr (cutAt_eq_none_iff (by decide)) isSuffixOf_iff_suffix)

theorem Flag.read?_eq_some_iff {f : Flag} : Flag.read? line = some f ↔ line = f.token := by
  constructor
  · intro h
    unfold Flag.read? at h
    split_ifs at h with hline hline hline hline <;> cases h <;> exact hline
  · rintro rfl
    cases f <;> decide

theorem blank_not_mem_token (f : Flag) : ' ' ∉ f.token := by
  cases f <;> decide

theorem blank_not_mem_key : ∀ e ∈ Key.table, ' ' ∉ e.1.toList := by decide

theorem Key.lookup_table : ∀ e ∈ Key.table, Key.table.lookup e.1 = some e.2 := by decide

/-- A key is read from its words and from no other. -/
theorem Key.read?_eq_some_iff : Key.read? key = some k ↔ (String.ofList key, k) ∈ Key.table := by
  constructor
  · intro h
    obtain ⟨before, after, htable, -⟩ := lookup_eq_some_iff.1 h
    rw [htable]
    exact mem_append_right before mem_cons_self
  · exact Key.lookup_table _

theorem cutAt_key {word : String} (hword : (word, k) ∈ Key.table) (rest : List Char) :
    cutAt " = ".toList (word.toList ++ " = ".toList ++ rest) = some (word.toList, rest) := by
  refine (cutAt_eq_some_iff (by decide)).2 ⟨rfl, fun hoccurs => ?_⟩
  -- the separator has two blanks, the key none
  have hcount := hoccurs.sublist.count_le ' '
  rw [count_append, count_eq_zero_of_not_mem (blank_not_mem_key _ hword)] at hcount
  exact absurd hcount (by decide)

theorem exists_of_given? (h : given? line = some (k, value)) :
    ∃ word rest, (word, k) ∈ Key.table ∧ line = word.toList ++ " = ".toList ++ rest ∧
      value = trim rest := by
  obtain ⟨⟨word, k'⟩, hword, h⟩ := exists_of_findSome?_eq_some h
  dsimp only at h
  split at h
  next hlead =>
    obtain ⟨rest, rfl⟩ := isPrefixOf_iff_prefix.1 hlead
    obtain ⟨rfl, rfl⟩ := Prod.mk.inj (Option.some.inj h)
    exact ⟨word, rest, hword, rfl, by rw [drop_left]⟩
  next => cases h

theorem given?_eq_some_iff :
    given? line = some (k, value) ↔
      ∃ word rest, (word, k) ∈ Key.table ∧ line = word.toList ++ " = ".toList ++ rest ∧
        value = trim rest := by
  refine ⟨exists_of_given?, ?_⟩
  rintro ⟨word, rest, hword, rfl, rfl⟩
  cases hgiven : given? (word.toList ++ " = ".toList ++ rest) with
  | none =>
    have h := findSome?_eq_none_iff.1 hgiven (word, k) hword
    simp at h
  | some g =>
    obtain ⟨k', value⟩ := g
    obtain ⟨word', rest', hword', hline, rfl⟩ := exists_of_given? hgiven
    have hcut := cutAt_key hword rest
    rw [hline, cutAt_key hword'] at hcut
    obtain ⟨hsame, rfl⟩ := Prod.mk.inj (Option.some.inj hcut)
    obtain rfl := String.toList_inj.1 hsame
    have hkey : some k' = some k :=
      (Key.lookup_table _ hword').symm.trans (Key.lookup_table _ hword)
    rw [Option.some.inj hkey]

/-- What a reader that cuts at the first separator finds. -/
theorem given?_of_cut {rest : List Char} (hcut : cutAt " = ".toList line = some (key, rest)) :
    given? line = (Key.read? key).map fun k => (k, trim rest) := by
  refine Option.ext fun ⟨k, value⟩ => ?_
  rw [given?_eq_some_iff, Option.map_eq_some_iff]
  constructor
  · rintro ⟨word, rest', hword, rfl, rfl⟩
    rw [cutAt_key hword] at hcut
    obtain ⟨rfl, rfl⟩ := Prod.mk.inj (Option.some.inj hcut)
    exact ⟨k, Key.read?_eq_some_iff.2 (by rwa [String.ofList_toList]), rfl⟩
  · rintro ⟨k', hkey, heq⟩
    obtain ⟨rfl, rfl⟩ := Prod.mk.inj heq
    obtain ⟨rfl, -⟩ := (cutAt_eq_some_iff (by decide)).1 hcut
    exact ⟨_, rest, Key.read?_eq_some_iff.1 hkey, by simp, rfl⟩

theorem infix_of_given? (h : given? line = some (k, value)) : " = ".toList <:+: line := by
  obtain ⟨word, rest, -, rfl, -⟩ := exists_of_given? h
  exact infix_append ..

/-- The value on a line without blanks around it has none around it either and is not empty. -/
theorem value_of_given? (h : given? line = some (k, value)) (htrim : trim line = line) :
    trim value = value ∧ value ≠ [] := by
  obtain ⟨word, rest, -, rfl, rfl⟩ := exists_of_given? h
  refine ⟨trimWhere_trimWhere isBlank rest, ?_⟩
  have htrimmed := trimmed_trimWhere isBlank (word.toList ++ " = ".toList ++ rest)
  rw [← trim, htrim] at htrimmed
  cases hlast : rest.getLast? with
  | none =>
    rw [getLast?_eq_none_iff.1 hlast, append_nil] at htrimmed
    have hblank := htrimmed.last ' ' (by rw [getLast?_append]; rfl)
    exact absurd hblank (by decide)
  | some c =>
    refine trimWhere_ne_nil hlast (htrimmed.last c ?_)
    rw [getLast?_append, hlast, Option.some_or]

/-! ## What a line does -/

/-- **What a value does to a record.**  Parameters and an exit code are given once, other values as
often as one likes. -/
inductive Takes (m : Metadata) (value : List Char) : Key → Metadata → Prop
  | params (hfirst : m.params = none) :
      Takes m value .params { m with params := some (String.ofList value) }
  | environ {pairs} (h : Assigns value pairs) :
      Takes m value .environ { m with environ := m.environ.overlay ⟨pairs⟩ }
  | interactorEnviron {pairs} (h : Assigns value pairs) :
      Takes m value .interactorEnviron
        { m with interactorEnviron := m.interactorEnviron.overlay ⟨pairs⟩ }
  | timeLimit {n} (h : Integer.Natural value n) (hfits : n < 2 ^ 64) :
      Takes m value .timeLimit { m with timeLimit := some (Span.ofMillis n) }
  | exitCode {pattern} (hfirst : m.exitCode = none) (h : ExitPattern.Written value pattern) :
      Takes m value .exitCode { m with exitCode := some pattern }
  | maxProcesses {n} (h : Integer.Natural value n) (hfits : n < 2 ^ 64) :
      Takes m value .maxProcesses { m with maxProcesses := some n }
  | ignored : Takes m value .ignored m

/-- **What a line does to a record.** -/
inductive Step (m : Metadata) (line : List Char) : Metadata → Prop
  | entry {k : Key} {value : List Char} {m' : Metadata} (hgiven : given? line = some (k, value))
      (h : Takes m value k m') : Step m line m'
  | unset (h : Unset line) : Step m line m
  | flag {f : Flag} (h : line = f.token) : Step m line (m.setFlag f)

/-- What lines do to a record, one after the other. -/
inductive Steps : Metadata → List (List Char) → Metadata → Prop
  | nil {m : Metadata} : Steps m [] m
  | cons {m m₁ m₂ : Metadata} {line : List Char} {more : List (List Char)} (h : Step m line m₁)
      (hmore : Steps m₁ more m₂) : Steps m (line :: more) m₂

theorem Steps.forall_mem {P : List Char → Prop} {ls : List (List Char)} (h : Steps m ls m')
    (hstep : ∀ {m line m'}, Step m line m' → P line) : ∀ line ∈ ls, P line := by
  induction h with
  | nil => exact forall_mem_nil _
  | cons h _ ih => exact forall_mem_cons.2 ⟨hstep h, ih⟩

theorem number_eq_ok_iff {n : Nat} :
    number key value = .ok n ↔ Integer.Natural value n ∧ n < 2 ^ 64 := by
  have hread : Integer.read64 value = .ok n ↔ Integer.Natural value n ∧ n < 2 ^ 64 :=
    Integer.readNat_eq_ok_iff.trans (and_congr_right fun _ => Nat.le_sub_one_iff_lt (by decide))
  rw [← hread, number]
  split
  next n' hn => simp [hn]
  next e he => simp [he]

theorem assign_eq_ok_iff (hne : trim value ≠ []) {vars vars' : Vars} :
    assign vars value = .ok vars' ↔ ∃ pairs, Assigns value pairs ∧ vars.overlay ⟨pairs⟩ = vars' := by
  simp only [← assignments?_eq_some_iff hne, assign]
  split
  next pairs hpairs => simp [hpairs]
  next hpairs => simp [hpairs]

theorem Takes.of_applyEntry (hkey : Key.read? key = some k) (htrim : trim value = value)
    (hne : value ≠ []) (h : m.applyEntry key value = .ok m') : Takes m value k m' := by
  have hblank : trim value ≠ [] := by rwa [htrim]
  rw [applyEntry, hkey] at h
  cases k with
  | params =>
    dsimp only at h
    split_ifs at h with hsome
    cases h
    exact .params (Option.not_isSome_iff_eq_none.1 hsome)
  | environ =>
    obtain ⟨vars, hvars, rfl⟩ := ok_of_map h
    obtain ⟨pairs, hpairs, rfl⟩ := (assign_eq_ok_iff hblank).1 hvars
    exact .environ hpairs
  | interactorEnviron =>
    obtain ⟨vars, hvars, rfl⟩ := ok_of_map h
    obtain ⟨pairs, hpairs, rfl⟩ := (assign_eq_ok_iff hblank).1 hvars
    exact .interactorEnviron hpairs
  | timeLimit =>
    obtain ⟨n, hn, rfl⟩ := ok_of_map h
    obtain ⟨hnatural, hfits⟩ := number_eq_ok_iff.1 hn
    exact .timeLimit hnatural hfits
  | exitCode =>
    dsimp only at h
    split_ifs at h with hsome
    split at h
    next pattern hpattern =>
      cases h
      exact .exitCode (Option.not_isSome_iff_eq_none.1 hsome)
        ((ExitPattern.read_eq_ok_iff htrim).1 hpattern)
    next => cases h
  | maxProcesses =>
    obtain ⟨n, hn, rfl⟩ := ok_of_map h
    obtain ⟨hnatural, hfits⟩ := number_eq_ok_iff.1 hn
    exact .maxProcesses hnatural hfits
  | ignored =>
    cases h
    exact .ignored

theorem Takes.applyEntry (hkey : Key.read? key = some k) (htrim : trim value = value)
    (hne : value ≠ []) (h : Takes m value k m') : m.applyEntry key value = .ok m' := by
  have hblank : trim value ≠ [] := by rwa [htrim]
  rw [Metadata.applyEntry, hkey]
  cases h with
  | params hfirst => simp [hfirst]
  | environ h | interactorEnviron h => simp only [(assign_eq_ok_iff hblank).2 ⟨_, h, rfl⟩]; rfl
  | timeLimit h hfits => simp only [number_eq_ok_iff.2 ⟨h, hfits⟩]; rfl
  | exitCode hfirst h => simp [hfirst, (ExitPattern.read_eq_ok_iff htrim).2 h]
  | maxProcesses h hfits => simp only [number_eq_ok_iff.2 ⟨h, hfits⟩]; rfl
  | ignored => rfl

theorem applyLine_blank (hblank : trim raw = []) : m.applyLine (Line.read raw) = .ok m := by
  rw [Line.read, hblank]
  rfl

theorem not_separator_of_token {f : Flag} (hline : line = f.token) : ¬ " = ".toList <:+: line := by
  rintro hoccurs
  rw [hline] at hoccurs
  exact blank_not_mem_token f (hoccurs.subset (by decide))

theorem not_unset_of_token {f : Flag} (hline : line = f.token) : ¬ " =".toList <:+ line := by
  intro hsuffix
  rw [hline] at hsuffix
  exact blank_not_mem_token f (hsuffix.subset (by decide))

/-! The steps of a line follow from its shape: with a separator it gives a value, without one it is
left without a value or is a flag. -/

theorem step_iff_of_cut {rest : List Char} (hcut : cutAt " = ".toList line = some (key, rest)) :
    Step m line m' ↔ ∃ k, Key.read? key = some k ∧ Takes m (trim rest) k m' := by
  have hgiven := given?_of_cut hcut
  have hoccurs : " = ".toList <:+: line := by
    rw [((cutAt_eq_some_iff (by decide)).1 hcut).1]
    exact infix_append ..
  constructor
  · rintro (⟨hgiven', h⟩ | hunset | hflag)
    · rw [hgiven', eq_comm, Option.map_eq_some_iff] at hgiven
      obtain ⟨k, hkey, heq⟩ := hgiven
      obtain ⟨rfl, rfl⟩ := Prod.mk.inj heq
      exact ⟨k, hkey, h⟩
    · exact absurd hoccurs hunset.1
    · exact absurd hoccurs (not_separator_of_token hflag)
  · rintro ⟨k, hkey, h⟩
    rw [hkey] at hgiven
    exact .entry hgiven h

theorem step_iff_of_unset (hunset : Unset line) : Step m line m' ↔ m' = m := by
  constructor
  · rintro (⟨hgiven, -⟩ | - | hflag)
    · exact absurd (infix_of_given? hgiven) hunset.1
    · rfl
    · exact absurd hunset.2 (not_unset_of_token hflag)
  · rintro rfl
    exact .unset hunset

theorem step_iff_of_bare (hoccurs : ¬ " = ".toList <:+: line) (hsuffix : ¬ " =".toList <:+ line) :
    Step m line m' ↔ ∃ f : Flag, line = f.token ∧ m' = m.setFlag f := by
  constructor
  · rintro (⟨hgiven, -⟩ | hunset | hflag)
    · exact absurd (infix_of_given? hgiven) hoccurs
    · exact absurd hunset.2 hsuffix
    · exact ⟨_, hflag, rfl⟩
  · rintro ⟨f, hflag, rfl⟩
    exact .flag hflag

/-- **A line that is not blank is taken if and only if it is a step.** -/
theorem applyLine_eq_ok_iff (hne : trim raw ≠ []) :
    m.applyLine (Line.read raw) = .ok m' ↔ Step m (trim raw) m' := by
  have htrim : trim (trim raw) = trim raw := trimWhere_trimWhere isBlank raw
  have hnonblank : ¬ (trim raw).isEmpty = true := by rwa [List.isEmpty_iff]
  rw [Line.read, if_neg hnonblank]
  cases hcut : cutAt " = ".toList (trim raw) with
  | some cut =>
    obtain ⟨key, rest⟩ := cut
    have hvalue : ∀ k, Key.read? key = some k → trim (trim rest) = trim rest ∧ trim rest ≠ [] :=
      fun k hkey => value_of_given? (by rw [given?_of_cut hcut, hkey]; rfl) htrim
    rw [step_iff_of_cut hcut]
    constructor
    · intro h
      cases hkey : Key.read? key with
      | none => simp [applyLine, applyEntry, hkey] at h
      | some k => exact ⟨k, rfl, .of_applyEntry hkey (hvalue k hkey).1 (hvalue k hkey).2 h⟩
    · rintro ⟨k, hkey, h⟩
      exact h.applyEntry hkey (hvalue k hkey).1 (hvalue k hkey).2
  | none =>
    have hoccurs := (cutAt_eq_none_iff (by decide)).1 hcut
    split_ifs with hsuffix
    · rw [step_iff_of_unset ⟨hoccurs, isSuffixOf_iff_suffix.1 hsuffix⟩, eq_comm (a := m')]
      exact (Except.ok.injEq m m').to_iff
    · rw [step_iff_of_bare hoccurs fun h => hsuffix (isSuffixOf_iff_suffix.2 h)]
      simp only [← Flag.read?_eq_some_iff]
      cases Flag.read? (trim raw) with
      | none => simp [applyLine]
      | some f => simp [applyLine, eq_comm]

/-! ## The whole text -/

/-- The lines that count: those that are not blank, without the blanks around them. -/
def content (raws : List (List Char)) : List (List Char) := (raws.map trim).filter (!·.isEmpty)

def lines (text : List Char) : List (List Char) := content (textLines text)

theorem content_cons_blank (hblank : trim raw = []) (raws : List (List Char)) :
    content (raw :: raws) = content raws := by
  simp [content, hblank]

theorem content_cons (hne : trim raw ≠ []) (raws : List (List Char)) :
    content (raw :: raws) = trim raw :: content raws := by
  simp [content, hne]

theorem foldlM_applyLine_eq_ok_iff {raws : List (List Char)} :
    raws.foldlM (fun m raw => m.applyLine (Line.read raw)) m = .ok m' ↔
      Steps m (content raws) m' := by
  induction raws generalizing m with
  | nil =>
    constructor
    · rintro ⟨⟩
      exact .nil
    · rintro ⟨⟩
      rfl
  | cons raw raws ih =>
    rw [foldlM_cons]
    by_cases hblank : trim raw = []
    · rw [applyLine_blank hblank, content_cons_blank hblank]
      exact ih
    · rw [content_cons hblank]
      constructor
      · intro h
        obtain ⟨m₁, h₁, h₂⟩ := ok_of_bind h
        exact .cons ((applyLine_eq_ok_iff hblank).1 h₁) (ih.1 h₂)
      · rintro (_ | ⟨h₁, h₂⟩)
        rw [(applyLine_eq_ok_iff hblank).2 h₁]
        exact ih.2 h₂

/-- **A record is read if and only if its lines lead to it**, step by step. -/
theorem read_eq_ok_iff {text : List Char} : read text = .ok m ↔ Steps {} (lines text) m :=
  foldlM_applyLine_eq_ok_iff

/-- A line of a record has no blanks around it. -/
theorem trim_of_mem_lines {text : List Char} (h : line ∈ lines text) : trim line = line := by
  obtain ⟨raw, -, rfl⟩ := mem_map.1 (mem_of_mem_filter h)
  exact trimWhere_trimWhere isBlank raw

/-! ## The closed set -/

/-- A line of the format: a flag, or a key of the table and an equals sign. -/
def Known (line : List Char) : Prop :=
  (∃ f : Flag, line = f.token) ∨ ∃ e ∈ Key.table, e.1.toList ++ " =".toList <+: line

instance decidableKnown (line : List Char) : Decidable (Known line) :=
  decidable_of_iff ((Flag.read? line).isSome ∨ ∃ e ∈ Key.table, e.1.toList ++ " =".toList <+: line)
    (or_congr_left (by simp only [Option.isSome_iff_exists, Flag.read?_eq_some_iff]))

theorem Step.known_or_unset (h : Step m line m') : Known line ∨ Unset line := by
  cases h with
  | entry hgiven =>
    obtain ⟨word, rest, hword, rfl, -⟩ := exists_of_given? hgiven
    refine .inl (.inr ⟨_, hword, ' ' :: rest, ?_⟩)
    simp
  | unset h => exact .inr h
  | flag h => exact .inl (.inl ⟨_, h⟩)

theorem applyLine_unset (h : Unset (trim raw)) : m.applyLine (Line.read raw) = .ok m := by
  refine (applyLine_eq_ok_iff fun hblank => ?_).2 (.unset h)
  rw [hblank] at h
  exact absurd (suffix_nil.1 h.2) (by decide)

/-- A line without a value leaves no trace. -/
theorem read_without_unset {before after : List Char} (hbreak : '\n' ∉ line)
    (h : Unset (trim line)) :
    read (before ++ '\n' :: (line ++ '\n' :: after)) = read (before ++ '\n' :: after) := by
  have hfree : ∀ c ∈ line, (c == '\n') = false := fun c hc =>
    beq_false_of_ne fun heq => hbreak (heq ▸ hc)
  have hline : textLines (line ++ '\n' :: after) = line :: textLines after :=
    splitWhere_append_cons hfree rfl after
  have hlines : ∀ text, textLines (before ++ '\n' :: text) = textLines before ++ textLines text :=
    fun text => splitWhere_append_cons_of_pos rfl before text
  rw [read, read, hlines, hlines, hline, foldlM_append, foldlM_append]
  refine congrArg _ (funext fun m => ?_)
  rw [foldlM_cons, applyLine_unset h]
  rfl

/-- **Only lines without a value escape the closed set.**  Every line of a record that is read is
known or has no value, any other line is an error, and a line without a value, whatever it names, can
as well be left out. -/
theorem only_unset_lines_escape (text : List Char) :
    (∀ m, read text = .ok m → ∀ line ∈ lines text, Known line ∨ Unset line) ∧
    (∀ line ∈ lines text, ¬ Known line → ¬ Unset line →
      ∃ message, (read text).mapError Error.toJudge = .error (.config message)) ∧
    (∀ before line after, text = before ++ '\n' :: (line ++ '\n' :: after) → '\n' ∉ line →
      Unset (trim line) → read text = read (before ++ '\n' :: after)) := by
  have hread : ∀ m, read text = .ok m → ∀ line ∈ lines text, Known line ∨ Unset line :=
    fun m h => (read_eq_ok_iff.1 h).forall_mem Step.known_or_unset
  refine ⟨hread, fun line hline hknown hunset => ?_, fun before line after htext => ?_⟩
  · cases hresult : read text with
    | ok m => exact absurd (hread m hresult line hline) (not_or.2 ⟨hknown, hunset⟩)
    | error e => exact ⟨e.message, rfl⟩
  · subst htext
    exact read_without_unset

theorem misspelt_limit_noticed :
    (∀ line ∈ lines "comment = a=b\nparams =\n check_stderr ".toList, Known line ∨ Unset line) ∧
    (∃ message, (read "params = 1\ntimelimit".toList).mapError Error.toJudge =
      .error (.config message)) ∧
    read "params = 1\n timelimit = \ncheck_stderr".toList =
      read ("params = 1".toList ++ '\n' :: "check_stderr".toList) :=
  ⟨(only_unset_lines_escape _).1 { checkStderr := true } (by decide +kernel),
    (only_unset_lines_escape _).2.1 "timelimit".toList (by decide +kernel) (by decide) (by decide),
    (only_unset_lines_escape _).2.2 _ " timelimit = ".toList _ rfl (by decide) (by decide +kernel)⟩

/-- A key that does not exist is not noticed when its line has no value. -/
theorem misspelt_limit_escapes :
    "timelimit =".toList ∈ lines "timelimit =".toList ∧ ¬ Known "timelimit =".toList ∧
      read "timelimit =".toList = .ok {} :=
  ⟨by decide +kernel, by decide, by decide +kernel⟩

end Metadata

end Judge
