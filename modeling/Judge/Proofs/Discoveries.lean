import Judge.Proofs.Comparisons
import Judge.Proofs.Extensions
import Judge.Proofs.Outcomes
import Judge.Suite.Discovery

/-!
# Proofs/Discoveries — every test is found, in any listing

`Views h Calm dir names kind` says what there is to be seen: the names in a directory, and the kind of
what each path leads to.  The tests are then found out without a machine (`discover_gives`): they are
the stems of the listed inputs, by the order of their file names, and the first of them that has a
directory of its own beside the shared one is the error (`found_tests`).

What stands beside an input is a matter of names (`withExtension_sibling`), and different tests have
nothing in common there (`beside_ne_beside`).  That goes wrong for the stem `.` alone: its own
directory is `..`, which is always there (`dot_test_conflicts`).
-/

namespace Judge.Discovery

open Judge.Path (IsName dot slash)
open Program (Gives)

/-- What each path leads to. -/
abbrev Kinds := Path → Except OsError FileKind

variable {σ : Type} {h : Program.Handler σ} {Calm : σ → Prop} {dir static : Path}
  {names listing ns : List Bytes} {kind : Kinds} {stem : Bytes}

/-! ## What there is to be seen -/

/-- **A machine shows a directory**: the names in it, and what each path leads to. -/
structure Views (h : Program.Handler σ) (Calm : σ → Prop) (dir : Path) (names : List Bytes)
    (kind : Kinds) : Prop where
  list {s : σ} : Calm s → ∃ s' : σ, h (.file (.list dir)) s = some (.ok names, s') ∧ Calm s'
  look (p : Path) {s : σ} : Calm s → ∃ s' : σ, h (.file (.kind p)) s = some (kind p, s') ∧ Calm s'

/-- Whether a path leads to a regular file. -/
def isFile (kind : Kinds) (p : Path) : Bool := (kind p).toOption.any FileKind.isFile

/-- Whether a path leads to a directory. -/
def isDir (kind : Kinds) (p : Path) : Bool := (kind p).toOption.any FileKind.isDir

/-! ## The tests without a machine -/

def isInputOf (kind : Kinds) (p : Path) : Bool :=
  p.extension? = some inputExtension && isFile kind p

/-- The test with a given input, or the error of its own directory. -/
def resolved (kind : Kinds) (static input : Path) : Except JudgeError TestCase :=
  let own := input.withExtension dirExtension
  if isDir kind static then
    if isDir kind own then .error (conflict (testName input) own) else .ok (testCase input static)
  else .ok (testCase input own)

/-- The inputs in order. -/
def sortedInputs (kind : Kinds) (dir : Path) (names : List Bytes) : List Path :=
  sortPaths ((names.map fun n => dir.join ⟨n⟩).filter (isInputOf kind))

namespace Views

theorem look_gives (hviews : Views h Calm dir names kind) (p : Path) :
    Gives h Calm (Program.onFiles (.kind p)) (kind p) :=
  .onFiles fun _ => hviews.look p

theorem isInput_gives (hviews : Views h Calm dir names kind) (p : Path) :
    Gives h Calm (isInput p) (isInputOf kind p) := by
  unfold isInput isInputOf
  split
  · rename_i hextension
    simpa [hextension, isFile] using (hviews.look_gives p).isFile
  · rename_i hextension
    simpa [hextension] using Gives.pure false

theorem resolve_gives (hviews : Views h Calm dir names kind) (static input : Path) :
    Gives h Calm (resolve (if isDir kind static then some static else none) input).run
      (resolved kind static input) := by
  unfold resolved
  cases isDir kind static with
  | false => exact .pure _
  | true =>
    have hown := (hviews.look_gives (input.withExtension dirExtension)).isDir
    refine .ofProgram_bind hown ?_
    change Gives h Calm _ (if isDir kind (input.withExtension dirExtension) then _ else _)
    unfold isDir
    cases (kind (input.withExtension dirExtension)).toOption.any FileKind.isDir with
    | false | true => exact .pure _

/-- **The tests are the same for every machine that shows the same.** -/
theorem discover_gives {cwd problemDir testsDir : Path}
    (hviews : Views h Calm (Path.absolute cwd (problemDir.join testsDir)) names kind) :
    Gives h Calm (discover cwd problemDir testsDir).run
      ((sortedInputs kind (Path.absolute cwd (problemDir.join testsDir)) names).mapM
        (resolved kind (Path.absolute cwd (problemDir.child staticName)))) := by
  have hlist : Gives h Calm (Program.onFiles (.list _)) (.ok names) :=
    .onFiles fun _ => hviews.list
  refine .ofProgram_bind hlist ?_
  refine .ofProgram_bind (.filterM fun p _ => hviews.isInput_gives p) ?_
  refine .ofProgram_bind (hviews.look_gives _).isDir ?_
  exact .mapM fun input _ => hviews.resolve_gives _ input

end Views

/-! ## The files of a test -/

/-- The path `T.ext` in a directory. -/
def sibling (dir : Path) (stem ext : Bytes) : Path := dir.join ⟨stem ++ dot :: ext⟩

/-- What the judge takes for the name `T.ext`. -/
def besideName (stem ext : Bytes) : Bytes :=
  if stem = [dot] then [dot, dot] else stem ++ dot :: ext

/-- What the judge takes for the path `T.ext`. -/
def beside (dir : Path) (stem ext : Bytes) : Path := dir.join ⟨besideName stem ext⟩

/-- **A test of a directory**: `T.dat` is listed there, and it is a regular file. -/
structure IsTest (kind : Kinds) (dir : Path) (names : List Bytes)
    (stem : Bytes) : Prop where
  ne_nil : stem ≠ []
  listed : stem ++ dot :: inputExtension ∈ names
  regular : isFile kind (sibling dir stem inputExtension) = true

theorem sibling_eq (hns : ∀ m ∈ ns, IsName m) (hslash : slash ∉ stem) (ext : Bytes) :
    sibling (.ofNames ns) stem ext = .ofNames (ns ++ [stem ++ dot :: ext]) := by
  refine Path.ofNames_join hns fun hhead => ?_
  cases stem with
  | nil => exact absurd (Option.some.inj hhead) (by decide)
  | cons b stem => exact hslash (by simp_all)

theorem isName_of_mem_input (hns : ∀ m ∈ ns, IsName m)
    (hname : IsName (stem ++ dot :: inputExtension)) :
    ∀ m ∈ ns ++ [stem ++ dot :: inputExtension], IsName m :=
  List.forall_mem_append.mpr ⟨hns, List.forall_mem_singleton.mpr hname⟩

theorem withExtension_sibling (hns : ∀ m ∈ ns, IsName m) (hstem : stem ≠ [])
    (hname : IsName (stem ++ dot :: inputExtension)) (ext : Bytes) :
    (sibling (.ofNames ns) stem inputExtension).withExtension ext =
      beside (.ofNames ns) stem ext := by
  have hslash : slash ∉ stem := fun h => hname.noSlash (List.mem_append_left _ h)
  have hnames := isName_of_mem_input hns hname
  rw [sibling_eq hns hslash, beside, besideName]
  split
  · rename_i hdot
    subst hdot
    rw [Path.ofNames_join hns (by decide)]
    exact Path.withExtension_ofNames_dot hnames (by decide) ext
  · rename_i hdot
    change _ = sibling _ _ _
    rw [sibling_eq hns hslash]
    exact Path.withExtension_ofNames hnames hstem hdot (by decide) ext

theorem testName_sibling (hns : ∀ m ∈ ns, IsName m) (hstem : stem ≠ [])
    (hname : IsName (stem ++ dot :: inputExtension)) :
    testName (sibling (.ofNames ns) stem inputExtension) = Utf8.text stem := by
  have hslash : slash ∉ stem := fun h => hname.noSlash (List.mem_append_left _ h)
  rw [sibling_eq hns hslash, testName, Path.stem?, Path.fileName?,
    Path.getLast?_components_ofNames (isName_of_mem_input hns hname)]
  simp [Path.cutName_append (show dot ∉ inputExtension by decide) hname.notUp, hstem]

/-- Whether a listed path is an input is a matter of its name and of what it leads to. -/
theorem isInputOf_join_iff (hns : ∀ m ∈ ns, IsName m) {n : Bytes} (hn : IsName n) :
    isInputOf kind ((Path.ofNames ns).join ⟨n⟩) = true ↔
      ∃ stem, n = stem ++ dot :: inputExtension ∧ stem ≠ [] ∧
        isFile kind (sibling (.ofNames ns) stem inputExtension) = true := by
  have hnames : ∀ m ∈ ns ++ [n], IsName m :=
    List.forall_mem_append.mpr ⟨hns, List.forall_mem_singleton.mpr hn⟩
  have hextension : ((Path.ofNames ns).join ⟨n⟩).extension? = (Path.cutName n).2 := by
    rw [Path.ofNames_join hns (Path.head?_ne_slash hn.noSlash), Path.extension?,
      Path.fileName?, Path.getLast?_components_ofNames hnames]
    rfl
  rw [isInputOf, hextension, Bool.and_eq_true, decide_eq_true_eq]
  constructor
  · rintro ⟨hcut, hfile⟩
    obtain ⟨hstem, hne, -⟩ := (Path.cutName_eq_some_iff hn.notUp).mp (Prod.ext rfl hcut)
    exact ⟨(Path.cutName n).1, hstem, hne, by rwa [sibling, ← hstem]⟩
  · rintro ⟨stem, rfl, hstem, hfile⟩
    rw [(Path.cutName_eq_some_iff hn.notUp).mpr ⟨rfl, hstem, by decide⟩]
    exact ⟨rfl, hfile⟩

/-! ## The order of the inputs -/

theorem le_append_left (front n m : Bytes) : Bytes.le (front ++ n) (front ++ m) = Bytes.le n m := by
  induction front with
  | nil => rfl
  | cons b front ih => simp [Bytes.le, ih]

theorem le_join (hns : ∀ m ∈ ns, IsName m) {n m : Bytes} (hn : IsName n) (hm : IsName m) :
    Bytes.le ((Path.ofNames ns).join ⟨n⟩).text ((Path.ofNames ns).join ⟨m⟩).text =
      Bytes.le n m := by
  obtain ⟨front, hfront⟩ := Path.exists_front ns
  rw [Path.ofNames_join hns (Path.head?_ne_slash hn.noSlash),
    Path.ofNames_join hns (Path.head?_ne_slash hm.noSlash), hfront, hfront,
    le_append_left]

theorem sortedInputs_eq (hns : ∀ m ∈ ns, IsName m) (hnames : ∀ n ∈ names, IsName n) :
    sortedInputs kind (.ofNames ns) names =
      ((names.filter fun n => isInputOf kind ((Path.ofNames ns).join ⟨n⟩)).mergeSort Bytes.le).map
        fun n => (Path.ofNames ns).join ⟨n⟩ := by
  rw [sortedInputs, List.filter_map, sortPaths, List.map_mergeSort]
  · rfl
  · intro n hn m hm
    exact (le_join hns (hnames n (List.mem_of_mem_filter hn))
      (hnames m (List.mem_of_mem_filter hm))).symm

/-- **The inputs in order are the tests**, however they are listed. -/
theorem exists_sortedInputs (kind : Kinds) (hns : ∀ m ∈ ns, IsName m)
    (hnames : ∀ n ∈ names, IsName n) (hnodup : names.Nodup) :
    ∃ stems : List Bytes, (stems.map (· ++ dot :: inputExtension)).Pairwise (· < ·) ∧
      (∀ stem, stem ∈ stems ↔ IsTest kind (.ofNames ns) names stem) ∧
      ∀ listing, listing.Perm names → sortedInputs kind (.ofNames ns) listing =
        stems.map fun stem => sibling (.ofNames ns) stem inputExtension := by
  let files :=
    (names.filter fun n => isInputOf kind ((Path.ofNames ns).join ⟨n⟩)).mergeSort Bytes.le
  have hmem : ∀ n, n ∈ files ↔ n ∈ names ∧ isInputOf kind ((Path.ofNames ns).join ⟨n⟩) = true :=
    fun n => List.mem_mergeSort.trans List.mem_filter
  have hcut : ∀ n ∈ files, ∃ stem, n = stem ++ dot :: inputExtension ∧ (Path.cutName n).1 = stem ∧
      IsTest kind (.ofNames ns) names stem := by
    intro n hn
    obtain ⟨hlisted, hinput⟩ := (hmem n).mp hn
    have hname := hnames n hlisted
    obtain ⟨stem, rfl, hstem, hfile⟩ := (isInputOf_join_iff hns hname).mp hinput
    refine ⟨stem, rfl, ?_, hstem, hlisted, hfile⟩
    rw [(Path.cutName_eq_some_iff hname.notUp).mpr ⟨rfl, hstem, by decide⟩]
  have hstems :
      (files.map fun n => (Path.cutName n).1).map (· ++ dot :: inputExtension) = files := by
    rw [List.map_map]
    refine (List.map_congr_left fun n hn => ?_).trans (List.map_id files)
    obtain ⟨stem, rfl, hstem, -⟩ := hcut n hn
    rw [Function.comp, hstem, id]
  refine ⟨files.map fun n => (Path.cutName n).1, ?_, fun stem => ⟨fun hstem => ?_, fun htest => ?_⟩,
    fun listing hperm => ?_⟩
  · have hne : files.Pairwise (· ≠ ·) := (List.mergeSort_perm _ _).nodup_iff.mpr (hnodup.filter _)
    rw [hstems]
    exact ((pairwise_mergeSort _).and hne).imp fun h =>
      (List.le_iff_lt_or_eq.mp h.1).resolve_right h.2
  · obtain ⟨n, hn, rfl⟩ := List.mem_map.mp hstem
    obtain ⟨stem, -, hstem, htest⟩ := hcut n hn
    rwa [hstem]
  · have hn : stem ++ dot :: inputExtension ∈ files := (hmem _).mpr ⟨htest.listed,
      (isInputOf_join_iff hns (hnames _ htest.listed)).mpr ⟨stem, rfl, htest.ne_nil, htest.regular⟩⟩
    obtain ⟨stem', heq, hstem', -⟩ := hcut _ hn
    obtain rfl : stem = stem' := List.append_cancel_right heq
    exact List.mem_map.mpr ⟨_, hn, hstem'⟩
  · have hsame : (listing.filter fun n => isInputOf kind ((Path.ofNames ns).join ⟨n⟩)).mergeSort
        Bytes.le = files := mergeSort_eq_iff_perm.mpr (hperm.filter _)
    rw [sortedInputs_eq hns fun n hn => hnames n (hperm.mem_iff.mp hn), hsame]
    conv_lhs => rw [← hstems]
    rw [List.map_map]
    rfl

/-! ## The first conflict -/

/-- A loop that stops at the first element with an error. -/
theorem mapM_guard {α β ε : Type} {f : α → Except ε β} {p : α → Bool} {e : α → ε} {g : α → β}
    {xs : List α} (hf : ∀ x ∈ xs, f x = if p x then .error (e x) else .ok (g x)) :
    xs.mapM f = (xs.find? p).elim (.ok (xs.map g)) fun x => .error (e x) := by
  induction xs with
  | nil => rfl
  | cons x xs ih =>
    rw [List.mapM_cons, hf x List.mem_cons_self, ih fun y hy => hf y (List.mem_cons_of_mem x hy)]
    cases hx : p x with
    | true => rw [List.find?_cons_of_pos hx]; rfl
    | false =>
      rw [List.find?_cons_of_neg (by simp [hx])]
      cases xs.find? p <;> rfl

/-! ## What is found -/

/-- The test with a given stem. -/
def found (kind : Kinds) (dir static : Path) (stem : Bytes) : TestCase where
  name := Utf8.text stem
  input := sibling dir stem inputExtension
  reference := beside dir stem referenceExtension
  info := beside dir stem infoExtension
  fixtureDir := if isDir kind static then static else beside dir stem dirExtension

/-- Whether a test has a directory of its own beside the shared one. -/
def conflicts (kind : Kinds) (dir static : Path) (stem : Bytes) : Bool :=
  isDir kind static && isDir kind (beside dir stem dirExtension)

/-- A test with a directory of its own; for the stem `.` that is `..`. -/
def HasOwn (kind : Kinds) (dir : Path) (stem : Bytes) : Prop :=
  stem ≠ [dot] ∧ isDir kind (sibling dir stem dirExtension) = true ∨
    stem = [dot] ∧ isDir kind (dir.join ⟨[dot, dot]⟩) = true

theorem conflicts_iff :
    conflicts kind dir static stem = true ↔ isDir kind static = true ∧ HasOwn kind dir stem := by
  rw [conflicts, Bool.and_eq_true, HasOwn, beside, besideName]
  split <;> simp_all [sibling]

theorem resolved_sibling (hns : ∀ m ∈ ns, IsName m) (hstem : stem ≠ [])
    (hname : IsName (stem ++ dot :: inputExtension)) (static : Path) :
    resolved kind static (sibling (.ofNames ns) stem inputExtension) =
      if conflicts kind (.ofNames ns) static stem then
        .error (conflict (Utf8.text stem) (beside (.ofNames ns) stem dirExtension))
      else .ok (found kind (.ofNames ns) static stem) := by
  simp only [resolved, testCase, testName_sibling hns hstem hname,
    withExtension_sibling hns hstem hname, conflicts, found]
  by_cases hshared : isDir kind static = true
  · simp [hshared]
  · simp [hshared]

/-- **The tests are found in order, up to the first conflict**, however they are listed. -/
theorem found_tests (kind : Kinds) (hns : ∀ m ∈ ns, IsName m)
    (hnames : ∀ n ∈ names, IsName n) (hnodup : names.Nodup) (static : Path) :
    ∃ stems : List Bytes, (stems.map (· ++ dot :: inputExtension)).Pairwise (· < ·) ∧
      (∀ stem, stem ∈ stems ↔ IsTest kind (.ofNames ns) names stem) ∧
      ∀ listing, listing.Perm names →
        (sortedInputs kind (.ofNames ns) listing).mapM (resolved kind static) =
          (stems.find? (conflicts kind (.ofNames ns) static)).elim
            (.ok (stems.map (found kind (.ofNames ns) static))) fun stem =>
              .error (conflict (Utf8.text stem) (beside (.ofNames ns) stem dirExtension)) := by
  obtain ⟨stems, hsorted, htests, hinputs⟩ := exists_sortedInputs kind hns hnames hnodup
  refine ⟨stems, hsorted, htests, fun listing hperm => ?_⟩
  rw [hinputs listing hperm, List.mapM_map]
  refine mapM_guard fun stem hstem => ?_
  have htest := (htests stem).mp hstem
  exact resolved_sibling hns htest.ne_nil (hnames _ htest.listed) static

/-! ## Tests have nothing in common -/

/-- What may stand before the last full stop of a name. -/
structure IsStem (stem : Bytes) : Prop where
  ne_nil : stem ≠ []
  noSlash : slash ∉ stem

/-- What may stand after it. -/
def IsExtension (ext : Bytes) : Prop := ext ≠ [] ∧ dot ∉ ext ∧ slash ∉ ext

instance (ext : Bytes) : Decidable (IsExtension ext) := inferInstanceAs (Decidable (_ ∧ _))

variable {stem' ext ext' : Bytes}

/-- Something before the full stop and something after it is more than `..`. -/
theorem append_dot_ne_up (hstem : IsStem stem) (hext : IsExtension ext) :
    stem ++ dot :: ext ≠ [dot, dot] := by
  intro h
  have hlength := congrArg List.length h
  have hbefore := List.length_pos_iff.mpr hstem.ne_nil
  have hafter := List.length_pos_iff.mpr hext.1
  simp only [List.length_append, List.length_cons, List.length_nil] at hlength
  omega

theorem append_dot_injective (hstem : IsStem stem) (hstem' : IsStem stem') (hext : IsExtension ext)
    (hext' : IsExtension ext') (h : stem ++ dot :: ext = stem' ++ dot :: ext') :
    stem = stem' ∧ ext = ext' := by
  have hup := append_dot_ne_up hstem hext
  have hcut := (Path.cutName_eq_some_iff hup).mpr ⟨rfl, hstem.ne_nil, hext.2.1⟩
  rw [(Path.cutName_eq_some_iff hup).mpr ⟨h, hstem'.ne_nil, hext'.2.1⟩] at hcut
  cases hcut
  exact ⟨rfl, rfl⟩

theorem slash_notMem_append (hstem : IsStem stem) (hext : IsExtension ext) :
    slash ∉ stem ++ dot :: ext := by
  rw [List.mem_append, List.mem_cons, not_or, not_or]
  exact ⟨hstem.noSlash, by decide, hext.2.2⟩

theorem slash_notMem_besideName (hstem : IsStem stem) (hext : IsExtension ext) :
    slash ∉ besideName stem ext := by
  unfold besideName
  split
  · decide
  · exact slash_notMem_append hstem hext

/-- **The files beside different inputs are different.** -/
theorem beside_ne_beside (hns : ∀ m ∈ ns, IsName m) (hstem : IsStem stem) (hstem' : IsStem stem')
    (hext : IsExtension ext) (hext' : IsExtension ext') (hne : stem ≠ stem') :
    beside (.ofNames ns) stem ext ≠ beside (.ofNames ns) stem' ext' := by
  intro h
  have hname := Path.join_injective hns (slash_notMem_besideName hstem hext)
    (slash_notMem_besideName hstem' hext') h
  unfold besideName at hname
  split_ifs at hname with hdot hdot' hdot'
  · exact hne (hdot.trans hdot'.symm)
  · exact append_dot_ne_up hstem' hext' hname.symm
  · exact append_dot_ne_up hstem hext hname
  · exact hne (append_dot_injective hstem hstem' hext hext' hname).1

/-- **What stands beside an input is no input.** -/
theorem beside_ne_sibling (hns : ∀ m ∈ ns, IsName m) (hstem : IsStem stem) (hstem' : IsStem stem')
    (hext : IsExtension ext) (hext' : IsExtension ext') (hne : ext ≠ ext') :
    beside (.ofNames ns) stem ext ≠ sibling (.ofNames ns) stem' ext' := by
  intro h
  have hname := Path.join_injective hns (slash_notMem_besideName hstem hext)
    (slash_notMem_append hstem' hext') h
  unfold besideName at hname
  split_ifs at hname with hdot
  · exact append_dot_ne_up hstem' hext' hname.symm
  · exact hne (append_dot_injective hstem hstem' hext hext' hname).2

/-! ## The whole of it -/

/-- **All the tests of a directory**: one for each regular file with the extension of an input, by
increasing path, and with files of their own. -/
structure Complete (kind : Kinds) (dir : Path) (names : List Bytes)
    (cases : List TestCase) : Prop where
  inputs (p : Path) : p ∈ cases.map TestCase.input ↔
    ∃ stem, IsTest kind dir names stem ∧ p = sibling dir stem inputExtension
  increasing : cases.Pairwise fun c d => c.input.names < d.input.names
  apart : cases.Pairwise fun c d => c.input ≠ d.input ∧ c.reference ≠ d.reference ∧
    c.info ≠ d.info ∧ c.reference ≠ d.info ∧ c.info ≠ d.reference
  noInput : ∀ c ∈ cases, ∀ d ∈ cases, c.reference ≠ d.input ∧ c.info ≠ d.input

theorem complete_found (hns : ∀ m ∈ ns, IsName m) (hnames : ∀ n ∈ names, IsName n)
    {stems : List Bytes} (hsorted : (stems.map (· ++ dot :: inputExtension)).Pairwise (· < ·))
    (htests : ∀ stem, stem ∈ stems ↔ IsTest kind (.ofNames ns) names stem) (static : Path) :
    Complete kind (.ofNames ns) names (stems.map (found kind (.ofNames ns) static)) := by
  have hplain : ∀ stem ∈ stems, IsStem stem ∧ IsName (stem ++ dot :: inputExtension) := by
    intro stem hstem
    have htest := (htests stem).mp hstem
    have hname := hnames _ htest.listed
    exact ⟨⟨htest.ne_nil, fun h => hname.noSlash (List.mem_append_left _ h)⟩, hname⟩
  have hinput : ∀ stem ∈ stems, (sibling (.ofNames ns) stem inputExtension).names =
      ns ++ [stem ++ dot :: inputExtension] := by
    intro stem hstem
    obtain ⟨hstem, hname⟩ := hplain stem hstem
    rw [sibling_eq hns hstem.noSlash, Path.names_ofNames (isName_of_mem_input hns hname)]
  have hlt := List.pairwise_map.mp hsorted
  refine ⟨fun p => ?_, ?_, ?_, ?_⟩
  · rw [List.map_map, List.mem_map]
    exact exists_congr fun stem => and_congr (htests stem) eq_comm
  · refine List.pairwise_map.mpr (hlt.imp_of_mem fun hstem hstem' h => ?_)
    change (sibling _ _ _).names < (sibling _ _ _).names
    rw [hinput _ hstem, hinput _ hstem']
    exact List.append_left_lt (List.cons_lt_cons_iff.mpr (.inl h))
  · refine List.pairwise_map.mpr (hlt.imp_of_mem fun {stem stem'} hmem hmem' h => ?_)
    have hstem := (hplain _ hmem).1
    have hstem' := (hplain _ hmem').1
    have hdistinct : stem ≠ stem' := by
      rintro rfl
      exact List.lt_irrefl _ h
    have hbeside : ∀ {ext ext'}, IsExtension ext → IsExtension ext' →
        beside (.ofNames ns) stem ext ≠ beside (.ofNames ns) stem' ext' := fun hext hext' =>
      beside_ne_beside hns hstem hstem' hext hext' hdistinct
    refine ⟨fun heq => hdistinct ?_, hbeside (by decide) (by decide),
      hbeside (by decide) (by decide), hbeside (by decide) (by decide),
      hbeside (by decide) (by decide)⟩
    exact List.append_cancel_right (Path.join_injective hns
      (slash_notMem_append hstem (by decide)) (slash_notMem_append hstem' (by decide)) heq)
  · intro c hc d hd
    obtain ⟨stem, hmem, rfl⟩ := List.mem_map.mp hc
    obtain ⟨stem', hmem', rfl⟩ := List.mem_map.mp hd
    have hstem := (hplain _ hmem).1
    have hstem' := (hplain _ hmem').1
    exact ⟨beside_ne_sibling hns hstem hstem' (by decide) (by decide) (by decide),
      beside_ne_sibling hns hstem hstem' (by decide) (by decide) (by decide)⟩

/-- The first of the tests with a conflict, by the order of their inputs. -/
theorem first_of_find? {stems : List Bytes} {p : Bytes → Bool}
    (hsorted : (stems.map (· ++ dot :: inputExtension)).Pairwise (· < ·))
    (hfind : stems.find? p = some stem) {other : Bytes} (hother : other ∈ stems)
    (hp : p other = true) : stem ++ dot :: inputExtension ≤ other ++ dot :: inputExtension := by
  obtain ⟨-, before, after, rfl, hbefore⟩ := List.find?_eq_some_iff_append.mp hfind
  rcases List.mem_append.mp hother with hmem | hmem
  · exact absurd hp (by simpa using hbefore other hmem)
  rcases List.mem_cons.mp hmem with rfl | hmem
  · exact List.le_refl _
  · have hrest := (List.pairwise_append.mp (List.pairwise_map.mp hsorted)).2.1
    exact List.le_of_lt ((List.pairwise_cons.mp hrest).1 other hmem)

/-- **Every test is found, in any listing.**  What is found depends on what is listed and not on the
order.  It is one test for each input, by increasing path, or the error of the first test with a
directory of its own beside the shared one; and the own directory of the test with the stem `.` is
`..`. -/
theorem discovered_tests {cwd problemDir testsDir dir static : Path}
    (hdir : dir = Path.absolute cwd (problemDir.join testsDir))
    (hstatic : static = Path.absolute cwd (problemDir.child staticName))
    (hnames : ∀ n ∈ names, IsName n) (hnodup : names.Nodup)
    (kind : Kinds) :
    ∃ result : Except JudgeError (List TestCase),
      (∀ (σ : Type) (h : Program.Handler σ) (Calm : σ → Prop) (listing : List Bytes),
        listing.Perm names → Views h Calm dir listing kind →
          Gives h Calm (discover cwd problemDir testsDir).run result) ∧
      (∀ cases, result = .ok cases → Complete kind dir names cases) ∧
      ((∃ message, result = .error (.config message)) ↔
        isDir kind static = true ∧
          ∃ stem, IsTest kind dir names stem ∧ HasOwn kind dir stem) ∧
      ∀ e, result = .error e → ∃ stem, IsTest kind dir names stem ∧ HasOwn kind dir stem ∧
        (∀ other, IsTest kind dir names other → HasOwn kind dir other →
          stem ++ dot :: inputExtension ≤ other ++ dot :: inputExtension) ∧
        e = conflict (Utf8.text stem) (beside dir stem dirExtension) := by
  obtain ⟨ns, hns, rfl⟩ : ∃ ns, (∀ m ∈ ns, IsName m) ∧ dir = .ofNames ns :=
    ⟨_, Path.isName_of_mem_names, hdir⟩
  obtain ⟨stems, hsorted, htests, hresult⟩ := found_tests kind hns hnames hnodup static
  have hgives : ∀ (σ : Type) (h : Program.Handler σ) (Calm : σ → Prop) (listing : List Bytes),
      listing.Perm names → Views h Calm (.ofNames ns) listing kind →
        Gives h Calm (discover cwd problemDir testsDir).run
          ((sortedInputs kind (.ofNames ns) names).mapM (resolved kind static)) := by
    intro σ h Calm listing hperm hviews
    rw [hresult names (.refl _), ← hresult listing hperm, hdir, hstatic]
    exact (hdir ▸ hviews).discover_gives
  refine ⟨_, hgives, ?_⟩
  rw [hresult names (.refl _)]
  cases hfind : stems.find? (conflicts kind (.ofNames ns) static) with
  | none =>
    refine ⟨?_, iff_of_false nofun ?_, nofun⟩
    · rintro _ ⟨⟩
      exact complete_found hns hnames hsorted htests static
    · rintro ⟨hshared, stem, htest, hown⟩
      have hconflict := List.find?_eq_none.mp hfind stem ((htests stem).mpr htest)
      exact hconflict (conflicts_iff.mpr ⟨hshared, hown⟩)
  | some stem =>
    have htest := (htests stem).mp (List.mem_of_find?_eq_some hfind)
    obtain ⟨hshared, hown⟩ := conflicts_iff.mp (List.find?_some hfind)
    refine ⟨nofun, iff_of_true ⟨_, rfl⟩ ⟨hshared, stem, htest, hown⟩, ?_⟩
    rintro _ ⟨⟩
    refine ⟨stem, htest, hown, fun other hother hown' => ?_, rfl⟩
    exact first_of_find? hsorted hfind ((htests other).mpr hother)
      (conflicts_iff.mpr ⟨hshared, hown'⟩)

/-! ### In a tree of files -/

theorem views_onTree {t : FileTree} {cwd : Place} (hlist : t.list cwd dir = .ok names) :
    Views (Program.onTree cwd) (· = t) dir names (t.kind cwd · .follow) where
  list := by
    rintro _ rfl
    exact ⟨_, congrArg (fun r => some (r, _)) hlist, rfl⟩
  look p := by
    rintro _ rfl
    exact ⟨_, rfl, rfl⟩

/-- A problem with two tests, of which the later one is listed first, and a directory that is named
as a test is. -/
def twoTests : FileTree where
  entries := [([utf8 "p"], .dir), ([utf8 "p", utf8 "tests"], .dir),
    ([utf8 "p", utf8 "tests", utf8 "a.b.dat"], .file [] plainMode),
    ([utf8 "p", utf8 "tests", utf8 "a-.dat"], .file [] plainMode),
    ([utf8 "p", utf8 "tests", utf8 "a.dat"], .dir)]

theorem two_tests_found :
    ∃ cases, (discover (.ofString "/") (.ofString "p") (.ofString "tests")).run.run
        (Program.onTree []) twoTests = some (.ok cases, twoTests) ∧
      Complete (twoTests.kind [] · .follow) (.ofString "/p/tests")
        [utf8 "a.dat", utf8 "a-.dat", utf8 "a.b.dat"] cases := by
  have hnames : ∀ n ∈ [utf8 "a.dat", utf8 "a-.dat", utf8 "a.b.dat"], IsName n := by
    simp only [List.forall_mem_cons]
    exact ⟨⟨by decide, by decide, by decide⟩, ⟨by decide, by decide, by decide⟩,
      ⟨by decide, by decide, by decide⟩, nofun⟩
  have hlist : twoTests.list [] (.ofString "/p/tests") =
      .ok [utf8 "a.dat", utf8 "a-.dat", utf8 "a.b.dat"] := by decide +kernel
  obtain ⟨result, hgives, hok, hconflict, herror⟩ := discovered_tests
    (show Path.ofString "/p/tests" = Path.absolute (.ofString "/")
      ((Path.ofString "p").join (.ofString "tests")) by decide) rfl hnames (by decide)
    (twoTests.kind [] · .follow)
  obtain ⟨_, _, hrun, hresult, rfl⟩ := hgives _ _ _ _ (.refl _) (views_onTree hlist) _ rfl
  rw [hresult] at hrun
  cases result with
  | ok cases => exact ⟨cases, hrun, hok cases rfl⟩
  | error e =>
    obtain ⟨_, -, -, -, rfl⟩ := herror e rfl
    have hnone : isDir (twoTests.kind [] · .follow)
        (Path.absolute (.ofString "/") ((Path.ofString "p").child staticName)) = false := by decide +kernel
    rw [(hconflict.mp ⟨_, rfl⟩).1] at hnone
    contradiction

/-- A problem with a shared directory, and with a test that has none of its own. -/
def dotTest : FileTree where
  entries := [([utf8 "p"], .dir), ([utf8 "p", utf8 "static"], .dir), ([utf8 "p", utf8 "tests"], .dir),
    ([utf8 "p", utf8 "tests", utf8 "..dat"], .file [] plainMode)]

/-- The test with the stem `.` is taken for one with a directory of its own. -/
theorem dot_test_conflicts :
    dotTest.kind [] (.ofString "/p/tests/..dir") .follow = .error .noEntry ∧
      (discover (.ofString "/") (.ofString "p") (.ofString "tests")).run.run (Program.onTree [])
        dotTest = some (.error (conflict "." (.ofString "/p/tests/..")), dotTest) := by
  constructor
  · decide +kernel
  · decide +kernel

end Judge.Discovery
