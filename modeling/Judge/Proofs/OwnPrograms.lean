import Judge.Proofs.Invocations
import Judge.Proofs.RelativePaths

/-!
# Proofs/OwnPrograms — the program that a command with a leading `./` runs

A word that begins with `./` names a program of the problem directory.  It is rewritten as it is
seen from the run directory, and the first word of a command is then taken for a path only if there
is a slash in it.  So the program is found where a slash is left (`resolveExecutable_climbText`).
The slash is lost exactly when the program lies directly in the run directory, or is that directory:
what remains is a bare name, which is looked up elsewhere.
-/

namespace Judge

open List

namespace Path

variable {ns rest : List Bytes}

/-! ## Paths and bare names -/

/-- **The path `p`, read as the name of a program, leads to `target`.**  A bare name is looked up,
so it is no path. -/
def LeadsTo (p target : Path) : Prop := slash ∈ p.text ∧ p.normalize = target

theorem slash_mem_utf8 (s : String) : slash ∈ utf8 s ↔ '/' ∈ s.toList :=
  Utf8.mem_utf8 (c := '/') (by decide) s

theorem slash_mem_joinPieces (h : ∀ n ∈ ns, IsName n) : slash ∈ joinPieces ns ↔ 1 < ns.length := by
  match ns with
  | [] => simp [joinPieces]
  | [n] => simpa [joinPieces] using (h n mem_cons_self).noSlash
  | n :: m :: ns => simp [joinPieces, intercalate_cons_cons]

/-- A slash is lost only where nothing is climbed and at most one name is written. -/
theorem slash_mem_climbText {text : String} (hrest : ∀ n ∈ rest, IsName n)
    (htext : joinPieces rest = utf8 text) (k : Nat) :
    slash ∈ utf8 (climbText k ++ text) ↔ 0 < k ∨ 1 < rest.length := by
  cases k with
  | zero => simp [climbText_zero, ← htext, slash_mem_joinPieces hrest]
  | succ k => simp [utf8_climbText_succ]

/-! ## The directory above -/

/-- A path that lies directly below another has one more name. -/
theorem exists_concat_of_parent? {ms : List Bytes} (hns : ∀ n ∈ ns, IsName n)
    (hms : ∀ n ∈ ms, IsName n) (hparent : (ofNames ms).parent? = some (ofNames ns)) :
    ∃ n, ms = ns ++ [n] := by
  induction ms using reverseRecOn with
  | nil => cases hparent
  | append_singleton ms n _ =>
    rw [parent?_ofNames_concat hms, Option.some.injEq] at hparent
    have hfront : ∀ m ∈ ms, IsName m := fun m hm => hms m (mem_append_left _ hm)
    exact ⟨n, by rw [ofNames_injective hfront hns hparent]⟩

/-- What lies below the first of two paths leaves nothing of it beyond the common beginning. -/
theorem beyond_of_append {common up rest r : List Bytes}
    (h : Diff.Beginning (common ++ up) (common ++ rest) common)
    (hbelow : common ++ rest = common ++ up ++ r) : up = [] ∧ rest = r := by
  have hlength := (h.longest (common ++ up) (prefix_refl _) ⟨r, hbelow.symm⟩).length_le
  have hup : up = [] := length_eq_zero_iff.mp (by simpa using hlength)
  rw [hup, append_nil] at hbelow
  exact ⟨hup, append_cancel_left hbelow⟩

theorem fileName?_ofNames_concat {n : Bytes} (h : ∀ m ∈ ns ++ [n], IsName m) :
    (ofNames (ns ++ [n])).fileName? = some n := by
  rw [fileName?, getLast?_components_ofNames h]

end Path

namespace Invocation

open Judge.Path

variable {ns ms common up rest : List Bytes} {cwd runDir : Path} {inherited : Vars}
  {options : Options} {m : Metadata} {case : TestCase} {v : Invocation}

/-! ## The first word -/

/-- The run command of a test, with the path of its input and its name filled in. -/
def commandText (options : Options) (case : TestCase) (inputSeen : String) : String :=
  replaceToken (replaceToken options.runCmd options.inputFilename inputSeen) testNameToken
    (options.testsDir.display ++ "/" ++ case.name)

/-- **The first word of the run command** of a test is `w`. -/
def FirstWord (cwd : Path) (options : Options) (case : TestCase) (runDir : Path) (w : String) :
    Prop :=
  ∃ inputSeen others, seenFrom cwd runDir case.input = .ok inputSeen ∧
    splitWords (commandText options case inputSeen) = .ok (w :: others)

/-- The words of a command line begin with what the first word of the run command becomes. -/
theorem expandWords_cons {problemDir : Path} {w : String} {others params words : List String}
    (h : expandWords cwd runDir problemDir (w :: others) params = .ok words) :
    ∃ front back, expandWord cwd runDir problemDir (params.map expandEscapes) w = .ok front ∧
      words = front ++ back := by
  unfold expandWords at h
  obtain ⟨parts, hparts, h⟩ := ok_of_bind h
  rw [mapM_cons] at hparts
  obtain ⟨front, hfront, hparts⟩ := ok_of_bind hparts
  obtain ⟨more, -, hparts⟩ := ok_of_bind hparts
  cases hparts
  cases h
  exact ⟨front, _, hfront, by rw [flatten_cons, append_assoc]⟩

theorem expandWord_dotted {problemDir : Path} {w : String} {params words : List String}
    (hdot : "./".toList <+: w.toList) (h : expandWord cwd runDir problemDir params w = .ok words) :
    ∃ seen, seenFrom cwd runDir (problemDir.join (.ofString w)) = .ok seen ∧ words = [seen] := by
  rw [expandWord, if_pos (List.isPrefixOf_iff_prefix.mpr hdot)] at h
  obtain ⟨seen, hseen, rfl⟩ := ok_of_map h
  exact ⟨seen, hseen, rfl⟩

theorem relative_of_seenFrom {target : Path} {seen : String}
    (h : seenFrom cwd runDir target = .ok seen) :
    runDir.relative (absolute cwd target) = .ok seen := by
  unfold seenFrom at h
  split at h
  · rename_i text hrelative
    rw [hrelative]
    exact congrArg _ (Except.ok.inj h)
  · cases h

/-- **The program comes from the first word**, as it is seen from the run directory. -/
theorem executable_of_firstWord {w : String} (h : build cwd inherited options m case runDir = .ok v)
    (huser : options.user = none) (hword : FirstWord cwd options case runDir w)
    (hdot : "./".toList <+: w.toList) :
    ∃ seen, runDir.relative (absolute cwd (options.problemDir.join (.ofString w))) = .ok seen ∧
      v.executable = resolveExecutable runDir seen := by
  obtain ⟨inputSeen, others, hinput, hsplit⟩ := hword
  obtain ⟨own, argv, hown, -, rfl⟩ := build_eq_ok h
  obtain ⟨inputSeen', hinput', hown⟩ := ok_of_bind hown
  obtain rfl := Except.ok.inj (hinput.symm.trans hinput')
  obtain ⟨cmdWords, hsplit', hown⟩ := ok_of_bind hown
  obtain rfl := Except.ok.inj (hsplit.symm.trans hsplit')
  obtain ⟨paramWords, -, hwords⟩ := ok_of_bind hown
  obtain ⟨front, back, hfront, rfl⟩ := expandWords_cons hwords
  obtain ⟨seen, hseen, rfl⟩ := expandWord_dotted hdot hfront
  refine ⟨seen, ?_, ?_⟩
  · rw [← absolute_join_absolute]
    exact relative_of_seenFrom hseen
  · rw [huser]
    rfl

/-! ## The program behind it -/

theorem resolveExecutable_of_slash {runDir : Path} {seen : String} (h : slash ∈ utf8 seen)
    (hrelative : (ofString seen).isAbsolute = false) :
    resolveExecutable runDir seen = runDir.join (ofString seen) := by
  have hmem : '/' ∈ seen.toList := (slash_mem_utf8 seen).mp h
  rw [resolveExecutable]
  simp only [hrelative, contains_iff_mem.mpr hmem, Bool.not_false, Bool.and_self, if_true]

theorem resolveExecutable_of_no_slash {runDir : Path} {seen : String} (h : slash ∉ utf8 seen) :
    resolveExecutable runDir seen = ofString seen := by
  have hmem : ¬ seen.toList.contains '/' = true := fun hcontains =>
    h ((slash_mem_utf8 seen).mpr (contains_iff_mem.mp hcontains))
  rw [resolveExecutable]
  simp only [Bool.eq_false_iff.mpr hmem, Bool.false_and, if_neg Bool.false_ne_true]

/-- **Where the slash is kept the program is found**, and where it is lost a bare name is left. -/
theorem resolveExecutable_climbText {text : String} (hbase : ∀ n ∈ common ++ up, IsName n)
    (hrest : ∀ n ∈ rest, IsName n) (htext : joinPieces rest = utf8 text) :
    (0 < up.length ∨ 1 < rest.length) ∧
        (resolveExecutable (ofNames (common ++ up)) (climbText up.length ++ text)).LeadsTo
          (ofNames (common ++ rest)) ∨
      up = [] ∧ rest.length ≤ 1 ∧
        resolveExecutable (ofNames (common ++ up)) (climbText up.length ++ text)
          = ⟨joinPieces rest⟩ := by
  have hslash := slash_mem_climbText hrest htext up.length
  by_cases hkept : 0 < up.length ∨ 1 < rest.length
  · refine .inl ⟨hkept, ?_⟩
    rw [resolveExecutable_of_slash (hslash.mpr hkept) (isAbsolute_climbText hrest htext _)]
    refine ⟨?_, ?_⟩
    · rw [join, isAbsolute_climbText hrest htext, if_neg Bool.false_ne_true]
      split
      · exact mem_append_left _ mem_cons_self
      · exact mem_append_left _ mem_cons_self
    · rw [Path.normalize, names_join_climbText hbase hrest htext]
  · rw [not_or, Nat.not_lt, Nat.not_lt, Nat.le_zero, length_eq_zero_iff] at hkept
    obtain ⟨rfl, hone⟩ := hkept
    refine .inr ⟨rfl, hone, ?_⟩
    rw [resolveExecutable_of_no_slash (by rw [hslash]; simp [hone]), length_nil,
      climbText_zero, ofString, htext]

/-- **The program of a command with a leading `./`.**  Where the first word of the run command
begins with `./` and no other user is asked for, the program that is started is the one that the word
names in the problem directory, unless that lies directly in the run directory or is this directory.
Then a bare name is started in its place, the file name of the program or nothing at all. -/
theorem dotted_program_is_run {w : String} {target : Path}
    (h : build cwd inherited options m case runDir = .ok v)
    (hrun : runDir = absolute cwd (options.problemDir.child Sandbox.runDirName))
    (huser : options.user = none) (hword : FirstWord cwd options case runDir w)
    (hdot : "./".toList <+: w.toList)
    (htarget : target = absolute cwd (options.problemDir.join (.ofString w)))
    (hvalid : (Utf8.text? target.text).isSome) :
    (v.executable.LeadsTo target ↔ target ≠ runDir ∧ target.parent? ≠ some runDir) ∧
    (target = runDir → v.executable = ⟨[]⟩) ∧
    (target.parent? = some runDir → v.executable = ⟨target.fileName?.getD []⟩) := by
  obtain ⟨seen, hseen, hexecutable⟩ := executable_of_firstWord h huser hword hdot
  rw [← htarget] at hseen
  -- both paths are written through names
  obtain ⟨ns, hns, rfl⟩ : ∃ ns, (∀ n ∈ ns, IsName n) ∧ runDir = ofNames ns :=
    ⟨_, isName_of_mem_names, hrun⟩
  obtain ⟨ms, hms, rfl⟩ : ∃ ms, (∀ n ∈ ms, IsName n) ∧ target = ofNames ms :=
    ⟨_, isName_of_mem_names, htarget⟩
  obtain ⟨common, up, rest, text, rfl, rfl, hlongest, htext, hrelative⟩ :=
    exists_relative hns hms hvalid
  obtain rfl := Except.ok.inj (hseen.symm.trans hrelative)
  have hrest : ∀ n ∈ rest, IsName n := fun n hn => hms n (List.mem_append_right _ hn)
  have hsame : ofNames (common ++ rest) = ofNames (common ++ up) → up = [] ∧ rest = [] := fun heq =>
    beyond_of_append hlongest (by rw [ofNames_injective hms hns heq, List.append_nil])
  have hchild : (ofNames (common ++ rest)).parent? = some (ofNames (common ++ up)) →
      up = [] ∧ ∃ n, rest = [n] := by
    intro hparent
    obtain ⟨n, hn⟩ := exists_concat_of_parent? hns hms hparent
    obtain ⟨hup, hone⟩ := beyond_of_append hlongest hn
    exact ⟨hup, n, hone⟩
  rw [hexecutable]
  rcases resolveExecutable_climbText hns hrest htext with ⟨hkept, hleads⟩ | ⟨rfl, hone, hbare⟩
  · have hother : ofNames (common ++ rest) ≠ ofNames (common ++ up) := by
      intro heq
      obtain ⟨rfl, rfl⟩ := hsame heq
      simp at hkept
    have hdeeper : (ofNames (common ++ rest)).parent? ≠ some (ofNames (common ++ up)) := by
      intro hparent
      obtain ⟨rfl, n, rfl⟩ := hchild hparent
      simp at hkept
    exact ⟨iff_of_true hleads ⟨hother, hdeeper⟩, fun heq => absurd heq hother,
      fun hparent => absurd hparent hdeeper⟩
  · rw [List.append_nil] at hsame hchild hbare ⊢
    rw [hbare]
    have hlost : ¬ LeadsTo ⟨joinPieces rest⟩ (ofNames (common ++ rest)) := fun hleads =>
      absurd ((slash_mem_joinPieces hrest).mp hleads.1) (Nat.not_lt.mpr hone)
    obtain rfl | ⟨n, rfl⟩ : rest = [] ∨ ∃ n, rest = [n] :=
      (Nat.le_one_iff_eq_zero_or_eq_one.mp hone).imp List.length_eq_zero_iff.mp
        List.length_eq_one_iff.mp
    · rw [List.append_nil] at hlost hchild ⊢
      refine ⟨iff_of_false hlost fun hnot => hnot.1 rfl, fun _ => rfl, fun hparent => ?_⟩
      obtain ⟨-, n, hn⟩ := hchild hparent
      cases hn
    · have hparent := parent?_ofNames_concat hms
      have hname : joinPieces [n] = n := List.intercalate_singleton
      refine ⟨iff_of_false hlost fun hnot => hnot.2 hparent, fun heq => ?_, fun _ => ?_⟩
      · cases (hsame heq).2
      · rw [fileName?_ofNames_concat hms, hname]
        rfl

/-! A program below the problem directory, and one that is brought into the run directory. -/

/-- The options of a run with the given command. -/
def dottedOptions (runCmd : String) : Options where
  problemDir := .ofString "/p"
  runCmd := runCmd

/-- How such a command is started. -/
def dottedStart (runCmd : String) : Except JudgeError Invocation :=
  build (.ofString "/") .empty (dottedOptions runCmd) {} awkwardCase (.ofString "/p/run")

theorem roundabout_program_is_run :
    ∃ v, dottedStart "./bin/../solution -v" = .ok v ∧
      v.executable = ofString "/p/run/../solution" ∧
      v.executable.LeadsTo (ofString "/p/solution") := by
  have hstart : (dottedStart "./bin/../solution -v").toOption.map (·.executable)
      = some (ofString "/p/run/../solution") := by decide +kernel
  cases hv : dottedStart "./bin/../solution -v" with
  | error e =>
    rw [hv] at hstart
    cases hstart
  | ok v =>
    rw [hv] at hstart
    have hword : FirstWord (ofString "/") (dottedOptions "./bin/../solution -v") awkwardCase
        (ofString "/p/run") "./bin/../solution" :=
      ⟨"../tests/001.dat", ["-v"], by decide +kernel, by decide +kernel⟩
    have hrun : ofString "/p/run" =
        absolute (ofString "/") ((ofString "/p").child Sandbox.runDirName) := by decide +kernel
    have htarget : ofString "/p/solution" =
        absolute (ofString "/") ((ofString "/p").join (ofString "./bin/../solution")) := by
      decide +kernel
    have hprogram := dotted_program_is_run hv hrun rfl hword (by decide) htarget
      (by decide +kernel)
    exact ⟨v, rfl, Option.some.inj hstart, hprogram.1.mpr ⟨by decide +kernel, by decide +kernel⟩⟩

/-- A program in the run directory is written in the same way, and it is not what is started. -/
theorem program_in_run_directory_is_lost :
    ∃ v, dottedStart "./run/x" = .ok v ∧
      FirstWord (ofString "/") (dottedOptions "./run/x") awkwardCase (ofString "/p/run") "./run/x" ∧
      v.executable = ofString "x" ∧
      ¬ v.executable.LeadsTo (absolute (ofString "/")
        ((dottedOptions "./run/x").problemDir.join (ofString "./run/x"))) := by
  have hstart : (dottedStart "./run/x").toOption.map (·.executable) = some (ofString "x") := by
    decide +kernel
  cases hv : dottedStart "./run/x" with
  | error e =>
    rw [hv] at hstart
    cases hstart
  | ok v =>
    rw [hv] at hstart
    have hbare : v.executable = ofString "x" := Option.some.inj hstart
    refine ⟨v, rfl, ⟨"../tests/001.dat", [], by decide +kernel, by decide +kernel⟩, hbare, ?_⟩
    rintro ⟨hslash, -⟩
    rw [hbare] at hslash
    exact absurd hslash (by decide +kernel)

end Invocation

end Judge
