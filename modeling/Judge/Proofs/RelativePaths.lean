import Judge.Path.Relative
import Judge.Proofs.Basic
import Judge.Proofs.PathNames
import Judge.Proofs.ShortestScripts

/-!
# Proofs/RelativePaths — a relative path leads back to its target

From a directory one climbs while the target does not lie below, so one stops at the longest common
beginning of the two lists of names (`climbTo_ofNames`).  What is written then, `../` for each step
up and the rest of the names, resolves to the target (`names_join_climbText`), and it begins with no
more `../` than that, because no name is `..`.
-/

namespace Judge.Path

open List

variable {ns common up rest : List Bytes}

/-! ## Above and below -/

theorem trimPieces_of_names (h : ∀ n ∈ ns, IsName n) : trimPieces ns = ns := by
  have hlast : ns.reverse.dropWhile isTrivial = ns.reverse := by
    refine dropWhile_of_head fun n hn => (h n ?_).counts
    exact mem_reverse.mp (mem_of_mem_head? hn)
  rw [trimPieces, trimRightWhere, hlast, reverse_reverse]

theorem pieces_ofNames (h : ∀ n ∈ ns, IsName n) (hne : ns ≠ []) : (ofNames ns).pieces = ns :=
  splitWhere_joinPieces h hne

theorem getLast?_components_ofNames {n : Bytes} (h : ∀ m ∈ ns ++ [n], IsName m) :
    (ofNames (ns ++ [n])).components.getLast? = some (.name n) := by
  rw [components_ofNames h, map_append, map_singleton, ← cons_append,
    getLast?_concat]

/-- **The directory above** is reached by leaving out the last name. -/
theorem parent?_ofNames_concat {n : Bytes} (h : ∀ m ∈ ns ++ [n], IsName m) :
    (ofNames (ns ++ [n])).parent? = some (ofNames ns) := by
  have hns : ∀ m ∈ ns, IsName m := fun m hm => h m (mem_append_left _ hm)
  have hdrop : dropLastPiece (ofNames (ns ++ [n])).pieces = ns := by
    rw [dropLastPiece, pieces_ofNames h (by simp), trimPieces_of_names h, dropLast_concat,
      trimPieces_of_names hns]
  rw [parent?, getLast?_components_ofNames h]
  simp only [isAbsolute_ofNames, if_true, hdrop]
  rfl

theorem dropCounted_append (h : ∀ n ∈ common, IsName n) (rest : List Bytes) :
    dropCounted common.length (common ++ rest) = rest := by
  induction common with
  | nil => simp [dropCounted]
  | cons n common ih =>
    obtain ⟨hn, hcommon⟩ := forall_mem_cons.mp h
    rw [length_cons, cons_append, dropCounted, hn.counts, if_neg Bool.false_ne_true,
      ih hcommon]

/-- **What lies below a directory** is written with the names after those of the directory. -/
theorem below?_ofNames_append (h : ∀ n ∈ common ++ rest, IsName n) :
    below? (ofNames common) (ofNames (common ++ rest)) = some ⟨joinPieces rest⟩ := by
  obtain ⟨hcommon, hrest⟩ := forall_mem_append.mp h
  have hcomponents := components_ofNames hcommon
  have hbegins : (ofNames common).components.isPrefixOf (ofNames (common ++ rest)).components
      = true := by
    rw [hcomponents, components_ofNames h, map_append, ← cons_append]
    exact isPrefixOf_iff_prefix.mpr (prefix_append _ _)
  have hafter : (ofNames (common ++ rest)).afterComponents (ofNames common).components.length
      = ⟨joinPieces rest⟩ := by
    have hanchor : (ofNames (common ++ rest)).anchor = [.root] := rfl
    have hhere : (ofNames (common ++ rest)).startsHere = false := rfl
    have hcounted : (ofNames common).components.length - [Component.root].length
        = common.length := by simp [hcomponents]
    rw [afterComponents, hanchor, hhere, hcounted, if_neg Bool.false_ne_true]
    by_cases hne : common ++ rest = []
    · obtain ⟨rfl, rfl⟩ := append_eq_nil_iff.mp hne
      rfl
    · have hhead : rest.dropWhile isTrivial = rest :=
        dropWhile_of_head fun n hn => (hrest n (mem_of_mem_head? hn)).counts
      rw [pieces_ofNames h hne, dropCounted_append hcommon, hhead, trimPieces_of_names hrest]
  have hroot : (ofNames common).components.isEmpty = false := by rw [hcomponents]; rfl
  rw [below?]
  simp only [hbegins, if_true, hroot, if_neg Bool.false_ne_true, hafter]

theorem name_injective : Function.Injective Component.name := fun _ _ h => Component.name.inj h

theorem below?_ofNames_eq_none {ms : List Bytes} (hns : ∀ n ∈ ns, IsName n)
    (hms : ∀ n ∈ ms, IsName n) (h : ¬ ns <+: ms) : below? (ofNames ns) (ofNames ms) = none := by
  have hbegins : ¬ (ofNames ns).components.isPrefixOf (ofNames ms).components = true := by
    rw [components_ofNames hns, components_ofNames hms, isPrefixOf_iff_prefix,
      cons_prefix_cons, prefix_map_iff_of_injective name_injective]
    exact fun hprefix => h hprefix.2
  rw [below?]
  simp only [if_neg hbegins]

/-! ## Climbing -/

/-- What is written for `k` steps up. -/
def climbText (k : Nat) : String := String.join (replicate k "../")

variable {text : String}

/-- **One climbs to the longest common beginning.** -/
theorem climbTo_ofNames {base : Path} {fuel parents : Nat} (hbase : ∀ n ∈ common ++ up, IsName n)
    (hpath : ∀ n ∈ common ++ rest, IsName n)
    (hlongest : Diff.Beginning (common ++ up) (common ++ rest) common)
    (htext : Utf8.text? (joinPieces rest) = some text) (hfuel : up.length < fuel) :
    climbTo base (ofNames (common ++ rest)) fuel parents (ofNames (common ++ up)) =
      .ok (climbText (parents + up.length) ++ text) := by
  -- the last name of the directory is left out as long as there is one beyond the common ones
  induction up using reverseRecOn generalizing fuel parents with
  | nil =>
    obtain ⟨fuel, rfl⟩ := Nat.exists_eq_succ_of_ne_zero (Nat.ne_of_gt hfuel)
    rw [append_nil, climbTo, below?_ofNames_append hpath]
    simp only [htext]
    rfl
  | append_singleton up n ih =>
    obtain ⟨fuel, rfl⟩ := Nat.exists_eq_succ_of_ne_zero (Nat.ne_of_gt (Nat.zero_lt_of_lt hfuel))
    rw [length_append, length_singleton, Nat.succ_lt_succ_iff] at hfuel
    rw [← append_assoc] at hbase hlongest ⊢
    have hbeyond : ¬ common ++ up ++ [n] <+: common ++ rest := by
      intro hprefix
      have hlength := (hlongest.longest _ (prefix_refl _) hprefix).length_le
      simp only [length_append, length_singleton] at hlength
      omega
    have hshorter : Diff.Beginning (common ++ up) (common ++ rest) common :=
      ⟨prefix_append _ _, hlongest.new, fun p hp =>
        hlongest.longest p (hp.trans (prefix_append _ _))⟩
    have hup : ∀ m ∈ common ++ up, IsName m := fun m hm => hbase m (mem_append_left _ hm)
    rw [climbTo, below?_ofNames_eq_none hbase hpath hbeyond, parent?_ofNames_concat hbase]
    simp only
    rw [ih hup hshorter hfuel, length_append, length_singleton, Nat.add_right_comm,
      Nat.add_assoc]

theorem relative_ofNames (hbase : ∀ n ∈ common ++ up, IsName n)
    (hpath : ∀ n ∈ common ++ rest, IsName n)
    (hlongest : Diff.Beginning (common ++ up) (common ++ rest) common)
    (htext : Utf8.text? (joinPieces rest) = some text) :
    relative (ofNames (common ++ up)) (ofNames (common ++ rest)) =
      .ok (climbText up.length ++ text) := by
  have hfuel : up.length < (ofNames (common ++ up)).components.length + 1 := by
    simp only [components_ofNames hbase, length_cons, length_map, length_append]
    omega
  rw [relative, climbTo_ofNames hbase hpath hlongest htext hfuel, Nat.zero_add]

/-! ## Descending again -/

theorem utf8_climbText_succ (k : Nat) (text : String) :
    utf8 (climbText (k + 1) ++ text) = [dot, dot] ++ slash :: utf8 (climbText k ++ text) := by
  rw [climbText, replicate_succ, String.join_cons, String.append_assoc, utf8,
    String.toList_append, Utf8.encode_append]
  rfl

theorem climbText_zero (text : String) : climbText 0 ++ text = text := by
  simp [climbText]

theorem written_climbText (k : Nat) (text : String) :
    written (utf8 (climbText k ++ text)) = replicate k .up ++ written (utf8 text) := by
  induction k with
  | zero => rw [climbText_zero, replicate_zero, nil_append]
  | succ k ih =>
    rw [utf8_climbText_succ, written_append_slash, ih, replicate_succ]
    rfl

theorem resolveFrom_replicate_up (common up : List Bytes) :
    resolveFrom (common ++ up) (replicate up.length .up) = common := by
  induction up using reverseRecOn with
  | nil => simp
  | append_singleton up n ih =>
    rw [length_append, length_singleton, replicate_succ, resolveFrom_cons, climb,
      ← append_assoc, dropLast_concat, ih]

theorem head?_joinPieces (h : ∀ n ∈ ns, IsName n) : (joinPieces ns).head? ≠ some slash := by
  intro hhead
  obtain ⟨more, hmore⟩ := head?_eq_some_iff.mp hhead
  cases ns with
  | nil => cases hmore
  | cons n ns =>
    -- a separator at the start would cut off an empty piece
    have hsplit := splitWhere_joinPieces h (cons_ne_nil n ns)
    rw [hmore, splitWhere_cons (p := (· == slash)) BEq.rfl] at hsplit
    exact (h n mem_cons_self).ne_nil (cons.inj hsplit).1.symm

/-- What is written for a way up and down again starts at no root. -/
theorem isAbsolute_climbText (hrest : ∀ n ∈ rest, IsName n) (htext : joinPieces rest = utf8 text)
    (k : Nat) : (ofString (climbText k ++ text)).isAbsolute = false := by
  cases k with
  | zero =>
    rw [climbText_zero, ofString, ← htext]
    exact beq_eq_false_iff_ne.mpr (head?_joinPieces hrest)
  | succ k =>
    rw [ofString, utf8_climbText_succ]
    rfl

/-- **Climbing and going down again leads to the target.** -/
theorem names_join_climbText (hbase : ∀ n ∈ common ++ up, IsName n) (hrest : ∀ n ∈ rest, IsName n)
    (htext : joinPieces rest = utf8 text) :
    ((ofNames (common ++ up)).join (ofString (climbText up.length ++ text))).names
      = common ++ rest := by
  rw [names_join, names_ofNames hbase, resolveFrom_components,
    isAbsolute_climbText hrest htext, if_neg Bool.false_ne_true, ofString, written_climbText,
    ← htext, written_joinPieces_names hrest, resolveFrom_append, resolveFrom_replicate_up,
    resolveFrom_names]

/-- No step up is written among the names. -/
theorem not_up_isPrefix (hrest : ∀ n ∈ rest, IsName n) (htext : joinPieces rest = utf8 text) :
    ¬ "../".toList <+: text.toList := by
  rintro ⟨more, hmore⟩
  have hutf8 : utf8 text = [dot, dot] ++ slash :: Utf8.encode more := by
    rw [utf8, ← hmore, Utf8.encode_append]
    rfl
  have hwritten := written_joinPieces_names hrest
  rw [htext, hutf8, written_append_slash] at hwritten
  have hup : Component.up ∈ rest.map Component.name := hwritten ▸ mem_cons_self
  simp at hup

/-! ## Valid text -/

theorem exists_utf8_of_mem {s : String} (h : (ofNames ns).text = utf8 s)
    (hns : ∀ n ∈ ns, IsName n) : ∀ n ∈ ns, ∃ t, n = utf8 t := by
  intro n hn
  have hsplit : splitWhere (· == slash) (ofNames ns).text = [] :: ns := by
    rw [ofNames, splitWhere_cons (p := (· == slash)) BEq.rfl,
      splitWhere_joinPieces hns (ne_nil_of_mem hn)]
  rw [h, utf8, Utf8.splitWhere_encode (by decide)] at hsplit
  obtain ⟨cs, -, hcs⟩ := mem_map.mp (hsplit ▸ mem_cons_of_mem [] hn)
  exact ⟨String.ofList cs, by rw [utf8, String.toList_ofList, hcs]⟩

theorem exists_utf8_joinPieces (h : ∀ n ∈ ns, ∃ t, n = utf8 t) : ∃ s, joinPieces ns = utf8 s := by
  induction ns with
  | nil => exact ⟨"", rfl⟩
  | cons n ns ih =>
    obtain ⟨⟨t, rfl⟩, hns⟩ := forall_mem_cons.mp h
    cases ns with
    | nil => exact ⟨t, intercalate_singleton⟩
    | cons m ns =>
      obtain ⟨s, hs⟩ := ih hns
      refine ⟨t ++ "/" ++ s, ?_⟩
      rw [joinPieces, intercalate_cons_cons]
      change utf8 t ++ [slash] ++ joinPieces (m :: ns) = _
      rw [hs, utf8, utf8, utf8, String.toList_append, String.toList_append, Utf8.encode_append,
        Utf8.encode_append]
      rfl

/-- What lies below a directory is text if the whole path is. -/
theorem exists_text?_joinPieces (hns : ∀ n ∈ common ++ rest, IsName n)
    (hvalid : (Utf8.text? (ofNames (common ++ rest)).text).isSome) :
    ∃ text, Utf8.text? (joinPieces rest) = some text ∧ joinPieces rest = utf8 text := by
  obtain ⟨s, hs⟩ := Option.isSome_iff_exists.mp hvalid
  have hnames := exists_utf8_of_mem (Utf8.text?_eq_some_iff.mp hs) hns
  obtain ⟨text, htext⟩ :=
    exists_utf8_joinPieces fun n hn => hnames n (mem_append_right common hn)
  exact ⟨text, Utf8.text?_eq_some_iff.mpr htext, htext⟩

/-! ## There and back -/

/-- The common names of two paths make up their common components. -/
theorem beginning_components {ms : List Bytes} (h : Diff.Beginning ns ms common)
    (hns : ∀ n ∈ ns, IsName n) (hms : ∀ n ∈ ms, IsName n) :
    Diff.Beginning (ofNames ns).components (ofNames ms).components (.root :: common.map .name) := by
  rw [components_ofNames hns, components_ofNames hms]
  refine ⟨cons_prefix_cons.mpr ⟨rfl, h.old.map _⟩,
    cons_prefix_cons.mpr ⟨rfl, h.new.map _⟩, fun shared hold hnew => ?_⟩
  cases shared with
  | nil => exact nil_prefix
  | cons c shared =>
    obtain ⟨rfl, htail⟩ := cons_prefix_cons.mp hold
    obtain ⟨names, hnames, rfl⟩ := prefix_map_iff.mp htail
    rw [cons_prefix_cons, prefix_map_iff_of_injective name_injective] at hnew
    exact cons_prefix_cons.mpr ⟨rfl, (h.longest names hnames hnew.2).map _⟩

/-- **The names of two paths**, with what they have in common in front, and how the second is seen
from the first. -/
theorem exists_relative {ms : List Bytes} (hns : ∀ n ∈ ns, IsName n) (hms : ∀ n ∈ ms, IsName n)
    (hvalid : (Utf8.text? (ofNames ms).text).isSome) :
    ∃ common up rest text, ns = common ++ up ∧ ms = common ++ rest ∧
      Diff.Beginning ns ms common ∧ joinPieces rest = utf8 text ∧
      relative (ofNames ns) (ofNames ms) = .ok (climbText up.length ++ text) := by
  have hlongest := Diff.beginning_take ns ms
  generalize ns.take (Diff.commonPrefix ns ms) = common at hlongest
  obtain ⟨up, rfl⟩ := hlongest.old
  obtain ⟨rest, rfl⟩ := hlongest.new
  obtain ⟨text, htext?, htext⟩ := exists_text?_joinPieces hms hvalid
  exact ⟨common, up, rest, text, rfl, rfl, hlongest, htext,
    relative_ofNames hns hms hlongest htext?⟩

/-- **A relative path leads back to its target.**  Between absolute paths without dots there is
always a relative one, if the target is text.  Joined to where it starts and normalised it is the
target, and it begins with `../` exactly once for each component that its start has beyond the
longest common beginning. -/
theorem relative_leads_back (cwd cwd' p q : Path)
    (hvalid : (Utf8.text? (absolute cwd' q).text).isSome) :
    ∃ text, relative (absolute cwd p) (absolute cwd' q) = .ok text ∧
      normalize ((absolute cwd p).join (ofString text)) = absolute cwd' q ∧
      ∃ common beyond rest,
        Diff.Beginning (absolute cwd p).components (absolute cwd' q).components common ∧
        (absolute cwd p).components = common ++ beyond ∧
        text = String.join (List.replicate beyond.length "../") ++ rest ∧
        ¬ "../".toList <+: rest.toList := by
  have hbase : ∀ n ∈ (cwd.join p).names, IsName n := isName_of_mem_names
  have hpath : ∀ n ∈ (cwd'.join q).names, IsName n := isName_of_mem_names
  obtain ⟨common, up, rest, text, hns, hms, hlongest, htext, hrelative⟩ :=
    exists_relative hbase hpath hvalid
  have hcomponents := beginning_components hlongest hbase hpath
  simp only [absolute, normalize]
  rw [hns] at hbase hcomponents hrelative ⊢
  rw [hms] at hpath hcomponents hrelative ⊢
  have hrest : ∀ n ∈ rest, IsName n := fun n hn => hpath n (List.mem_append_right _ hn)
  refine ⟨climbText up.length ++ text, hrelative, ?_, .root :: common.map .name, up.map .name, text,
    hcomponents, ?_, ?_, not_up_isPrefix hrest htext⟩
  · rw [names_join_climbText hbase hrest htext]
  · rw [components_ofNames hbase, List.map_append, List.cons_append]
  · rw [List.length_map, climbText]

/-- One name begins like another, and both paths are written in a roundabout way. -/
theorem short_name_leads_back :
    relative (absolute (ofString "/") (ofString "p//run/./x"))
        (absolute (ofString "/p") (ofString "run/../ru/é")) = .ok "../../ru/é" ∧
      normalize ((absolute (ofString "/") (ofString "p//run/./x")).join (ofString "../../ru/é"))
        = ofString "/p/ru/é" := by
  obtain ⟨text, hrelative, hback, -⟩ := relative_leads_back (ofString "/") (ofString "/p")
    (ofString "p//run/./x") (ofString "run/../ru/é") (by decide +kernel)
  have hseen : relative (absolute (ofString "/") (ofString "p//run/./x"))
      (absolute (ofString "/p") (ofString "run/../ru/é")) = .ok "../../ru/é" := by decide +kernel
  obtain rfl : text = "../../ru/é" := Except.ok.inj (hrelative.symm.trans hseen)
  exact ⟨hrelative, hback.trans (by decide +kernel)⟩

end Judge.Path
