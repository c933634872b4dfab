import Judge.Path.Basic
import Judge.Proofs.Cuts
import Mathlib.Logic.Relation

/-!
# Proofs/PathNames — the names that a path leads through

A path means the names that are left once `.` and `..` are resolved.  Two facts carry everything
else.  A path that is written through names has these names as its components, after the root
(`components_ofNames`).  And joining two paths is going on from where the first one leads
(`resolveFrom_join`), whatever separators and dots either of them has.  So a path may be normalized
before another is joined to it, and its normal form is what cancelling its `..` leaves of it
(`normalize_join_of_absolute`).
-/

namespace Judge.Path

open List

variable {n : Bytes} {ns start : List Bytes}

/-! ## Names -/

/-- **A name** of an entry of a directory: a piece that counts and does not lead up. -/
structure IsName (n : Bytes) : Prop where
  counts : isTrivial n = false
  notUp : n ≠ [dot, dot]
  noSlash : slash ∉ n

theorem IsName.ne_nil (h : IsName n) : n ≠ [] := by
  rintro rfl
  cases h.counts

theorem component?_of_isName (h : IsName n) : component? n = some (.name n) := by
  rw [component?, h.counts, if_neg Bool.false_ne_true, if_neg h.notUp]

theorem isName_of_component? {piece : Bytes} (hslash : slash ∉ piece)
    (h : component? piece = some (.name n)) : IsName n := by
  unfold component? at h
  split at h
  · cases h
  rename_i hcounts
  split at h
  · cases h
  rename_i hup
  cases h
  exact ⟨Bool.eq_false_iff.mpr hcounts, hup, hslash⟩

/-! ## Components as they are written

A separator at the very start makes an empty piece, and that does not count.  So the components
after the anchor can be read off the whole text. -/

/-- The components that a text writes between its separators. -/
def written (text : Bytes) : List Component := (splitWhere (· == slash) text).filterMap component?

@[simp] theorem written_nil : written [] = [] := rfl

theorem written_append_slash (t u : Bytes) :
    written (t ++ slash :: u) = written t ++ written u := by
  rw [written, splitWhere_append_cons_of_pos (p := (· == slash)) BEq.rfl, filterMap_append,
    written, written]

theorem written_cons_slash (u : Bytes) : written (slash :: u) = written u :=
  written_append_slash [] u

theorem filterMap_pieces (p : Path) : p.pieces.filterMap component? = written p.text := by
  unfold pieces
  split
  · rename_i habsolute
    obtain ⟨rest, hrest⟩ : ∃ rest, p.text = slash :: rest :=
      head?_eq_some_iff.mp (beq_iff_eq.mp habsolute)
    rw [hrest, written_cons_slash]
    rfl
  · rfl

theorem components_eq (p : Path) : p.components = p.anchor ++ written p.text := by
  rw [components, filterMap_pieces]

theorem isName_of_mem_components {p : Path} (h : .name n ∈ p.components) : IsName n := by
  rw [components_eq, mem_append] at h
  rcases h with hanchor | hwritten
  · unfold anchor at hanchor
    split at hanchor
    · simp at hanchor
    · split at hanchor <;> simp at hanchor
  · obtain ⟨piece, hpiece, hcomponent⟩ := mem_filterMap.mp hwritten
    exact isName_of_component? ((splitWhere_spec slash p.text).2 piece hpiece) hcomponent

/-! ## Where components lead -/

@[simp] theorem resolveFrom_nil (start : List Bytes) : resolveFrom start [] = start := rfl

@[simp] theorem resolveFrom_cons (start : List Bytes) (c : Component) (cs : List Component) :
    resolveFrom start (c :: cs) = resolveFrom (climb start c) cs := rfl

theorem resolveFrom_append (start : List Bytes) (cs ds : List Component) :
    resolveFrom start (cs ++ ds) = resolveFrom (resolveFrom start cs) ds := foldl_append

theorem resolveFrom_names (start ns : List Bytes) :
    resolveFrom start (ns.map .name) = start ++ ns := by
  induction ns generalizing start with
  | nil => simp
  | cons n ns ih => simp [climb, ih]

theorem isName_climb {c : Component} (hstart : ∀ n ∈ start, IsName n)
    (hc : ∀ n, c = .name n → IsName n) : ∀ n ∈ climb start c, IsName n := by
  cases c with
  | root => simp [climb]
  | here => exact hstart
  | up => exact fun n hn => hstart n (dropLast_subset _ hn)
  | name m =>
    intro n hn
    rcases mem_append.mp hn with hn | hn
    · exact hstart n hn
    · obtain rfl := mem_singleton.mp hn
      exact hc n rfl

theorem isName_resolveFrom {cs : List Component} (hstart : ∀ n ∈ start, IsName n)
    (hcs : ∀ n, .name n ∈ cs → IsName n) : ∀ n ∈ resolveFrom start cs, IsName n := by
  induction cs generalizing start with
  | nil => exact hstart
  | cons c cs ih =>
    refine ih (isName_climb hstart fun n hn => ?_) fun n hn => hcs n (mem_cons_of_mem _ hn)
    exact hcs n (hn ▸ mem_cons_self)

/-- **The names of a path are names.** -/
theorem isName_of_mem_names {p : Path} : ∀ n ∈ p.names, IsName n :=
  isName_resolveFrom (by simp) fun _ => isName_of_mem_components

/-! ## Joining -/

/-- The anchor matters only by whether it is the root. -/
theorem resolveFrom_components (start : List Bytes) (p : Path) :
    resolveFrom start p.components =
      resolveFrom (if p.isAbsolute then [] else start) (written p.text) := by
  rw [components_eq, anchor]
  split
  · rfl
  · split <;> rfl

/-- Joining puts the components of a relative path after those of another. -/
theorem written_join (p : Path) {q : Path} (hq : q.isAbsolute = false) :
    written (p.join q).text = written p.text ++ written q.text := by
  rw [join, hq, if_neg Bool.false_ne_true]
  split
  · rename_i hend
    rcases Bool.or_eq_true_iff.mp hend with hempty | hlast
    · rw [isEmpty_iff.mp hempty]
      rfl
    · obtain ⟨front, hfront⟩ := getLast?_eq_some_iff.mp (beq_iff_eq.mp hlast)
      rw [hfront, append_assoc, singleton_append, written_append_slash,
        written_append_slash, written_nil, append_nil]
  · exact written_append_slash p.text q.text

theorem isAbsolute_join {p q : Path} (hp : p.text ≠ []) (hq : q.isAbsolute = false) :
    (p.join q).isAbsolute = p.isAbsolute := by
  rw [join, hq, if_neg Bool.false_ne_true]
  split <;> simp [isAbsolute, head?_append_of_ne_nil _ hp]

/-- **Joining is going on** from where the first path leads. -/
theorem resolveFrom_join (start : List Bytes) (p q : Path) :
    resolveFrom start (p.join q).components =
      resolveFrom (resolveFrom start p.components) q.components := by
  by_cases hq : q.isAbsolute = true
  · have hjoin : p.join q = q := by rw [join, if_pos hq]
    rw [hjoin, resolveFrom_components, resolveFrom_components _ q, if_pos hq, if_pos hq]
  · have hrelative : q.isAbsolute = false := Bool.eq_false_iff.mpr hq
    by_cases hp : p.text = []
    · have hjoin : p.join q = q := by simp [join, hrelative, hp]
      have hcomponents : p.components = [] := by
        simp [components_eq, anchor, isAbsolute, startsHere, pieces, splitWhere, hp]
      rw [hjoin, hcomponents, resolveFrom_nil]
    · rw [resolveFrom_components, isAbsolute_join hp hrelative, written_join p hrelative,
        resolveFrom_append, ← resolveFrom_components, resolveFrom_components _ q, if_neg hq]

theorem names_join (p q : Path) : (p.join q).names = resolveFrom p.names q.components :=
  resolveFrom_join [] p q

/-! ## Paths written through names -/

theorem splitWhere_joinPieces (h : ∀ n ∈ ns, IsName n) (hne : ns ≠ []) :
    splitWhere (· == slash) (joinPieces ns) = ns :=
  splitWhere_intercalate hne fun n hn => (h n hn).noSlash

theorem written_joinPieces (h : ∀ n ∈ ns, slash ∉ n) :
    written (joinPieces ns) = ns.filterMap component? := by
  cases ns with
  | nil => rfl
  | cons n ns => rw [written, joinPieces, splitWhere_intercalate (cons_ne_nil n ns) h]

theorem written_joinPieces_names (h : ∀ n ∈ ns, IsName n) :
    written (joinPieces ns) = ns.map .name := by
  rw [written_joinPieces fun n hn => (h n hn).noSlash]
  exact filterMap_eq_map_iff_forall_eq_some.mpr fun m hm => component?_of_isName (h m hm)

@[simp] theorem isAbsolute_ofNames (ns : List Bytes) : (ofNames ns).isAbsolute = true := rfl

/-- **A path written through names has these components**, after the root. -/
theorem components_ofNames (h : ∀ n ∈ ns, IsName n) :
    (ofNames ns).components = .root :: ns.map .name := by
  rw [components_eq, anchor, isAbsolute_ofNames, if_pos rfl, ofNames, written_cons_slash,
    written_joinPieces_names h]
  rfl

theorem names_ofNames (h : ∀ n ∈ ns, IsName n) : (ofNames ns).names = ns := by
  rw [names, components_ofNames h, resolveFrom_cons, resolveFrom_names]
  rfl

theorem ofNames_injective {ms : List Bytes} (hns : ∀ n ∈ ns, IsName n) (hms : ∀ n ∈ ms, IsName n)
    (h : ofNames ns = ofNames ms) : ns = ms := by
  rw [← names_ofNames hns, h, names_ofNames hms]

/-! ## Normal forms -/

theorem resolveFrom_normalize (start : List Bytes) (p : Path) :
    resolveFrom start p.normalize.components = p.names := by
  rw [normalize, components_ofNames isName_of_mem_names, resolveFrom_cons, resolveFrom_names]
  rfl

/-- The directory of a joined path may be made absolute first. -/
theorem absolute_join_absolute (cwd p q : Path) :
    absolute cwd ((absolute cwd p).join q) = absolute cwd (p.join q) := by
  have hnames : (cwd.join ((absolute cwd p).join q)).names = (cwd.join (p.join q)).names := by
    rw [names_join, resolveFrom_join, absolute, resolveFrom_normalize, names_join, names_join,
      resolveFrom_join]
  exact congrArg ofNames hnames

/-- **One `..` is cancelled**: with the name in front of it, or at the root, where it leads nowhere. -/
inductive Cancels : List Component → List Component → Prop
  | named (cs ds : List Component) (n : Bytes) : Cancels (cs ++ .name n :: .up :: ds) (cs ++ ds)
  | atRoot (ds : List Component) : Cancels (.root :: .up :: ds) (.root :: ds)

/-- A text writes no root and no `.`. -/
theorem up_or_name_of_mem_written {text : Bytes} {c : Component} (h : c ∈ written text) :
    c = .up ∨ ∃ n, c = .name n := by
  obtain ⟨piece, -, hpiece⟩ := mem_filterMap.mp h
  unfold component? at hpiece
  split at hpiece
  · cases hpiece
  · split at hpiece <;> cases hpiece <;> simp

/-- Climbing through components cancels every `..` among them.  Those that are behind already are
the names `start`. -/
theorem cancels_resolveFrom {cs : List Component} (hcs : ∀ c ∈ cs, c = .up ∨ ∃ n, c = .name n)
    (start : List Bytes) : Relation.ReflTransGen Cancels (.root :: (start.map .name ++ cs))
      (.root :: (resolveFrom start cs).map .name) := by
  induction cs generalizing start with
  | nil => simp [Relation.ReflTransGen.refl]
  | cons c cs ih =>
    have hrest := ih (fun d hd => hcs d (mem_cons_of_mem c hd)) (climb start c)
    rcases hcs c mem_cons_self with rfl | ⟨n, rfl⟩
    · refine hrest.head ?_
      rcases start.eq_nil_or_concat with rfl | ⟨front, n, rfl⟩
      · exact .atRoot cs
      · simpa [climb] using Cancels.named (.root :: front.map .name) cs n
    · simpa [climb] using hrest

theorem cancels_normalize {p : Path} (hp : p.isAbsolute = true) :
    Relation.ReflTransGen Cancels p.components p.normalize.components := by
  have hnames : p.names = resolveFrom [] (written p.text) := by
    rw [names, resolveFrom_components, if_pos hp]
  rw [components_eq, anchor, if_pos hp, normalize, components_ofNames isName_of_mem_names, hnames]
  exact cancels_resolveFrom (fun _ => up_or_name_of_mem_written) []

/-- **An absolute path may be normalized before another is joined to it.**  Its normal form is what
cancelling every `..` leaves of it.  An absolute path is normal, wherever it is seen from, and `..`
does not lead out of the root. -/
theorem normalize_join_of_absolute (cwd cwd' p q : Path) (hp : p.isAbsolute = true) :
    normalize (p.join q) = normalize (p.normalize.join q) ∧
      Relation.ReflTransGen Cancels p.components p.normalize.components ∧
      (p.normalize = ofNames [] → normalize (p.child "..") = ofNames []) ∧
      (absolute cwd q).isAbsolute = true ∧
      (∀ c ∈ (absolute cwd q).components, c ≠ .here ∧ c ≠ .up) ∧
      absolute cwd' (absolute cwd q) = absolute cwd q := by
  have hjoin (r : Path) : normalize (p.join r) = normalize (p.normalize.join r) := by
    refine congrArg ofNames ?_
    rw [names_join, names_join, ← resolveFrom_normalize [] p, names]
  refine ⟨hjoin q, cancels_normalize hp, fun hroot => ?_, rfl, fun c hc => ?_, ?_⟩
  · rw [child, hjoin, hroot]
    decide
  · rw [absolute, normalize, components_ofNames isName_of_mem_names] at hc
    rcases List.mem_cons.mp hc with rfl | hname
    · simp
    · obtain ⟨n, -, rfl⟩ := List.mem_map.mp hname
      simp
  · refine congrArg ofNames ?_
    rw [names_join, absolute, resolveFrom_normalize]

/-- A path that climbs above the root, and one joined to it that climbs further. -/
theorem normalize_join_above_root : normalize ((ofString "/a/./../..//b").join (ofString "../c")) =
    normalize ((ofString "/a/./../..//b").normalize.join (ofString "../c")) :=
  (normalize_join_of_absolute (ofString "/") (ofString "/") (ofString "/a/./../..//b")
    (ofString "../c") (by decide)).1

end Judge.Path
