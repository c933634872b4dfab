import Judge.Proofs.TreeEdits

/-!
# Proofs/Fixtures — a tree that is read while another one is written

A fixture is what can be reached from its path by names, through whatever links there are.  It is
`Apart` from a place if the paths into it do not come by there and the place is not in it.  Then
changes that are confined to such places leave everything in the fixture as it is: what its paths
find (`Confined.keeps`) and what its directories hold (`Confined.get?_fixture`).  A fixture without
links is apart from every place that is neither above it nor in it (`apart_of_plain`).
-/

namespace Judge.FileTree

open List
open Judge.Path (IsName)

variable {t s : FileTree} {cwd place d v : Place} {fixture p : Path} {n : Bytes}
  {rel more : List Bytes} {e : Entry}

/-! ## What a path shows -/

/-- What a path shows, with all links followed. -/
def seen (t : FileTree) (cwd : Place) (p : Path) : Option Entry := (t.find cwd p).toOption.map (·.2)

theorem seen_of_find (h : t.find cwd p = .ok (v, e)) : t.seen cwd p = some e := by
  rw [seen, h]
  rfl

theorem seen_eq_none (h : ∀ v e, t.find cwd p ≠ .ok (v, e)) : t.seen cwd p = none := by
  unfold seen
  cases hfind : t.find cwd p with
  | error f => rfl
  | ok found => exact absurd hfind (h found.1 found.2)

theorem seen_eq_some_iff : t.seen cwd p = some e ↔ ∃ v, t.find cwd p = .ok (v, e) := by
  constructor
  · intro h
    unfold seen at h
    cases hfind : t.find cwd p with
    | error f =>
      rw [hfind] at h
      cases h
    | ok found =>
      rw [hfind] at h
      cases h
      exact ⟨found.1, rfl⟩
  · rintro ⟨v, h⟩
    exact seen_of_find h

/-! ## Apart from a place -/

/-- **A fixture is apart from a place**: no path into the fixture comes by there, the place is in no
directory of the fixture, and no path into the fixture breaks off above it. -/
structure Apart (t : FileTree) (cwd : Place) (fixture : Path) (place : Place) : Prop where
  way : ∀ rel, (∀ n ∈ rel, IsName n) → ∀ v ∈ t.onWay cwd (fixture.under rel), ¬ place <+: v
  gap : ∀ rel, (∀ n ∈ rel, IsName n) → ∀ v ∈ t.onWay cwd (fixture.under rel),
    t.get? v = none → ¬ v <+: place
  tree : ∀ rel, (∀ n ∈ rel, IsName n) → ∀ d, t.find cwd (fixture.under rel) = .ok (d, .dir) →
    ¬ d <+: place

/-- The changes from one tree to another are confined to some places and what is below them, and to
missing directories above them. -/
def Confined (t t' : FileTree) (places : Place → Prop) : Prop :=
  ∀ v, t'.get? v = t.get? v ∨
    ∃ place, places place ∧ (place <+: v ∨ v <+: place ∧ t.get? v = none)

/-- Nothing has changed on the way into the fixture. -/
def Keeps (t s : FileTree) (cwd : Place) (fixture : Path) : Prop :=
  ∀ rel, (∀ n ∈ rel, IsName n) → ∀ v ∈ t.onWay cwd (fixture.under rel), s.get? v = t.get? v

theorem origin_under (hp : p.text ≠ []) (hrel : ∀ n ∈ rel, IsName n) :
    origin (p.under rel) cwd = origin p cwd := by
  rw [origin, origin, Path.isAbsolute_under hp hrel]

theorem mem_onWay (hfixture : fixture.text ≠ []) (hrel : ∀ n ∈ rel, IsName n) (hn : IsName n)
    (h : t.find cwd (fixture.under rel) = .ok (d, .dir)) :
    d ++ [n] ∈ t.onWay cwd (fixture.under (rel ++ [n])) := by
  obtain ⟨-, left, henters⟩ := find_dir_iff.mp h
  have hnames : ∀ m ∈ rel ++ [n], IsName m := by simpa [or_imp, forall_and] using ⟨hrel, hn⟩
  rw [origin_under hfixture hrel, Path.steps_under hfixture hrel] at henters
  rw [onWay, origin_under hfixture hnames, Path.steps_under hfixture hnames, ← append_assoc]
  exact henters.mem_visits (mem_visits_name hn.notHere hn.notUp)

theorem Confined.keeps {places : Place → Prop} (h : Confined t s places)
    (hapart : ∀ place, places place → Apart t cwd fixture place) : Keeps t s cwd fixture := by
  intro rel hrel v hv
  rcases h v with hsame | ⟨place, hplace, hbelow | ⟨habove, hnone⟩⟩
  · exact hsame
  · exact absurd hbelow ((hapart place hplace).way rel hrel v hv)
  · exact absurd habove ((hapart place hplace).gap rel hrel v hv hnone)

/-- **The directories of the fixture have what they had**, down to the links in them. -/
theorem Confined.get?_fixture {places : Place → Prop} (h : Confined t s places)
    (hapart : ∀ place, places place → Apart t cwd fixture place) (hfixture : fixture.text ≠ [])
    (hrel : ∀ n ∈ rel, IsName n) (hd : t.find cwd (fixture.under rel) = .ok (d, .dir))
    (more : List Bytes) : s.get? (d ++ more) = t.get? (d ++ more) := by
  rcases h (d ++ more) with hsame | ⟨place, hplace, hbelow | ⟨habove, -⟩⟩
  · exact hsame
  · -- the place would be above the directory or in it
    rcases prefix_or_prefix_of_prefix hbelow (prefix_append d more) with hup | hdown
    · have ha : IsName (utf8 "a") := ⟨rfl, by decide, by decide⟩
      exact absurd (hup.trans (prefix_append d [utf8 "a"])) <|
        (hapart place hplace).way _ (by simpa [or_imp, forall_and] using ⟨hrel, ha⟩) _
          (mem_onWay hfixture hrel ha hd)
    · exact absurd hdown ((hapart place hplace).tree rel hrel d hd)
  · exact absurd ((prefix_append d more).trans habove)
      ((hapart place hplace).tree rel hrel d hd)

theorem Keeps.find {last : LastLink} (h : Keeps t s cwd fixture) (hrel : ∀ n ∈ rel, IsName n)
    (hblind : ∀ slash, last.isBlind slash = false) :
    s.find cwd (fixture.under rel) last = t.find cwd (fixture.under rel) last :=
  find_congr hblind (h rel hrel)

theorem Keeps.get?_child (h : Keeps t s cwd fixture) (hfixture : fixture.text ≠ [])
    (hrel : ∀ n ∈ rel, IsName n) (hn : IsName n)
    (hd : t.find cwd (fixture.under rel) = .ok (d, .dir)) : s.get? (d ++ [n]) = t.get? (d ++ [n]) :=
  h _ (by simpa [or_imp, forall_and] using ⟨hrel, hn⟩) _ (mem_onWay hfixture hrel hn hd)

/-! ## Where nothing is seen -/

/-- What is found below stands in a directory that is found above. -/
theorem exists_dir_of_find (hfixture : IsPath (fixture.under rel)) (hne : fixture.text ≠ [])
    (hnames : ∀ m ∈ rel ++ n :: more, IsName m)
    (h : t.find cwd (fixture.under (rel ++ n :: more)) = .ok (v, e)) :
    ∃ d, t.find cwd (fixture.under rel) = .ok (d, .dir) ∧ t.get? (d ++ [n]) ≠ none := by
  have hrel : ∀ m ∈ rel, IsName m := fun m hm => hnames m (mem_append_left _ hm)
  have hn : IsName n := hnames n (by simp)
  have hsteps := Path.steps_under hne hnames
  rw [← append_assoc] at hsteps
  obtain ⟨left, d, henters, hget⟩ := exists_of_find isBlind_follow h hsteps hn.notHere hn.notUp
  rw [origin_under hne hnames, ← origin_under hne hrel, ← Path.steps_under hne hrel] at henters
  exact ⟨d, find_dir_iff.mpr ⟨hfixture, left, henters⟩, hget⟩

theorem isPath_of_find {last : LastLink} (h : t.find cwd p last = .ok (v, e)) : IsPath p := by
  rw [find_eq] at h
  obtain ⟨spot, hlocate, -⟩ := ok_of_bind h
  exact (locate_eq_ok.mp hlocate).1

/-- Below what is missing nothing is seen. -/
theorem seen_missing (hne : fixture.text ≠ []) (hnames : ∀ m ∈ rel ++ n :: more, IsName m)
    (hd : t.find cwd (fixture.under rel) = .ok (d, .dir)) (hnone : t.get? (d ++ [n]) = none) :
    t.seen cwd (fixture.under (rel ++ n :: more)) = none := by
  refine seen_eq_none fun v e h => ?_
  obtain ⟨d', hd', hget⟩ := exists_dir_of_find (isPath_of_find hd) hne hnames h
  obtain ⟨rfl, -⟩ := Prod.mk.inj (Except.ok.inj (hd.symm.trans hd'))
  exact hget hnone

/-- Below what is no directory nothing is seen. -/
theorem seen_below (hne : fixture.text ≠ []) (hnames : ∀ m ∈ rel ++ n :: more, IsName m)
    (hfind : t.find cwd (fixture.under rel) = .ok (v, e)) (he : e ≠ .dir) :
    t.seen cwd (fixture.under (rel ++ n :: more)) = none := by
  refine seen_eq_none fun v' e' h => ?_
  obtain ⟨d, hd, -⟩ := exists_dir_of_find (isPath_of_find hfind) hne hnames h
  obtain ⟨-, rfl⟩ := Prod.mk.inj (Except.ok.inj (hfind.symm.trans hd))
  exact he rfl

/-! ## Without links -/

/-- Without links a walk looks at what is on its way down. -/
theorem isPrefix_of_mem_visits {k : Nat} {here : Place} {names : List Bytes}
    (hnames : ∀ n ∈ names, IsName n)
    (hlinks : ∀ r target, r <+: names → t.get? (here ++ r) ≠ some (.link target))
    (hv : v ∈ visits t k here names) : v <+: here ++ names := by
  induction names generalizing here with
  | nil =>
    rw [visits] at hv
    cases hv
  | cons n names ih =>
    obtain ⟨hn, hnames⟩ := forall_mem_cons.mp hnames
    rw [visits, if_neg hn.notHere, if_neg hn.notUp] at hv
    have hfirst := fun target => hlinks [n] target (prefix_append [n] names)
    rw [append_cons]
    rcases mem_cons.mp hv with rfl | hv
    · exact prefix_append _ _
    · split at hv
      · rename_i target hget
        exact absurd hget (hfirst target)
      · refine ih hnames (fun r target hr => ?_) hv
        rw [append_assoc, singleton_append]
        exact hlinks (n :: r) target (cons_prefix_cons.mpr ⟨rfl, hr⟩)
      · cases hv

theorem Enters.eq_append {k left : Nat} {here : Place} {names : List Bytes}
    (h : Enters t k here names left d) (hnames : ∀ n ∈ names, IsName n)
    (hlinks : ∀ r target, r <+: names → t.get? (here ++ r) ≠ some (.link target)) :
    d = here ++ names := by
  induction names generalizing here with
  | nil =>
    cases h
    exact (append_nil _).symm
  | cons n names ih =>
    obtain ⟨hn, hnames⟩ := forall_mem_cons.mp hnames
    cases h with
    | here => exact absurd rfl hn.notHere
    | up => exact absurd rfl hn.notUp
    | dir _ _ hrest =>
      rw [append_cons]
      refine ih hrest hnames fun r target hr => ?_
      rw [append_assoc, singleton_append]
      exact hlinks (n :: r) target (cons_prefix_cons.mpr ⟨rfl, hr⟩)
    | link _ hget => exact absurd hget (hlinks [n] _ (prefix_append [n] names))

/-- **A fixture without links is apart** from every place beside it. -/
theorem apart_of_plain {root : Place} (ht : WellFormed t) (hroot : t.get? root = some .dir)
    (hlinks : ∀ e ∈ t.entries, e.1 <+: root ∨ root <+: e.1 → FileKind.ofEntry e.2 ≠ .link)
    (habove : ¬ place <+: root) (hbelow : ¬ root <+: place) :
    Apart t cwd (.ofNames root) place := by
  have hne : (Path.ofNames root).text ≠ [] := cons_ne_nil _ _
  have hnames := ht.isName hroot
  have hsteps : ∀ rel, (∀ n ∈ rel, IsName n) → ((Path.ofNames root).under rel).steps = root ++ rel :=
    fun rel hrel => by rw [Path.steps_under hne hrel, Path.steps_ofNames hnames]
  have horigin : ∀ rel, (∀ n ∈ rel, IsName n) → origin ((Path.ofNames root).under rel) cwd = [] :=
    fun rel hrel => origin_under hne hrel
  have hnone : ∀ rel r target, r <+: root ++ rel → t.get? ([] ++ r) ≠ some (.link target) := by
    intro rel r target hr hlink
    have hr' : r ≠ [] := by
      rintro rfl
      cases hlink
    exact hlinks _ (mem_entries_of_get? hlink hr')
      (List.prefix_or_prefix_of_prefix hr (prefix_append root rel)) rfl
  have hway : ∀ rel, (∀ n ∈ rel, IsName n) →
      ∀ v ∈ t.onWay cwd ((Path.ofNames root).under rel), v <+: root ++ rel := by
    intro rel hrel v hv
    rw [onWay, hsteps rel hrel, horigin rel hrel] at hv
    have hall : ∀ n ∈ root ++ rel, IsName n := forall_mem_append.mpr ⟨hnames, hrel⟩
    have hdown := isPrefix_of_mem_visits hall (hnone rel) hv
    rwa [nil_append] at hdown
  refine ⟨fun rel hrel v hv hplace => ?_, fun rel hrel v hv hmissing hplace => ?_,
    fun rel hrel d hd hplace => ?_⟩
  · rcases prefix_or_prefix_of_prefix (hplace.trans (hway rel hrel v hv))
      (prefix_append root rel) with h | h
    · exact habove h
    · exact hbelow h
  · rcases prefix_or_prefix_of_prefix (hway rel hrel v hv) (prefix_append root rel)
      with h | h
    · by_cases heq : v = root
      · exact hbelow (heq ▸ hplace)
      · rw [ht.dir_of_isPrefix hroot h heq] at hmissing
        cases hmissing
    · exact hbelow (h.trans hplace)
  · obtain ⟨-, left, henters⟩ := find_dir_iff.mp hd
    rw [hsteps rel hrel, horigin rel hrel] at henters
    obtain rfl := henters.eq_append (forall_mem_append.mpr ⟨hnames, hrel⟩) (hnone rel)
    exact hbelow ((prefix_append root rel).trans hplace)

end Judge.FileTree
