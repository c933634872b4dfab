import Judge.Proofs.Overlays

/-!
# Proofs/RunDirectories — a rebuilt run directory shows nothing of the past

Building removes what is at the path of the run directory (`clear_removed`), makes a new directory
there and fills it (`run_fill`).  All changes are confined to the places that the path leads to
(`confined_of_made`), so a fixture that is apart from them is read as it was before and stays so.
Hence the run directory is empty, has one link for each entry of the fixture or is a copy of it,
whatever was there before (`rebuilt_run_directory`).

A path with `..` is another matter: what is missing in front of it hides the old directory from the
removal and is made afterwards (`dots_keep_leftovers`).
-/

namespace Judge.RunDirectory

open List
open FileTree Program
open Judge.Path (dot IsName)

variable {t t' s s' : FileTree} {cwd place d : Place} {fixture dst : Path}

/-! ## The whole program -/

theorem clear_removed (ht : WellFormed t)
    (hrun : (clear dst).run.run (onTree cwd) t = some (.ok (), t')) : Removed t t' cwd dst := by
  obtain ⟨r, t₁, hremove, hrest⟩ := run_act_bind_eq_ok hrun
  have hserve : t.removeTree cwd dst = (r, t₁) := run_onTree_eq (run_ofProgram_eq_ok hremove)
  cases r with
  | ok u =>
    cases hrest
    exact removeTree_removed ht hserve (.inl rfl)
  | error e =>
    dsimp only at hrest
    split at hrest
    · rename_i he
      cases hrest
      exact removeTree_removed ht hserve (.inr (he ▸ rfl))
    · cases hrest

/-- A separator at the end makes no difference for a directory. -/
theorem find_of_join_nil (hdst : dst.text ≠ [])
    (h : s.find cwd (dst.join ⟨[]⟩) = .ok (d, .dir)) : s.find cwd dst = .ok (d, .dir) := by
  obtain ⟨hpath, left, henters⟩ := find_dir_iff.mp h
  have hprefix : dst.text <+: (dst.join ⟨[]⟩).text := by
    have hrelative : (⟨[]⟩ : Path).isAbsolute = false := rfl
    rw [Path.join, hrelative, if_neg Bool.false_ne_true]
    split <;> exact prefix_append _ _
  refine find_dir_iff.mpr ⟨⟨?_, hdst, hprefix.length_le.trans hpath.fits⟩, left, ?_⟩
  · refine Bool.eq_false_iff.mpr fun hzero => Bool.eq_false_iff.mp hpath.noZero ?_
    rw [contains_iff_mem] at hzero ⊢
    exact hprefix.subset hzero
  · rwa [origin, Path.isAbsolute_join hdst rfl, Path.steps_join_nil hdst] at henters

/-- **After the removal a new directory is made.** -/
theorem exists_madeDir (hr : Removed t s cwd dst) (hdst : dst.text ≠ [])
    (hup : [dot, dot] ∉ dst.steps)
    (hrun : (makeDirAll dst).run (onTree cwd) s = some (.ok (), s')) :
    ∃ place, MadeDir s s' cwd dst place := by
  rcases makeDirs_spec hr.wellFormed hdst hup hrun with ⟨-, d, hd⟩ | hmade
  · exact absurd hd (hr.gone d)
  · exact hmade

/-- **How the run directory is filled**, once it is there as a new directory. -/
theorem run_fill {source : Path} {mode : Overlay} (hr : Removed t s cwd dst) (hdst : dst.text ≠ [])
    (hup : [dot, dot] ∉ dst.steps)
    (hrun : (fill source fixture mode dst).run.run (onTree cwd) s = some (.ok (), s')) :
    ∃ place s₁, MadeDir s s₁ cwd dst place ∧ Stands s₁ s' ∧
      (((∀ v e, s.find cwd fixture ≠ .ok (v, e)) ∧ s' = s₁) ∨
        (∃ v e, s.find cwd fixture = .ok (v, e)) ∧ ∃ names,
          (mode = .links ∧ s₁.list cwd (Path.absolute source fixture) = .ok names ∧
            (linkAll (Path.absolute source fixture) dst names).run.run (onTree cwd) s₁ =
              some (.ok (), s')) ∨
          (mode = .copy ∧ s₁.list cwd fixture = .ok names ∧ ∃ depth ancestors,
            (copyAll (copyEntry fixture depth ancestors) fixture (dst.join ⟨[]⟩) names).run.run (onTree cwd) s₁ =
              some (.ok (), s'))) := by
  obtain ⟨b, s₁, hexists, h⟩ := run_act_bind_eq_ok hrun
  obtain ⟨rfl, hb⟩ := run_exists (run_ofProgram_eq_ok hexists)
  cases b with
  | false =>
    obtain ⟨place, hmade⟩ := exists_madeDir hr hdst hup (run_orElse_eq_ok h)
    refine ⟨place, s', hmade, .refl _, .inl ⟨fun v e hfind => ?_, rfl⟩⟩
    cases hb.mpr ⟨v, e, hfind⟩
  | true =>
    have hfound := hb.mp rfl
    cases mode with
    | links =>
      obtain ⟨u, s₂, hmake, h₁⟩ := run_act_bind_eq_ok h
      obtain ⟨place, hmade⟩ := exists_madeDir hr hdst hup (run_orElse_eq_ok hmake)
      obtain ⟨names, s₃, hlist, hlinks⟩ := run_act_bind_eq_ok h₁
      obtain ⟨hlist', rfl⟩ := run_look rfl (run_orElse_eq_ok hlist)
      exact ⟨place, _, hmade, stands_of_meets (linkAll_meets ..) hlinks,
        .inr ⟨hfound, names, .inl ⟨rfl, hlist', hlinks⟩⟩⟩
    | copy =>
      obtain ⟨j, -, ⟨above, names, s₂, -, hmake, hlist, hcopy⟩ | hcopy⟩ := run_copyEntry h
      · have hup' : [dot, dot] ∉ (dst.join ⟨[]⟩).steps := by rwa [Path.steps_join_nil hdst]
        rcases makeDirs_spec hr.wellFormed (Path.join_ne_nil hdst) hup' hmake with
          ⟨-, d, hd⟩ | ⟨place, hmade⟩
        · exact absurd (find_of_join_nil hdst hd) (hr.gone d)
        · refine ⟨place, s₂, { hmade with found := find_of_join_nil hdst hmade.found },
            stands_of_meets (copyAll_meets (copyEntry_meets fixture j above) ..) hcopy,
            .inr ⟨hfound, names, .inr ⟨rfl, hlist, j, above, hcopy⟩⟩⟩
      · exact absurd hcopy (copy_ne_ok (Path.endsInSlash_join_nil hdst))

/-- The places that `dst` leads to, before the run directory is built or after. -/
def Leads (t t' : FileTree) (cwd : Place) (dst : Path) (place : Place) : Prop :=
  (∃ e, t.find cwd dst .keep = .ok (place, e)) ∨ t'.find cwd dst = .ok (place, .dir)

theorem confined_of_removed (hr : Removed t s cwd dst) : Confined t s (Leads t t' cwd dst) := by
  intro v
  by_cases hsame : s.get? v = t.get? v
  · exact .inl hsame
  · -- what was removed is at or below a place that the path led to
    have hremoved := mt (hr.same v) hsame
    push Not at hremoved
    obtain ⟨old, e, hold, hbelow⟩ := hremoved
    exact .inr ⟨old, .inl ⟨e, hold⟩, .inl hbelow⟩

/-- The changes of building are confined to the places that `dst` leads to. -/
theorem confined_of_made {t₁ t₂ : FileTree} (hr : Removed t t₁ cwd dst)
    (hmade : MadeDir t₁ t₂ cwd dst place) (hplace : t'.find cwd dst = .ok (place, .dir))
    (hsame : ∀ v, ¬ place <+: v → s.get? v = t₂.get? v) : Confined t s (Leads t t' cwd dst) := by
  intro v
  by_cases hbelow : place <+: v
  · exact .inr ⟨place, .inr hplace, .inl hbelow⟩
  rw [hsame v hbelow]
  rcases confined_of_removed hr v with hcleared | hremoved
  · rcases hmade.grown v with hgrown | ⟨habove, hnone, -⟩
    · exact .inl (hgrown.trans hcleared)
    · exact .inr ⟨place, .inr hplace, .inr ⟨habove, hcleared ▸ hnone⟩⟩
  · exact .inr hremoved

/-- **One link for each entry of the fixture**, to its absolute path, and nothing else. -/
def HasLinks (t t' : FileTree) (cwd : Place) (fixture : Path) (place : Place) : Prop :=
  ∃ names, t.list cwd fixture = .ok names ∧ ∀ rel e, rel ≠ [] →
    (t'.get? (place ++ rel) = some e ↔
      ∃ n ∈ names, rel = [n] ∧ e = .link ((Path.absolute (.ofNames cwd) fixture).join ⟨n⟩))

/-- **A copy of the fixture** at every depth, with links followed, and nothing else. -/
structure Mirrors (t t' : FileTree) (cwd : Place) (fixture : Path) (place : Place) : Prop where
  shows : ∀ rel e, t'.get? (place ++ rel) = some e ↔
    (∀ n ∈ rel, IsName n) ∧ ∃ v, t.find cwd (fixture.under rel) = .ok (v, e)
  noLink : ∀ rel target, t'.get? (place ++ rel) ≠ some (.link target)

/-- **The fixture is as it was**: every path into it finds the same, whether a last link is followed
or not, and its directories have the same entries. -/
structure Unchanged (t t' : FileTree) (cwd : Place) (fixture : Path) : Prop where
  find : ∀ rel last, (∀ n ∈ rel, IsName n) → (∀ slash, last.isBlind slash = false) →
    t'.find cwd (fixture.under rel) last = t.find cwd (fixture.under rel) last
  entries : ∀ rel d, (∀ n ∈ rel, IsName n) → t.find cwd (fixture.under rel) = .ok (d, .dir) →
    ∀ more, t'.get? (d ++ more) = t.get? (d ++ more)

theorem unchanged_of_confined {places : Place → Prop} (h : Confined t t' places)
    (hapart : ∀ place, places place → Apart t cwd fixture place) (hfixture : fixture.text ≠ []) :
    Unchanged t t' cwd fixture where
  find _ _ hrel hblind := (h.keeps hapart).find hrel hblind
  entries _ _ hrel hd more := h.get?_fixture hapart hfixture hrel hd more

/-- The directory that a relative fixture is seen from stays. -/
theorem get?_cwd_of_confined {places : Place → Prop} (h : Confined t s places)
    (hapart : ∀ place, places place → Apart t cwd fixture place) (hfixture : fixture.text ≠ [])
    (hup : [dot, dot] ∉ fixture.steps) (hrelative : fixture.isAbsolute = false)
    (hcwd : t.get? cwd = some .dir) : s.get? cwd = some .dir := by
  have ha : ∀ n ∈ [utf8 "a"], IsName n :=
    forall_mem_singleton.mpr ⟨rfl, by decide, by decide⟩
  have hsteps := Path.steps_under hfixture ha
  obtain ⟨n, hn⟩ : ∃ n, cwd ++ [n] ∈ t.onWay cwd (fixture.under [utf8 "a"]) := by
    rw [onWay, origin_under hfixture ha, origin, hrelative, if_neg Bool.false_ne_true, hsteps]
    refine exists_mem_visits ?_ ⟨utf8 "a", by simp, by decide⟩
    exact fun hmem => (mem_append.mp hmem).elim hup fun hmem => (ha _ hmem).notUp rfl
  rcases h cwd with hsame | ⟨place, hplace, hbelow | ⟨-, hnone⟩⟩
  · rw [hsame, hcwd]
  · exact absurd (hbelow.trans (prefix_append cwd [n]))
      ((hapart place hplace).way _ ha _ hn)
  · rw [hcwd] at hnone
    cases hnone

/-- **The links show the fixture**, if its path does not lead up. -/
theorem hasLinks_of_run {names : List Bytes} (ht : WellFormed t) (hcwd : t.get? cwd = some .dir)
    {places : Place → Prop} (hconf : Confined t s places)
    (hapart : ∀ place, places place → Apart t cwd fixture place) (hpath : IsPath fixture)
    (hup : [dot, dot] ∉ fixture.steps) (hs : WellFormed s)
    (hempty : ∀ rel, rel ≠ [] → s.get? (place ++ rel) = none)
    (hlist : s.list cwd (Path.absolute (.ofNames cwd) fixture) = .ok names)
    (hsame : ∀ v, (∀ n ∈ names, v ≠ place ++ [n]) → s'.get? v = s.get? v)
    (hlinks : ∀ n ∈ names, s'.get? (place ++ [n]) =
      some (.link ((Path.absolute (.ofNames cwd) fixture).join ⟨n⟩))) :
    HasLinks t s' cwd fixture place := by
  have hkeeps := hconf.keeps hapart
  obtain ⟨d, hd, rfl⟩ := list_eq_ok hlist
  have hfound := find_of_absolute hs (ht.isName hcwd)
    (fun hrelative => get?_cwd_of_confined hconf hapart hpath.ne_nil hup hrelative hcwd) hup hpath hd
  have hfound' : t.find cwd fixture = .ok (d, .dir) :=
    (hkeeps.find (forall_mem_nil _) isBlind_follow).symm.trans hfound
  -- the entries are the same before, although they are listed after the removal
  have hnames : ∀ n, n ∈ t.children d ↔ n ∈ s.children d := by
    intro n
    have hget : IsName n → s.get? (d ++ [n]) = t.get? (d ++ [n]) := fun hn =>
      hkeeps.get?_child hpath.ne_nil (forall_mem_nil _) hn hfound'
    constructor
    · intro hn
      rw [mem_children_iff, hget (ht.isName_of_mem_children hn).1]
      exact mem_children_iff.mp hn
    · intro hn
      rw [mem_children_iff, ← hget (hs.isName_of_mem_children hn).1]
      exact mem_children_iff.mp hn
  refine ⟨t.children d, list_of_find hfound', fun rel e hrel => ⟨fun h => ?_, ?_⟩⟩
  · by_cases hnamed : ∃ n ∈ s.children d, rel = [n]
    · obtain ⟨n, hn, rfl⟩ := hnamed
      rw [hlinks n hn] at h
      exact ⟨n, (hnames n).mpr hn, rfl, (Option.some.inj h).symm⟩
    · rw [hsame _ fun n hn heq => hnamed ⟨n, hn, append_cancel_left heq⟩, hempty rel hrel] at h
      cases h
  · rintro ⟨n, hn, rfl, rfl⟩
    exact hlinks n ((hnames n).mp hn)

/-- **The copy shows the fixture.** -/
theorem mirrors_of_copied (h : Copied t s s' cwd fixture place []) :
    Mirrors t s' cwd fixture place := by
  have hshows : ∀ rel e, s'.get? (place ++ rel) = some e ↔
      (∀ n ∈ rel, IsName n) ∧ ∃ v, t.find cwd (fixture.under rel) = .ok (v, e) := by
    intro rel e
    have hseen := h.shows rel
    rw [append_nil, nil_append] at hseen
    constructor
    · intro hget
      have hrel : ∀ n ∈ rel, IsName n := fun n hn =>
        h.wellFormed.isName hget n (mem_append_right place hn)
      exact ⟨hrel, seen_eq_some_iff.mp ((hseen hrel).symm.trans hget)⟩
    · rintro ⟨hrel, hfind⟩
      rw [hseen hrel, seen_eq_some_iff.mpr hfind]
  refine ⟨hshows, fun rel target hlink => ?_⟩
  obtain ⟨-, v, hfind⟩ := (hshows rel _).mp hlink
  exact find_ne_link hfind target rfl

/-- **A rebuilt run directory shows nothing of the past.**  Whatever was at `dst`, if its path does
not lead up and building succeeds, there is a directory.  It is empty if there is no fixture.  If
the fixture is apart from where `dst` leads, the directory has one link for each entry of the
fixture, or it is a copy of it, and the fixture is as it was. -/
theorem rebuilt_run_directory {mode : Overlay} {path : Path} (ht : WellFormed t)
    (hcwd : t.get? cwd = some .dir) (hdst : dst.text ≠ []) (hup : [dot, dot] ∉ dst.steps)
    (hrun : (build (.ofNames cwd) fixture mode dst).run.run (onTree cwd) t = some (.ok path, t')) :
    ∃ place, t'.find cwd dst = .ok (place, .dir) ∧
      ((∀ v e, t.find cwd fixture ≠ .ok (v, e)) → ∀ rel, rel ≠ [] → t'.get? (place ++ rel) = none) ∧
      ((∃ v e, t.find cwd fixture = .ok (v, e)) →
        (∀ place, Leads t t' cwd dst place → Apart t cwd fixture place) →
        Unchanged t t' cwd fixture ∧
          (mode = .links → [dot, dot] ∉ fixture.steps → HasLinks t t' cwd fixture place) ∧
          (mode = .copy → Mirrors t t' cwd fixture place)) := by
  obtain ⟨u, t₁, hclear, hrest⟩ := run_act_bind_eq_ok hrun
  obtain ⟨u, t₃, hfill, hpure⟩ := run_act_bind_eq_ok hrest
  obtain ⟨-, rfl⟩ := Prod.mk.inj (Option.some.inj hpure)
  have hr := clear_removed ht hclear
  obtain ⟨place, t₂, hmade, hstands, hfilled⟩ := run_fill hr hdst hup hfill
  have hempty : ∀ rel, rel ≠ [] → t₂.get? (place ++ rel) = none := fun rel =>
    hmade.empty hr.wellFormed
  obtain ⟨hdstPath, left, henters⟩ := find_dir_iff.mp hmade.found
  have hplace := find_dir_iff.mpr ⟨hdstPath, left, henters.of_stands hstands⟩
  refine ⟨place, hplace, fun habsent => ?_, fun hfound hapart => ?_⟩
  · rcases hfilled with ⟨-, rfl⟩ | ⟨⟨v, e, hfind⟩, -⟩
    · exact hempty
    · exact absurd (find_mono hr.sub hfind) (habsent v e)
  · obtain ⟨v, e, hfind⟩ := hfound
    have hpath := isPath_of_find hfind
    have hnil : ∀ n ∈ ([] : List Bytes), IsName n := List.forall_mem_nil _
    have hconf : ∀ s, (∀ v, ¬ place <+: v → s.get? v = t₂.get? v) →
        Confined t s (Leads t t₃ cwd dst) := fun s => confined_of_made hr hmade hplace
    rcases hfilled with ⟨habsent, -⟩ |
      ⟨-, names, ⟨rfl, hlist, hlinks⟩ | ⟨rfl, hlist, depth, ancestors, hcopy⟩⟩
    · have hkept := ((confined_of_removed hr).keeps hapart).find hnil isBlind_follow
      exact absurd (hkept.trans hfind) (habsent v e)
    · obtain ⟨d, -, rfl⟩ := list_eq_ok hlist
      obtain ⟨hsame, hlinked⟩ := linkAll_spec hdst
        (fun n hn => (hmade.wellFormed.isName_of_mem_children hn).1) hmade.wellFormed
        ⟨left, henters⟩ hlinks
      have hframe : ∀ v, ¬ place <+: v → t₃.get? v = t₂.get? v := fun v hv =>
        hsame v fun n _ heq => hv (heq ▸ List.prefix_append place [n])
      refine ⟨unchanged_of_confined (hconf t₃ hframe) hapart hpath.ne_nil, fun _ hfixture => ?_,
        nofun⟩
      exact hasLinks_of_run ht hcwd (hconf t₂ fun _ _ => rfl) hapart hpath hfixture
        hmade.wellFormed hempty hlist hsame hlinked
    · have hkeeps : ∀ s, (∀ v, ¬ place <+: v → s.get? v = t₂.get? v) → Keeps t s cwd fixture :=
        fun s hsame => (hconf s hsame).keeps hapart
      have hcopied : Copied t t₂ t₃ cwd fixture place [] :=
        copyDir_spec (copiesEntries hdst hup hpath.ne_nil hkeeps depth) (hkeeps t₂ fun _ _ => rfl)
          hpath.ne_nil hnil ⟨hmade.wellFormed, fun _ _ => rfl, left, henters⟩
          (by rw [List.append_nil, hmade.dir]) (by simpa using hempty) hlist hcopy
      have hframe : ∀ v, ¬ place <+: v → t₃.get? v = t₂.get? v := fun v hv =>
        hcopied.same v (by rwa [List.append_nil])
      exact ⟨unchanged_of_confined (hconf t₃ hframe) hapart hpath.ne_nil, nofun,
        fun _ => mirrors_of_copied hcopied⟩

/-- A fixture with a directory in it, and a run directory that holds something. -/
def besideFixture (inside : List (Place × Entry)) : FileTree :=
  ⟨[([utf8 "fix"], .dir), ([utf8 "fix", utf8 "a"], .file (utf8 "1") plainMode),
    ([utf8 "fix", utf8 "sub"], .dir), ([utf8 "fix", utf8 "sub", utf8 "b"], .file [] programMode),
    ([utf8 "run"], .dir)] ++ inside⟩

/-- A run directory that links to the fixture and has a file of its own. -/
def usedRun : FileTree := besideFixture
  [([utf8 "run", utf8 "a"], .link (.ofString "/fix/a")),
    ([utf8 "run", utf8 "sub"], .link (.ofString "/fix/sub")),
    ([utf8 "run", utf8 "old"], .file (utf8 "x") plainMode)]

/-- The same with the run directory built anew as a copy. -/
def rebuiltRun : FileTree := besideFixture
  [([utf8 "run", utf8 "sub"], .dir), ([utf8 "run", utf8 "sub", utf8 "b"], .file [] programMode),
    ([utf8 "run", utf8 "a"], .file (utf8 "1") plainMode)]

theorem wellFormed_usedRun : WellFormed usedRun :=
  wellFormed_of_entries (by decide +kernel) (by decide +kernel) (by decide +kernel)

theorem run_usedRun :
    (build (.ofNames []) (.ofString "/fix") .copy (.ofString "/run")).run.run (onTree []) usedRun =
      some (.ok (.ofString "/run"), rebuiltRun) := by
  decide +kernel

/-- The links into the fixture are replaced by copies, and the file of an earlier test is gone. -/
theorem links_into_fixture_replaced :
    Mirrors usedRun rebuiltRun [] (.ofString "/fix") [utf8 "run"] ∧
      Unchanged usedRun rebuiltRun [] (.ofString "/fix") := by
  have hfound : rebuiltRun.find [] (.ofString "/run") = .ok ([utf8 "run"], .dir) := by decide +kernel
  have hbefore : usedRun.find [] (.ofString "/run") .keep = .ok ([utf8 "run"], .dir) := by decide +kernel
  have hfixture : usedRun.find [] (.ofString "/fix") = .ok ([utf8 "fix"], .dir) := by decide +kernel
  have hnames : Path.ofString "/fix" = .ofNames [utf8 "fix"] := by decide +kernel
  have hapart : Apart usedRun [] (.ofString "/fix") [utf8 "run"] := by
    rw [hnames]
    exact apart_of_plain wellFormed_usedRun rfl (by decide +kernel) (by decide) (by decide)
  obtain ⟨place, hplace, -, hshows⟩ := rebuilt_run_directory wellFormed_usedRun rfl (by decide)
    (by decide +kernel) run_usedRun
  obtain ⟨rfl, -⟩ := Prod.mk.inj (Except.ok.inj (hfound.symm.trans hplace))
  obtain ⟨hunchanged, -, hmirrors⟩ := hshows ⟨_, _, hfixture⟩ fun place hleads => by
    rcases hleads with ⟨e, hold⟩ | hnew
    · obtain ⟨rfl, -⟩ := Prod.mk.inj (Except.ok.inj (hbefore.symm.trans hold))
      exact hapart
    · obtain ⟨rfl, -⟩ := Prod.mk.inj (Except.ok.inj (hfound.symm.trans hnew))
      exact hapart
  exact ⟨hmirrors rfl, hunchanged⟩

/-- A run directory that an earlier test used, and a link into another directory with a fixture. -/
def dottedTree : FileTree :=
  ⟨[([utf8 "run"], .dir), ([utf8 "run", utf8 "leftover"], .file (utf8 "x") plainMode),
    ([utf8 "d"], .dir), ([utf8 "d", utf8 "sub"], .dir), ([utf8 "d", utf8 "fix"], .dir),
    ([utf8 "d", utf8 "fix", utf8 "real"], .dir), ([utf8 "fix"], .dir),
    ([utf8 "fix", utf8 "other"], .dir), ([utf8 "ln"], .link (.ofString "d/sub"))]⟩

/-- **With `..` in its path a run directory keeps what it had**: the removal finds nothing, and
making the directory in front of `..` leads back to the old one.  And a fixture with `..` in its
path is linked by the names of another directory, if there is a link in front of `..`. -/
theorem dots_keep_leftovers :
    dottedTree.find [] (.ofString "/missing") = .error .noEntry ∧
      ((build (.ofNames []) (.ofString "/missing") .links (.ofString "/x/../run")).run.run
          (onTree []) dottedTree).map (fun r => (r.1, r.2.list [] (.ofString "/x/../run"))) =
        some (.ok (.ofString "/run"), .ok [utf8 "leftover"]) ∧
      dottedTree.list [] (.ofString "/ln/../fix") = .ok [utf8 "real"] ∧
      ((build (.ofNames []) (.ofString "/ln/../fix") .links (.ofString "/run")).run.run
          (onTree []) dottedTree).map (fun r => (r.1, r.2.list [] (.ofString "/run"))) =
        some (.ok (.ofString "/run"), .ok [utf8 "other"]) := by
  refine ⟨?_, ?_, ?_, ?_⟩ <;> decide +kernel

end Judge.RunDirectory
