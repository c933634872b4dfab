import Judge.Proofs.Outcomes
import Judge.Proofs.TreeEdits

/-!
# Proofs/MadeDirectories — directories that are made on the way

Making the directory at a path, with those above it that are missing, changes nothing if there is
one.  Otherwise there is a new and empty directory afterwards, and nothing else has changed but that
some of what was missing above it is there (`makeDirs_spec`).  This takes a path without `..`, since
then the directory above is on the way: with `..` the path may lead back out of what was just made.
-/

namespace Judge

open List
open FileTree Program
open Judge.Path (dot IsName)

variable {cwd place : Place} {p : Path} {s s' t t' : FileTree}

/-! ## Looking around -/

namespace Program

theorem run_kind (cwd : Place) (p : Path) (s : FileTree) :
    (onFiles (.kind p)).run (onTree cwd) s = some (s.kind cwd p .follow, s) :=
  run_onTree cwd (.kind p) s

theorem kind_eq_ok {last : LastLink} {k : FileKind} (h : s.kind cwd p last = .ok k) :
    ∃ v e, s.find cwd p last = .ok (v, e) ∧ FileKind.ofEntry e = k := by
  obtain ⟨⟨v, e⟩, hfind, hk⟩ := ok_of_map h
  exact ⟨v, e, hfind, hk⟩

theorem isDir_ofEntry {e : Entry} (h : (FileKind.ofEntry e).isDir = true) : e = .dir := by
  cases e with
  | dir => rfl
  | file | link | device | socket | fifo => cases h

theorem run_isDir {b : Bool} (h : (isDir p).run (onTree cwd) s = some (b, s')) :
    s' = s ∧ (b = true → ∃ d, s.find cwd p = .ok (d, .dir)) := by
  obtain ⟨r, s₁, hkind, hrest⟩ := run_bind_eq_some h
  obtain ⟨rfl, rfl⟩ := Prod.mk.inj (Option.some.inj ((run_kind cwd p s).symm.trans hkind))
  cases hk : s.kind cwd p .follow with
  | error e =>
    rw [hk] at hrest
    cases hrest
    exact ⟨rfl, nofun⟩
  | ok k =>
    rw [hk] at hrest
    cases hrest
    refine ⟨rfl, fun hdir => ?_⟩
    obtain ⟨v, e, hfind, rfl⟩ := kind_eq_ok hk
    obtain rfl := isDir_ofEntry hdir
    exact ⟨v, hfind⟩

theorem run_isFile {b : Bool} (h : (isFile p).run (onTree cwd) s = some (b, s')) : s' = s := by
  obtain ⟨r, s₁, hkind, hrest⟩ := run_bind_eq_some h
  obtain ⟨-, rfl⟩ := Prod.mk.inj (Option.some.inj ((run_kind cwd p s).symm.trans hkind))
  cases r <;> exact (Prod.mk.inj (Option.some.inj hrest)).2.symm

theorem run_exists {b : Bool} (h : («exists» p).run (onTree cwd) s = some (b, s')) :
    s' = s ∧ (b = true ↔ ∃ v e, s.find cwd p = .ok (v, e)) := by
  obtain ⟨r, s₁, hkind, hrest⟩ := run_bind_eq_some h
  obtain ⟨rfl, rfl⟩ := Prod.mk.inj (Option.some.inj ((run_kind cwd p s).symm.trans hkind))
  rw [kind] at hrest
  cases hfind : s.find cwd p with
  | error f =>
    rw [hfind] at hrest
    cases hrest
    simp
  | ok found =>
    rw [hfind] at hrest
    cases hrest
    exact ⟨rfl, iff_of_true rfl ⟨found.1, found.2, rfl⟩⟩

theorem run_onTree_eq {c : FileCall} {r : c.Reply}
    (h : (onFiles c).run (onTree cwd) s = some (r, s')) : s.serve cwd c = (r, s') :=
  Option.some.inj ((run_onTree cwd c s).symm.trans h)

theorem run_look {c : FileCall} {r r' : c.Reply} (hserve : s.serve cwd c = (r', s))
    (h : (onFiles c).run (onTree cwd) s = some (r, s')) : r' = r ∧ s' = s := by
  obtain ⟨hr, hs⟩ := Prod.mk.inj (hserve.symm.trans (run_onTree_eq h))
  exact ⟨hr, hs.symm⟩

theorem settled_eq_ok {r : Except OsError FileTree} (h : s.settled r = (.ok (), s')) :
    r = .ok s' := by
  cases r with
  | ok t => exact congrArg _ (Prod.mk.inj h).2
  | error f => cases h

variable {r : Except OsError Unit}

theorem run_makeDir (h : (onFiles (.makeDir p)).run (onTree cwd) s = some (r, s')) :
    (r = .ok () ∧ s.create cwd p .dir = .ok s') ∨ ((∃ e, r = .error e) ∧ s' = s) := by
  have hserve : s.settled (s.create cwd p .dir) = (r, s') := run_onTree_eq h
  cases hcreate : s.create cwd p .dir with
  | ok t =>
    rw [hcreate] at hserve
    cases hserve
    exact .inl ⟨rfl, rfl⟩
  | error e =>
    rw [hcreate] at hserve
    cases hserve
    exact .inr ⟨⟨e, rfl⟩, rfl⟩

theorem run_ifDir {e : OsError} (h : (do if ← isDir p then return .ok () else return .error e :
    Program (Except OsError Unit)).run (onTree cwd) s = some (.ok (), s')) :
    s' = s ∧ ∃ d, s.find cwd p = .ok (d, .dir) := by
  obtain ⟨b, s₁, hdir, hrest⟩ := run_bind_eq_some h
  obtain ⟨rfl, hfound⟩ := run_isDir hdir
  cases b with
  | false => cases hrest
  | true =>
    cases hrest
    exact ⟨rfl, hfound rfl⟩

theorem run_ensureDir (h : (ensureDir p).run (onTree cwd) s = some (.ok (), s')) :
    s.create cwd p .dir = .ok s' ∨ (s' = s ∧ ∃ d, s.find cwd p = .ok (d, .dir)) := by
  obtain ⟨r, s₁, hmake, hrest⟩ := run_bind_eq_some h
  obtain ⟨rfl, hcreate⟩ | ⟨⟨e, rfl⟩, rfl⟩ := run_makeDir hmake
  · cases hrest
    exact .inl hcreate
  · exact .inr (run_ifDir hrest)

end Program

/-! ## Making directories -/

/-- **What making directories does** where there was none: a new directory is found, and apart from
it only some of the missing directories above it are new. -/
structure MadeDir (s s' : FileTree) (cwd : Place) (p : Path) (place : Place) : Prop where
  found : s'.find cwd p = .ok (place, .dir)
  dir : s'.get? place = some .dir
  new : s.get? place = none
  wellFormed : WellFormed s'
  grown : ∀ v, s'.get? v = s.get? v ∨ (v <+: place ∧ s.get? v = none ∧ s'.get? v = some .dir)

namespace MadeDir

theorem sub (h : MadeDir s s' cwd p place) : Within s s' := by
  intro v e hv
  rcases h.grown v with hsame | ⟨-, hnone, -⟩
  · rw [hsame, hv]
  · rw [hnone] at hv
    cases hv

theorem empty (h : MadeDir s s' cwd p place) (hs : WellFormed s) {rel : Place} (hrel : rel ≠ []) :
    s'.get? (place ++ rel) = none := by
  rcases h.grown (place ++ rel) with hsame | ⟨habove, -, -⟩
  · rw [hsame]
    exact hs.get?_append_eq_none (by simp [h.new]) hrel
  · have hlength := habove.length_le
    have hpos := length_pos_iff.mpr hrel
    rw [length_append] at hlength
    omega

theorem enters (h : MadeDir s s' cwd p place) :
    ∃ left, Enters s' maxLinks (origin p cwd) p.steps left place :=
  (find_dir_iff.mp h.found).2

end MadeDir

theorem madeDir_of_create (hs : WellFormed s) (h : s.create cwd p .dir = .ok s') :
    ∃ d n, LastIn s cwd p d n ∧ MadeDir s s' cwd p (d ++ [n]) := by
  obtain ⟨d, n, hlast, hnone, hdir, rfl⟩ := create_eq_ok h
  have hself : (s.put (d ++ [n]) .dir).get? (d ++ [n]) = some .dir := get?_put_self (by simp)
  have hsub : Within s (s.put (d ++ [n]) .dir) := within_of_same hnone fun _ => get?_put_of_ne
  refine ⟨d, n, hlast, (hlast.mono hsub).find_dir hself, hself, hnone,
    hs.put hdir hlast.isName hlast.goesDown.fits (by simp [hnone]) _, fun v => ?_⟩
  by_cases hv : v = d ++ [n]
  · subst hv
    exact .inr ⟨prefix_rfl, hnone, hself⟩
  · exact .inl (get?_put_of_ne hv)

theorem ensureDir_spec (hs : WellFormed s)
    (hrun : (ensureDir p).run (onTree cwd) s = some (.ok (), s')) :
    (s' = s ∧ ∃ d, s.find cwd p = .ok (d, .dir)) ∨ ∃ place, MadeDir s s' cwd p place := by
  rcases run_ensureDir hrun with hcreate | hfound
  · obtain ⟨d, n, -, hmade⟩ := madeDir_of_create hs hcreate
    exact .inr ⟨_, hmade⟩
  · exact .inl hfound

/-- **In a new directory a path leads to nothing yet**, and what is made next stands in it. -/
theorem MadeDir.trans_above {above : Path} {v : Place} (hs : WellFormed s)
    (h : MadeDir s s' cwd above v) (hup : [dot, dot] ∉ p.steps) (hparent : p.parent? = some above)
    (hne : above.text ≠ []) (hrun : (ensureDir p).run (onTree cwd) s' = some (.ok (), t)) :
    ∃ place, MadeDir s t cwd p place := by
  obtain ⟨habsolute, -, m, hm, hmarks⟩ := Path.exists_marks_parent hup hparent hne
  have horigin : origin p cwd = origin above cwd := by rw [origin, origin, habsolute]
  obtain ⟨left, habove⟩ := h.enters
  have hplace : ∀ {left d}, Enters s' maxLinks (origin p cwd) above.marks left d → d = v :=
    fun henters => (enters_filter_iff.mp (horigin ▸ henters)).unique habove
  rcases run_ensureDir hrun with hcreate | ⟨rfl, d, hfound⟩
  · obtain ⟨d, n, hlast, hmade⟩ := madeDir_of_create h.wellFormed hcreate
    obtain ⟨init, left, hinit, henters⟩ := hlast.enters
    have hlastMark : init.filter (· ≠ [dot]) ++ [n] = above.marks ++ [m] := by
      rw [← hmarks, Path.marks, hinit, filter_append,
        filter_cons_of_pos (by simpa using hlast.goesDown.ne_here)]
      rfl
    obtain rfl := hplace ((append_inj' hlastMark rfl).1 ▸ enters_filter_iff.mpr henters)
    refine ⟨d ++ [n], hmade.found, hmade.dir,
      hs.get?_append_eq_none (by simp [h.new]) (by simp), hmade.wellFormed, fun w => ?_⟩
    rcases hmade.grown w with hsame | ⟨habove, hnone, hdir⟩
    · rcases h.grown w with hsame' | ⟨habove, hnone, hdir⟩
      · exact .inl (hsame.trans hsame')
      · exact .inr ⟨habove.trans (prefix_append d [n]), hnone, hsame.trans hdir⟩
    · refine .inr ⟨habove, ?_, hdir⟩
      rcases h.grown w with hsame | ⟨-, hnone', -⟩
      · rw [← hsame, hnone]
      · exact hnone'
  · obtain ⟨-, left, henters⟩ := find_dir_iff.mp hfound
    have henters' := enters_filter_iff.mpr henters
    rw [← Path.marks, hmarks] at henters'
    obtain ⟨left', d', hfirst, hrest⟩ := henters'.split
    obtain rfl := hplace hfirst
    have hnone : t.get? (d' ++ [m]) = none := h.empty hs (by simp)
    cases hrest with
    | here => cases hm.counts
    | up => exact absurd rfl hm.notUp
    | dir _ hget | link _ hget =>
      rw [hnone] at hget
      cases hget

theorem run_makeDirs_nil (fuel : Nat) (hp : p.text = []) :
    (makeDirs fuel p).run (onTree cwd) s = some (.ok (), s) := by
  have hnil : p.text.isEmpty = true := by simpa using hp
  cases fuel <;> rw [makeDirs, hnil, if_pos rfl] <;> rfl

/-- **Making directories** changes nothing where there is one, and makes a new one where there is
none. -/
theorem makeDirs_spec {fuel : Nat} (hs : WellFormed s) (hp : p.text ≠ [])
    (hup : [dot, dot] ∉ p.steps) (hrun : (makeDirs fuel p).run (onTree cwd) s = some (.ok (), s')) :
    (s' = s ∧ ∃ d, s.find cwd p = .ok (d, .dir)) ∨ ∃ place, MadeDir s s' cwd p place := by
  induction fuel generalizing p s' with
  | zero =>
    have hnil : p.text.isEmpty = false := by simpa using hp
    rw [makeDirs, hnil, if_neg Bool.false_ne_true] at hrun
    exact ensureDir_spec hs hrun
  | succ fuel ih =>
    have hnil : p.text.isEmpty = false := by simpa using hp
    rw [makeDirs, hnil, if_neg Bool.false_ne_true] at hrun
    obtain ⟨r, s₁, hmake, hrest⟩ := run_bind_eq_some hrun
    obtain ⟨rfl, hcreate⟩ | ⟨⟨e, rfl⟩, rfl⟩ := run_makeDir hmake
    · cases hrest
      obtain ⟨d, n, -, hmade⟩ := madeDir_of_create hs hcreate
      exact .inr ⟨_, hmade⟩
    dsimp only at hrest
    split at hrest
    · -- something above is missing
      split at hrest
      · cases hrest
      rename_i above hparent
      obtain ⟨r, s₂, habove, hensure⟩ := run_bind_eq_some hrest
      cases r with
      | error f => cases hensure
      | ok u =>
        by_cases hne : above.text = []
        · rw [run_makeDirs_nil fuel hne] at habove
          cases habove
          exact ensureDir_spec hs hensure
        · obtain ⟨-, hup', -⟩ := Path.exists_marks_parent hup hparent hne
          rcases ih hne hup' habove with ⟨rfl, -⟩ | ⟨v, hmade⟩
          · exact ensureDir_spec hs hensure
          · exact .inr (hmade.trans_above hs hup hparent hne hensure)
    · exact .inl (run_ifDir hrest)

end Judge
