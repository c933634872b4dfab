import Mathlib.Data.List.Nodup
import Judge.Proofs.PathSteps
import Judge.Proofs.Walks

/-!
# Proofs/TreeEdits — what changes in a tree, and what does not

In a tree that a file system has (`WellFormed`), everything stands in a directory under a name, so
below what is missing there is nothing.  Operations by name act on the entry `n` in a directory `d`
that a path leads to (`LastIn`).  Each of them is said by what stands at this place afterwards, and
that nothing else has changed: a new entry (`create_eq_ok`), a removal (`removeTree_removed`), a copy
(`copy_eq_ok`).
-/

namespace Judge.FileTree

open List
open Judge.Path (dot IsName)

variable {t t' : FileTree} {cwd d v w place : Place} {p q : Path} {n : Bytes} {e : Entry}

/-! ## Looking up after a change -/

theorem lookup_filter (keep : Place → Bool) (l : List (Place × Entry)) (v : Place) :
    (l.filter fun e => keep e.1).lookup v = if keep v then l.lookup v else none := by
  induction l with
  | nil => simp
  | cons e l ih =>
    by_cases hkey : v = e.1
    · subst hkey
      cases hkeep : keep e.1 with
      | true => simp [hkeep, Assoc.lookup_cons_eq]
      | false => rw [filter_cons_of_neg (by simp [hkeep]), ih, hkeep]; simp
    · cases hkeep : keep e.1 with
      | true =>
        rw [filter_cons_of_pos (by exact hkeep), Assoc.lookup_cons_eq, Assoc.lookup_cons_eq,
          if_neg hkey, if_neg hkey, ih]
      | false =>
        rw [filter_cons_of_neg (by simp [hkeep]), ih, Assoc.lookup_cons_eq, if_neg hkey]

/-- The part of a tree at the places that are kept. -/
def restrict (t : FileTree) (keep : Place → Bool) : FileTree := ⟨t.entries.filter fun e => keep e.1⟩

theorem get?_restrict (keep : Place → Bool) (hv : v ≠ []) :
    (t.restrict keep).get? v = if keep v then t.get? v else none := by
  rw [get?_of_ne_nil _ hv, get?_of_ne_nil _ hv]
  exact lookup_filter keep t.entries v

theorem get?_restrict_le (keep : Place → Bool) (h : (t.restrict keep).get? v = some e) :
    t.get? v = some e := by
  by_cases hv : v = []
  · subst hv
    exact h
  · rw [get?_restrict keep hv] at h
    split at h
    · exact h
    · cases h

theorem get?_erase (hplace : place ≠ []) (v : Place) :
    (t.erase place).get? v = if place <+: v then none else t.get? v := by
  by_cases hv : v = []
  · subst hv
    rw [if_neg (by simpa using hplace)]
    rfl
  · refine (get?_restrict (fun v => !place.isPrefixOf v) hv).trans ?_
    by_cases hbelow : place <+: v
    · rw [if_pos hbelow, isPrefixOf_iff_prefix.mpr hbelow]
      rfl
    · rw [if_neg hbelow, Bool.eq_false_iff.mpr (mt isPrefixOf_iff_prefix.mp hbelow)]
      rfl

theorem get?_clear_of_not_isPrefix (h : ¬ place <+: v) : (t.clear place).get? v = t.get? v := by
  by_cases hv : v = []
  · subst hv
    rfl
  · refine (get?_restrict (fun v => v == place || !place.isPrefixOf v) hv).trans ?_
    rw [Bool.eq_false_iff.mpr (mt isPrefixOf_iff_prefix.mp h), Bool.not_false, Bool.or_true,
      if_pos rfl]

theorem get?_put_self (hplace : place ≠ []) : (t.put place e).get? place = some e := by
  rw [get?_put t place e hplace, if_pos rfl]

theorem get?_put_of_ne (h : v ≠ place) : (t.put place e).get? v = t.get? v := by
  by_cases hv : v = []
  · subst hv
    rfl
  · rw [get?_put t place e hv, if_neg h]

/-- Where nothing was, something new is in the way of nothing. -/
theorem within_of_same (hnone : t.get? place = none)
    (hsame : ∀ v, v ≠ place → t'.get? v = t.get? v) : Within t t' := by
  intro v e hv
  rw [hsame v, hv]
  rintro rfl
  rw [hnone] at hv
  cases hv

/-! ## Names in a directory -/

theorem childName?_eq_some_iff {place v : Place} :
    childName? place v = some n ↔ v = place ++ [n] := by
  unfold childName?
  constructor
  · intro h
    split at h
    · rename_i hchild
      obtain ⟨hlength, hbelow⟩ := Bool.and_eq_true_iff.mp hchild
      obtain ⟨rest, rfl⟩ := isPrefixOf_iff_prefix.mp hbelow
      obtain ⟨m, rfl⟩ : ∃ m, rest = [m] := by
        refine length_eq_one_iff.mp ?_
        have := beq_iff_eq.mp hlength
        rw [length_append] at this
        omega
      rw [getLast?_concat] at h
      rw [Option.some.inj h]
    · cases h
  · rintro rfl
    simp

theorem mem_entries_of_get? (h : t.get? v = some e) (hv : v ≠ []) : (v, e) ∈ t.entries := by
  rw [get?_of_ne_nil t hv, lookup_eq_some_iff] at h
  obtain ⟨l₁, l₂, hentries, -⟩ := h
  rw [hentries]
  exact mem_append_right l₁ mem_cons_self

theorem isSome_get?_iff (hv : v ≠ []) : (t.get? v).isSome ↔ v ∈ t.entries.map Prod.fst := by
  rw [get?_of_ne_nil t hv]
  induction t.entries with
  | nil => simp
  | cons e l ih =>
    rw [Assoc.lookup_cons_eq, map_cons, mem_cons, ← ih]
    by_cases hkey : v = e.1
    · simp [hkey]
    · simp [hkey]

/-- **The names in a directory** are those at which something stands. -/
theorem mem_children_iff : n ∈ t.children place ↔ (t.get? (place ++ [n])).isSome := by
  rw [isSome_get?_iff (by simp), children, mem_reverse, mem_filterMap, mem_map]
  constructor
  · rintro ⟨entry, hentry, hname⟩
    exact ⟨entry, hentry, childName?_eq_some_iff.mp hname⟩
  · rintro ⟨entry, hentry, hkey⟩
    exact ⟨entry, hentry, childName?_eq_some_iff.mpr hkey⟩

theorem list_eq_ok {names : List Bytes} (h : t.list cwd p = .ok names) :
    ∃ d, t.find cwd p = .ok (d, .dir) ∧ t.children d = names := by
  unfold list at h
  split at h
  · cases h
  · rename_i d hd
    cases h
    exact ⟨d, hd, rfl⟩
  · cases h

theorem list_of_find (h : t.find cwd p = .ok (d, .dir)) : t.list cwd p = .ok (t.children d) := by
  rw [list, h]

/-! ## Trees that a file system has -/

/-- **A tree that a file system has**: everything stands in a directory under a name, and once. -/
structure WellFormed (t : FileTree) : Prop where
  isName : ∀ {v e}, t.get? v = some e → ∀ n ∈ v, IsName n
  fits : ∀ {v e}, t.get? v = some e → ∀ n ∈ v, n.length ≤ maxName
  closed : ∀ {v n e}, t.get? (v ++ [n]) = some e → t.get? v = some .dir
  distinct : (t.entries.map Prod.fst).Nodup

/-- Whether a tree is one that a file system has can be read off its entries. -/
theorem wellFormed_of_entries (hnames : ∀ e ∈ t.entries, ∀ n ∈ e.1, IsName n ∧ n.length ≤ maxName)
    (hclosed : ∀ e ∈ t.entries, t.get? e.1.dropLast = some .dir)
    (hdistinct : (t.entries.map Prod.fst).Nodup) : WellFormed t := by
  have hentry : ∀ {v e}, t.get? v = some e → v ≠ [] → ∃ e ∈ t.entries, e.1 = v := by
    intro v e hget hv
    exact mem_map.mp ((isSome_get?_iff hv).mp (by rw [hget]; rfl))
  have hall : ∀ {v e}, t.get? v = some e → ∀ n ∈ v, IsName n ∧ n.length ≤ maxName := by
    intro v e hget n hn
    obtain ⟨e, he, rfl⟩ := hentry hget (ne_nil_of_mem hn)
    exact hnames e he n hn
  refine ⟨fun hget n hn => (hall hget n hn).1, fun hget n hn => (hall hget n hn).2, ?_, hdistinct⟩
  intro v n e hget
  obtain ⟨e, he, hkey⟩ := hentry hget (by simp)
  have habove := hclosed e he
  rwa [hkey, dropLast_concat] at habove

namespace WellFormed

theorem goesDown (ht : WellFormed t) (h : t.get? v = some e) : ∀ n ∈ v, GoesDown n := by
  intro n hn
  have hname := ht.isName h n hn
  exact ⟨hname.notHere, hname.notUp, ht.fits h n hn⟩

theorem dir_of_isPrefix (ht : WellFormed t) (h : t.get? w = some e) (hv : v <+: w) (hne : v ≠ w) :
    t.get? v = some .dir := by
  obtain ⟨rel, rfl⟩ := hv
  induction rel using reverseRecOn generalizing e with
  | nil => exact absurd (append_nil v).symm hne
  | append_singleton rel n ih =>
    rw [← append_assoc] at h
    have habove := ht.closed h
    by_cases hrel : rel = []
    · subst hrel
      rwa [append_nil] at habove
    · exact ih habove (by simpa using hrel)

/-- Below what is no directory there is nothing. -/
theorem get?_append_eq_none (ht : WellFormed t) (h : t.get? v ≠ some .dir) {rel : Place}
    (hrel : rel ≠ []) : t.get? (v ++ rel) = none := by
  cases hget : t.get? (v ++ rel) with
  | none => rfl
  | some e =>
    exact absurd (ht.dir_of_isPrefix hget (prefix_append v rel) (by simpa using hrel)) h

theorem nodup_children (ht : WellFormed t) (place : Place) : (t.children place).Nodup := by
  have hnames : (t.children place).reverse = (t.entries.map Prod.fst).filterMap (childName? place) := by
    rw [children, reverse_reverse, filterMap_map]
    rfl
  rw [← nodup_reverse, hnames]
  refine ht.distinct.filterMap fun v w n hv hw => ?_
  rw [childName?_eq_some_iff.mp hv, childName?_eq_some_iff.mp hw]

theorem isName_of_mem_children (ht : WellFormed t) (h : n ∈ t.children place) :
    IsName n ∧ n.length ≤ maxName := by
  obtain ⟨e, he⟩ := Option.isSome_iff_exists.mp (mem_children_iff.mp h)
  exact ⟨ht.isName he n (by simp), ht.fits he n (by simp)⟩

theorem restrict (ht : WellFormed t) (keep : Place → Bool)
    (hkeep : ∀ v n, keep (v ++ [n]) = true → keep v = true) : WellFormed (t.restrict keep) where
  isName h := ht.isName (get?_restrict_le keep h)
  fits h := ht.fits (get?_restrict_le keep h)
  closed := by
    intro v n e h
    have hdir := ht.closed (get?_restrict_le keep h)
    by_cases hv : v = []
    · subst hv
      rfl
    · rw [get?_restrict keep (by simp)] at h
      rw [get?_restrict keep hv, hdir]
      split at h
      · rename_i hbelow
        rw [if_pos (hkeep v n hbelow)]
      · cases h
  distinct := ht.distinct.sublist (filter_sublist.map Prod.fst)

theorem isPrefixOf_concat (h : place.isPrefixOf (v ++ [n]) = false) : place.isPrefixOf v = false := by
  rw [Bool.eq_false_iff, ne_eq, isPrefixOf_iff_prefix] at h ⊢
  exact fun hbelow => h (hbelow.trans (prefix_append v [n]))

theorem erase (ht : WellFormed t) (place : Place) : WellFormed (t.erase place) := by
  refine ht.restrict (fun v => !place.isPrefixOf v) fun v n h => ?_
  rw [Bool.not_eq_true_eq_eq_false] at h ⊢
  exact isPrefixOf_concat h

theorem clear (ht : WellFormed t) (place : Place) : WellFormed (t.clear place) := by
  refine ht.restrict (fun v => v == place || !place.isPrefixOf v) fun v n h => ?_
  have habove : place.isPrefixOf v = false := by
    rcases Bool.or_eq_true_iff.mp h with heq | hnot
    · -- the directory itself is not below itself
      rw [Bool.eq_false_iff, ne_eq, isPrefixOf_iff_prefix, ← beq_iff_eq.mp heq]
      intro hbelow
      simpa using hbelow.length_le
    · exact isPrefixOf_concat (by simpa using hnot)
  rw [habove, Bool.not_false, Bool.or_true]

theorem distinct_put (ht : WellFormed t) (place : Place) (e : Entry) :
    ((t.put place e).entries.map Prod.fst).Nodup := by
  change ((Assoc.put t.entries place e).map Prod.fst).Nodup
  unfold Assoc.put
  split
  · have hkeys : (t.entries.map fun f => if f.1 == place then (place, e) else f).map Prod.fst =
        t.entries.map Prod.fst := by
      rw [map_map]
      refine map_congr_left fun f _ => ?_
      by_cases hkey : f.1 = place
      · simp [hkey]
      · simp [hkey]
    rw [hkeys]
    exact ht.distinct
  · rename_i hnew
    rw [map_append, map_singleton, nodup_append]
    refine ⟨ht.distinct, nodup_singleton _, ?_⟩
    intro v hv w hw heq
    obtain rfl := mem_singleton.mp hw
    obtain ⟨f, hf, rfl⟩ := mem_map.mp hv
    exact hnew (any_eq_true.mpr ⟨f, hf, beq_iff_eq.mpr heq⟩)

/-- **Something new stands in a directory**; what was there before was none. -/
theorem put (ht : WellFormed t) (hdir : t.get? d = some .dir) (hn : IsName n)
    (hfits : n.length ≤ maxName) (hnot : t.get? (d ++ [n]) ≠ some .dir) (e : Entry) :
    WellFormed (t.put (d ++ [n]) e) where
  isName {v f} h := by
    by_cases hv : v = d ++ [n]
    · subst hv
      simpa [or_imp, forall_and] using And.intro (ht.isName hdir) hn
    · exact ht.isName (get?_put_of_ne hv ▸ h)
  fits {v f} h := by
    by_cases hv : v = d ++ [n]
    · subst hv
      simpa [or_imp, forall_and] using And.intro (ht.fits hdir) hfits
    · exact ht.fits (get?_put_of_ne hv ▸ h)
  closed {v m f} h := by
    by_cases hv : v ++ [m] = d ++ [n]
    · obtain ⟨rfl, -⟩ := append_inj' hv rfl
      rwa [get?_put_of_ne (by simp)]
    · rw [get?_put_of_ne hv] at h
      have habove := ht.closed h
      rwa [get?_put_of_ne]
      rintro rfl
      exact hnot habove
  distinct := ht.distinct_put _ e

/-- What is no directory can be replaced. -/
theorem put_put {f : Entry} (ht : WellFormed (t.put (d ++ [n]) f)) (hdir : t.get? d = some .dir)
    (hn : IsName n) (hfits : n.length ≤ maxName) (hf : f ≠ .dir) (e : Entry) :
    WellFormed ((t.put (d ++ [n]) f).put (d ++ [n]) e) := by
  refine ht.put ?_ hn hfits ?_ e
  · rwa [get?_put_of_ne (by simp)]
  · rw [get?_put_self (by simp)]
    exact fun h => hf (Option.some.inj h)

end WellFormed

/-! ## The entry that a path names -/

/-- **The last step of `p` is the name `n` in the directory `d`.** -/
structure LastIn (t : FileTree) (cwd : Place) (p : Path) (d : Place) (n : Bytes) : Prop where
  isPath : IsPath p
  goesDown : GoesDown n
  enters : ∃ init left, p.steps = init ++ [n] ∧ Enters t maxLinks (origin p cwd) init left d

namespace LastIn

section

variable (h : LastIn t cwd p d n)

include h

theorem isName : IsName n := by
  obtain ⟨init, left, hsteps, -⟩ := h.enters
  exact Path.isName_of_mem_steps (hsteps ▸ mem_concat_self) h.goesDown.ne_here h.goesDown.ne_up

theorem mono (hsub : Within t t') : LastIn t' cwd p d n := by
  obtain ⟨init, left, hsteps, henters⟩ := h.enters
  exact ⟨h.isPath, h.goesDown, init, left, hsteps, henters.mono hsub⟩

theorem exists_enters (hget : t.get? (d ++ [n]) = some .dir) :
    ∃ left, Enters t maxLinks (origin p cwd) p.steps left (d ++ [n]) := by
  obtain ⟨init, left, hsteps, henters⟩ := h.enters
  exact ⟨left, hsteps ▸ henters.append (.dir h.goesDown hget .nil)⟩

theorem find_dir (hget : t.get? (d ++ [n]) = some .dir) : t.find cwd p = .ok (d ++ [n], .dir) :=
  find_dir_iff.mpr ⟨h.isPath, h.exists_enters hget⟩

/-- **Where nothing stands, no directory is entered**, also if less is there than before. -/
theorem get?_ne_none (hsub : Within t' t) {left : Nat}
    (henters : Enters t' maxLinks (origin p cwd) p.steps left v) : t'.get? (d ++ [n]) ≠ none := by
  obtain ⟨init, left', hsteps, hinit⟩ := h.enters
  rw [hsteps] at henters
  obtain ⟨left, d', hinit', hlast⟩ := henters.split
  obtain rfl := (hinit'.mono hsub).unique hinit
  cases hlast with
  | here => exact absurd rfl h.goesDown.ne_here
  | up => exact absurd rfl h.goesDown.ne_up
  | dir _ hget | link _ hget => simp [hget]

end

end LastIn

theorem locate_ignore_of_lastIn (h : LastIn t cwd p d n) :
    t.locate cwd p .ignore = .ok ⟨d, .name n, p.endsInSlash⟩ := by
  obtain ⟨init, left, hsteps, henters⟩ := h.enters
  rw [locate_eq_ok, hsteps, henters.walk_append (cons_ne_nil _ _)]
  exact ⟨h.isPath, walk_ignore_name h.goesDown.ne_here h.goesDown.ne_up⟩

variable {spot : Spot}

theorem lastIn_of_locate_ignore (h : t.locate cwd p .ignore = .ok spot)
    (hname : spot.ending = .name n) (hfits : n.length ≤ maxName) :
    LastIn t cwd p spot.dir n ∧ spot = ⟨spot.dir, .name n, p.endsInSlash⟩ := by
  obtain ⟨hpath, hwalk⟩ := locate_eq_ok.mp h
  rcases eq_nil_or_concat p.steps with hnil | ⟨init, m, hsteps⟩
  · rw [hnil] at hwalk
    cases hwalk
    cases hname
  · rw [concat_eq_append] at hsteps
    rw [hsteps] at hwalk
    obtain ⟨left, d, henters, hlast⟩ := exists_enters (cons_ne_nil _ _) hwalk
    by_cases hdot : m = [dot]
    · subst hdot
      rw [walk_last_here] at hlast
      cases hlast
      cases hname
    by_cases hup : m = [dot, dot]
    · subst hup
      rw [walk_last_up] at hlast
      cases hlast
      cases hname
    rw [walk_ignore_name hdot hup] at hlast
    cases hlast
    cases hname
    exact ⟨⟨hpath, ⟨hdot, hup, hfits⟩, init, left, hsteps, henters⟩, rfl⟩

/-- **An operation by name** looks at the entry that the path names. -/
theorem named_eq_ok {other : Ending → OsError} {found : Option Entry} :
    t.named cwd p other = .ok (spot, found) ↔
      ∃ d n, LastIn t cwd p d n ∧ spot = ⟨d, .name n, p.endsInSlash⟩ ∧
        found = t.get? (d ++ [n]) := by
  constructor
  · intro h
    obtain ⟨spot₁, h₁, h₂⟩ := ok_of_bind h
    obtain ⟨found₁, hlook, h₃⟩ := ok_of_bind h₂
    obtain ⟨rfl, rfl⟩ := Prod.mk.inj (Except.ok.inj h₃)
    obtain ⟨spot₂, hlocate, hending⟩ := ok_of_bind h₁
    split at hending
    · rename_i n hname
      cases hending
      unfold look at hlook
      split at hlook
      · cases hlook
      rename_i hfits
      have hplace : spot₁.place = spot₁.dir ++ [n] := by rw [Spot.place, hname]
      rw [hplace] at hlook hfits
      rw [getLastD_concat] at hfits
      obtain ⟨hlast, hspot⟩ := lastIn_of_locate_ignore hlocate hname (Nat.not_lt.mp hfits)
      exact ⟨_, n, hlast, hspot, (Except.ok.inj hlook).symm⟩
    · cases hending
  · rintro ⟨d, n, hlast, rfl, rfl⟩
    have hspot : t.spotOf cwd p other = .ok ⟨d, .name n, p.endsInSlash⟩ := by
      rw [spotOf, locate_ignore_of_lastIn hlast]
      rfl
    have hlook : t.look ⟨d, .name n, p.endsInSlash⟩ = .ok (t.get? (d ++ [n])) := by
      rw [look, Spot.place, getLastD_concat, if_neg (Nat.not_lt.mpr hlast.goesDown.fits)]
    refine (bind_of_ok hspot).trans ((bind_of_ok hlook).trans rfl)

/-! ## New entries -/

/-- **What is made** stands in a directory where nothing was. -/
theorem create_eq_ok (h : t.create cwd p e = .ok t') :
    ∃ d n, LastIn t cwd p d n ∧ t.get? (d ++ [n]) = none ∧ t.get? d = some .dir ∧
      t' = t.put (d ++ [n]) e := by
  obtain ⟨⟨spot, found⟩, hnamed, hrest⟩ := ok_of_bind h
  obtain ⟨d, n, hlast, rfl, rfl⟩ := named_eq_ok.mp hnamed
  split at hrest
  · cases hrest
  · rename_i hspot
    obtain ⟨rfl, hnone⟩ := Prod.mk.inj hspot
    split at hrest
    · cases hrest
    · have hplace : (Spot.mk d (.name n) p.endsInSlash).place = d ++ [n] := rfl
      rw [hplace, insert, dropLast_concat] at hrest
      split at hrest
      · rename_i hdir
        cases hrest
        exact ⟨d, n, hlast, hnone, hdir, rfl⟩
      · cases hrest

theorem symlink_eq_ok {target : Path} (h : t.symlink cwd target p = .ok t') :
    t.create cwd p (.link target) = .ok t' := by
  unfold symlink at h
  repeat' split at h
  all_goals first | cases h | exact h

/-! ## Removals -/

theorem removeDir_eq_ok (h : t.removeDir cwd p = .ok t') :
    ∃ d n, LastIn t cwd p d n ∧ t.get? (d ++ [n]) = some .dir ∧ t' = t.erase (d ++ [n]) := by
  obtain ⟨⟨spot, found⟩, hnamed, hrest⟩ := ok_of_bind h
  obtain ⟨d, n, hlast, rfl, rfl⟩ := named_eq_ok.mp hnamed
  split at hrest
  · cases hrest
  · rename_i hspot
    obtain ⟨rfl, hdir⟩ := Prod.mk.inj hspot
    split at hrest
    · cases hrest
      exact ⟨d, n, hlast, hdir, rfl⟩
    · cases hrest
  · cases hrest

/-- Only a name can be missing. -/
theorem removeDir_of_locate (h : t.locate cwd p .ignore = .ok spot)
    (hname : ∀ n, spot.ending ≠ .name n) :
    t.removeDir cwd p = .error (unremovable spot.ending) := by
  obtain ⟨d, ending, slash⟩ := spot
  cases ending with
  | name n => exact absurd rfl (hname n)
  | root | here | up =>
    rw [removeDir, named, spotOf, h]
    rfl

theorem unremovable_ne_noEntry (ending : Ending) : unremovable ending ≠ .noEntry := by
  cases ending <;> exact of_decide_eq_false rfl

/-- What can be entered is not missing. -/
theorem Enters.removeDir_ne_noEntry {left : Nat} (hp : IsPath p)
    (h : Enters t maxLinks (origin p cwd) p.steps left v) :
    t.removeDir cwd p ≠ .error .noEntry := by
  have hother : ∀ spot, walk t .ignore maxLinks (origin p cwd) p.endsInSlash p.steps = .ok spot →
      (∀ n, spot.ending ≠ .name n) → t.removeDir cwd p ≠ .error .noEntry := by
    intro spot hwalk hname
    rw [removeDir_of_locate (locate_eq_ok.mpr ⟨hp, hwalk⟩) hname]
    exact fun h => unremovable_ne_noEntry _ (Except.error.inj h)
  rcases eq_nil_or_concat p.steps with hnil | ⟨init, m, hsteps⟩
  · refine hother ⟨origin p cwd, .root, p.endsInSlash⟩ ?_ (by simp)
    rw [hnil]
    rfl
  rw [concat_eq_append] at hsteps
  rw [hsteps] at h hother
  obtain ⟨left', d, hinit, hlast⟩ := h.split
  rw [hinit.walk_append (cons_ne_nil m [])] at hother
  have hnamed : ∀ e, GoesDown m → t.get? (d ++ [m]) = some e →
      t.removeDir cwd p ≠ .error .noEntry := by
    intro e hm hget
    have hfound : t.named cwd p unremovable = .ok (⟨d, .name m, p.endsInSlash⟩, some e) :=
      named_eq_ok.mpr ⟨d, m, ⟨hp, hm, init, left', hsteps, hinit⟩, rfl, hget.symm⟩
    rw [show t.removeDir cwd p = _ from bind_of_ok hfound]
    cases e with
    | dir =>
      dsimp only
      split
      · simp
      · exact fun h => absurd (Except.error.inj h) (by decide)
    | file | link | device | socket | fifo => exact fun h => absurd (Except.error.inj h) (by decide)
  cases hlast with
  | here => exact hother _ walk_last_here (by simp)
  | up => exact hother _ walk_last_up (by simp)
  | dir hm hget | link hm hget => exact hnamed _ hm hget

theorem Ends.slash_eq_true {last : LastLink} {k : Nat} {here : Place} {slash : Bool}
    {steps : List Bytes} (h : Ends t last k here slash steps spot) (hslash : slash = true) :
    spot.slash = true := by
  induction h with
  | root | here | up | stops => exact hslash
  | follows _ _ _ _ _ ih => exact ih (by rw [hslash, Bool.true_or])

theorem eq_dir_of_slash (hslash : spot.slash = true) (h : t.arrive spot = .ok (v, e)) :
    e = .dir := by
  obtain ⟨d, ending, slash⟩ := spot
  cases ending with
  | name n => exact (arrive_name_eq_ok.mp h).2.2 hslash
  | root | here | up =>
    cases h
    rfl

/-- **A link that is found** without being followed is the entry that the path names. -/
theorem exists_lastIn_of_link {target : Path} (h : t.find cwd p .keep = .ok (v, .link target)) :
    ∃ d n, LastIn t cwd p d n ∧ v = d ++ [n] ∧ t.get? v = some (.link target) := by
  obtain ⟨hpath, spot, hends, harrive⟩ := (find_eq_ok isBlind_keep).mp h
  generalize hslash : p.endsInSlash = slash at hends
  generalize hsteps : p.steps = steps at hends
  cases hends with
  | root | here | up => cases harrive
  | stops henters hn _ =>
    obtain ⟨rfl, hget, -⟩ := arrive_name_eq_ok.mp harrive
    exact ⟨_, _, ⟨hpath, hn, _, _, hsteps, henters⟩, rfl, hget⟩
  | follows _ _ _ hfollows hends =>
    -- a link is followed before a separator only, and that wants a directory at the end
    have hspot := hends.slash_eq_true (by rw [show slash = true from hfollows, Bool.true_or])
    cases eq_dir_of_slash hspot harrive

theorem unlink_of_link {target : Path} (h : LastIn t cwd p d n)
    (hget : t.get? (d ++ [n]) = some (.link target)) :
    t.unlink cwd p =
      if p.endsInSlash then .error .notDirectory else .ok (t.erase (d ++ [n])) := by
  have hfound : t.named cwd p (fun _ => .isDirectory) =
      .ok (⟨d, .name n, p.endsInSlash⟩, some (.link target)) :=
    named_eq_ok.mpr ⟨d, n, h, rfl, hget.symm⟩
  exact bind_of_ok hfound

/-- **What a removal leaves**: less than there was, the same outside of what the path leads to, and
no directory to be entered by the path. -/
structure Removed (t t' : FileTree) (cwd : Place) (p : Path) : Prop where
  wellFormed : WellFormed t'
  sub : Within t' t
  same : ∀ v, (∀ place e, t.find cwd p .keep = .ok (place, e) → ¬ place <+: v) →
    t'.get? v = t.get? v
  gone : ∀ d, t'.find cwd p ≠ .ok (d, .dir)

theorem erase_sub (hplace : place ≠ []) : Within (t.erase place) t := by
  intro v e h
  rw [get?_erase hplace] at h
  split at h
  · cases h
  · exact h

theorem clear_sub : Within (t.clear place) t := fun _ _ =>
  get?_restrict_le fun v => v == place || !place.isPrefixOf v

/-- A directory is found also without following a last link, unless that is what is found. -/
theorem find_keep_ne_error {f : OsError} (h : t.find cwd p = .ok (v, .dir)) :
    t.find cwd p .keep ≠ .error f := by
  obtain ⟨hpath, left, henters⟩ := find_dir_iff.mp h
  obtain ⟨spot, hwalk, harrive⟩ := henters.exists_arrive isBlind_keep p.endsInSlash
  rw [find_eq, locate_eq_ok.mpr ⟨hpath, hwalk⟩]
  change t.arrive spot ≠ .error f
  rcases harrive with hdir | ⟨-, v, target, hlink⟩
  · rw [hdir]
    simp
  · rw [hlink]
    simp

/-- The entry that the path names is removed with everything below it. -/
theorem LastIn.removed (ht : WellFormed t) (h : LastIn t cwd p d n)
    (hfind : t.find cwd p .keep = .ok (d ++ [n], e)) : Removed t (t.erase (d ++ [n])) cwd p where
  wellFormed := ht.erase _
  sub := erase_sub (by simp)
  same v hv := by rw [get?_erase (by simp), if_neg (hv _ _ hfind)]
  gone v hv := by
    obtain ⟨-, left, henters⟩ := find_dir_iff.mp hv
    refine h.get?_ne_none (erase_sub (by simp)) henters ?_
    rw [get?_erase (by simp), if_pos prefix_rfl]

/-- **A removal that succeeds, or finds nothing**, leaves no directory. -/
theorem removeTree_removed (ht : WellFormed t) {r : Except OsError Unit}
    (h : t.removeTree cwd p = (r, t')) (hr : r = .ok () ∨ r = .error .noEntry) :
    Removed t t' cwd p := by
  unfold removeTree at h
  split at h
  · rename_i f hfind
    cases h
    exact ⟨ht, fun _ _ => id, fun _ _ => rfl, fun d hd => find_keep_ne_error hd hfind⟩
  · rename_i place hfind
    dsimp only at h
    split at h
    · rename_i t₁ hremove
      cases h
      obtain ⟨d, n, hlast, hget, rfl⟩ := removeDir_eq_ok hremove
      -- the path leads to the same directory before it is emptied and after
      have hplace := (find_mono clear_sub (hlast.find_dir hget)).symm.trans (find_dir_of_keep hfind)
      obtain ⟨rfl, -⟩ := Prod.mk.inj (Except.ok.inj hplace)
      refine ⟨(ht.clear _).erase _, fun v e hv => clear_sub v e (erase_sub (by simp) v e hv),
        fun v hv => ?_, fun v hv => ?_⟩
      · rw [get?_erase (by simp), if_neg (hv _ _ hfind), get?_clear_of_not_isPrefix (hv _ _ hfind)]
      · obtain ⟨-, left, henters⟩ := find_dir_iff.mp hv
        refine hlast.get?_ne_none (erase_sub (by simp)) henters ?_
        rw [get?_erase (by simp), if_pos prefix_rfl]
    · rename_i f hremove
      split at h
      · rename_i hnoEntry
        cases h
        subst hnoEntry
        refine ⟨ht.clear _, clear_sub, fun v hv => get?_clear_of_not_isPrefix (hv _ _ hfind),
          fun v hv => ?_⟩
        obtain ⟨hpath, left, henters⟩ := find_dir_iff.mp hv
        exact henters.removeDir_ne_noEntry hpath hremove
      · rename_i hother
        cases h
        simp [hother] at hr
  · rename_i place target hfind
    obtain ⟨d, n, hlast, rfl, hget⟩ := exists_lastIn_of_link hfind
    rw [unlink_of_link hlast hget] at h
    split at h
    · cases h
      exact absurd hr (by decide)
    · cases h
      exact hlast.removed ht hfind
  · cases h
    exact absurd hr (by decide)

/-! ## Copies -/

theorem locate_make_of_lastIn (h : LastIn t cwd p d n) (hslash : p.endsInSlash = false)
    (hget : ∀ target, t.get? (d ++ [n]) ≠ some (.link target)) :
    t.locate cwd p .make = .ok ⟨d, .name n, false⟩ := by
  obtain ⟨init, left, hsteps, henters⟩ := h.enters
  rw [locate_eq_ok, hsteps, henters.walk_append (cons_ne_nil _ _), hslash]
  exact ⟨h.isPath, walk_name_stops rfl h.goesDown fun target hlink => absurd hlink (hget target)⟩

/-- A file that is found at the entry that the path names. -/
theorem find_of_lastIn (h : LastIn t cwd p d n) (hslash : p.endsInSlash = false)
    (hget : t.get? (d ++ [n]) = some e) (hlink : ∀ target, e ≠ .link target) :
    t.find cwd p = .ok (d ++ [n], e) := by
  obtain ⟨init, left, hsteps, henters⟩ := h.enters
  refine (find_eq_ok isBlind_follow).mpr ⟨h.isPath, ⟨d, .name n, false⟩, ?_, ?_⟩
  · rw [hsteps, hslash]
    refine .stops henters h.goesDown fun target htarget => ?_
    rw [hget] at htarget
    exact absurd (Option.some.inj htarget) (hlink target)
  · exact arrive_name_eq_ok.mpr ⟨rfl, hget, nofun⟩

/-- A file that is written where nothing stands is made first. -/
theorem write_eq_ok {data : Bytes} (h : t.write cwd q data = .ok t') (hlast : LastIn t cwd q d n)
    (hslash : q.endsInSlash = false) (hnone : t.get? (d ++ [n]) = none) :
    t.get? d = some .dir ∧
      t' = (t.put (d ++ [n]) (.file [] plainMode)).put (d ++ [n]) (.file data plainMode) := by
  have hlocate := locate_make_of_lastIn hlast hslash (by simp [hnone])
  obtain ⟨⟨place, t₁⟩, htouch, hput⟩ := ok_of_bind h
  obtain ⟨spot, hspot, hrest⟩ := ok_of_bind htouch
  obtain rfl := Except.ok.inj (hspot.symm.trans hlocate)
  have hplace : (Spot.mk d (.name n) false).place = d ++ [n] := rfl
  simp only [hplace, hnone] at hrest
  obtain ⟨t₂, hinsert, hpair⟩ := ok_of_bind hrest
  obtain ⟨rfl, rfl⟩ := Prod.mk.inj (Except.ok.inj hpair)
  rw [insert, dropLast_concat] at hinsert
  split at hinsert
  · rename_i hdir
    cases hinsert
    have hself : (t.put (d ++ [n]) (.file [] plainMode)).get? (d ++ [n]) =
      some (.file [] plainMode) := get?_put_self (by simp)
    simp only [hself] at hput
    exact ⟨hdir, (Except.ok.inj hput).symm⟩
  · cases hinsert

/-- **What a copy that succeeds did**: a file was written, and has got the permissions of the one that
was copied. -/
theorem exists_write_of_copy (h : t.copy cwd p q = .ok t') :
    ∃ v content mode t₁, t.find cwd p = .ok (v, .file content mode) ∧
      t.write cwd q content = .ok t₁ ∧
      ((∃ place found old, t₁.find cwd q = .ok (place, .file found old) ∧
          t' = t₁.put place (.file found mode)) ∨
        (∀ place found old, t₁.find cwd q ≠ .ok (place, .file found old)) ∧ t' = t₁) := by
  unfold copy at h
  split at h
  · cases h
  · rename_i v content mode hfind
    split at h
    · cases h
    rename_i t₁ hwrite
    refine ⟨v, content, mode, t₁, hfind, hwrite, ?_⟩
    split at h
    · rename_i place found old hfound
      cases h
      exact .inl ⟨place, found, old, hfound, rfl⟩
    · rename_i hother
      cases h
      exact .inr ⟨hother, rfl⟩
  · cases h

/-- **A copy to where nothing stands** is the file that was copied, with its permissions. -/
theorem copy_eq_ok (ht : WellFormed t) (h : t.copy cwd p q = .ok t') (hlast : LastIn t cwd q d n)
    (hslash : q.endsInSlash = false) (hnone : t.get? (d ++ [n]) = none) :
    ∃ content mode, (∃ v, t.find cwd p = .ok (v, .file content mode)) ∧ WellFormed t' ∧
      t'.get? (d ++ [n]) = some (.file content mode) ∧
      ∀ w, w ≠ d ++ [n] → t'.get? w = t.get? w := by
  have hne : d ++ [n] ≠ [] := by simp
  obtain ⟨v, content, mode, t₁, hfind, hwrite, hmode⟩ := exists_write_of_copy h
  obtain ⟨hdir, rfl⟩ := write_eq_ok hwrite hlast hslash hnone
  have hsame : ∀ (f g : Entry) w, w ≠ d ++ [n] →
      ((t.put (d ++ [n]) f).put (d ++ [n]) g).get? w = t.get? w := fun f g w hw => by
    rw [get?_put_of_ne hw, get?_put_of_ne hw]
  have hsub := within_of_same hnone (hsame (.file [] plainMode) (.file content plainMode))
  have hfound := find_of_lastIn (hlast.mono hsub) hslash (get?_put_self hne) (by simp)
  obtain ⟨place, found, old, hfound', rfl⟩ | ⟨hother, -⟩ := hmode
  · obtain ⟨rfl, ⟨⟩⟩ := Prod.mk.inj (Except.ok.inj (hfound.symm.trans hfound'))
    refine ⟨content, mode, ⟨v, hfind⟩, ?_, get?_put_self hne, fun w hw => ?_⟩
    · have hfits := hlast.goesDown.fits
      have h₁ := ht.put hdir hlast.isName hfits (by simp [hnone]) (.file [] plainMode)
      have h₂ := h₁.put_put hdir hlast.isName hfits (by simp) (.file content plainMode)
      exact h₂.put_put (by rwa [get?_put_of_ne (by simp)]) hlast.isName hfits (by simp) _
    · rw [get?_put_of_ne hw, hsame _ _ w hw]
  · exact absurd hfound (hother _ _ _)

/-! ## What stays where it is -/

theorem Stands.refl (t : FileTree) : Stands t t := fun _ _ h _ => h

theorem Stands.trans {t₁ : FileTree} (h : Stands t t₁) (h' : Stands t₁ t') : Stands t t' :=
  fun v e hv hfile => h' v e (h v e hv hfile) hfile

theorem stands_put (h : ∀ f, t.get? place = some f → ∃ content mode, f = .file content mode)
    (e : Entry) : Stands t (t.put place e) := by
  intro v f hv hfile
  rw [get?_put_of_ne, hv]
  rintro rfl
  obtain ⟨content, mode, rfl⟩ := h f hv
  exact hfile content mode rfl

theorem create_stands (h : t.create cwd p e = .ok t') : Stands t t' := by
  obtain ⟨d, n, -, hnone, -, rfl⟩ := create_eq_ok h
  exact stands_put (by simp [hnone]) e

theorem get?_of_arrive (h : t.arrive spot = .ok (v, e)) : e = .dir ∨ t.get? v = some e := by
  obtain ⟨d, ending, slash⟩ := spot
  cases ending with
  | name n =>
    obtain ⟨rfl, hget, -⟩ := arrive_name_eq_ok.mp h
    exact .inr hget
  | root | here | up =>
    cases h
    exact .inl rfl

theorem touch_stands (h : t.touch cwd p = .ok (v, t')) : Stands t t' := by
  obtain ⟨spot, -, hrest⟩ := ok_of_bind h
  split at hrest
  · split at hrest
    · rename_i hnone
      obtain ⟨t₁, hinsert, hpair⟩ := ok_of_bind hrest
      cases hpair
      unfold insert at hinsert
      split at hinsert
      · cases hinsert
        exact stands_put (by simp [hnone]) _
      · cases hinsert
    · cases hrest
    · cases hrest
    · cases hrest
      exact .refl t
  · cases hrest

theorem write_stands {data : Bytes} (h : t.write cwd p data = .ok t') : Stands t t' := by
  obtain ⟨⟨place, t₁⟩, htouch, hput⟩ := ok_of_bind h
  dsimp only at hput
  split at hput
  · rename_i content mode hget
    cases hput
    refine (touch_stands htouch).trans (stands_put (fun f hf => ?_) _)
    rw [hget] at hf
    exact ⟨content, mode, (Option.some.inj hf).symm⟩
  · cases hput
    exact touch_stands htouch

/-- **A copy replaces nothing but files.** -/
theorem copy_stands (h : t.copy cwd p q = .ok t') : Stands t t' := by
  obtain ⟨_, _, _, t₁, -, hwrite, ⟨place, found, old, hfind, rfl⟩ | ⟨-, rfl⟩⟩ :=
    exists_write_of_copy h
  · refine (write_stands hwrite).trans (stands_put (fun f hf => ?_) _)
    obtain ⟨-, spot, -, harrive⟩ := (find_eq_ok isBlind_follow).mp hfind
    rcases get?_of_arrive harrive with hdir | hget
    · cases hdir
    · rw [hget] at hf
      exact ⟨found, old, (Option.some.inj hf).symm⟩
  · exact write_stands hwrite

/-! ## Copies that fail -/

theorem isPath_of_copy (h : t.copy cwd p q = .ok t') : IsPath q := by
  obtain ⟨_, _, _, t₁, -, hwrite, -⟩ := exists_write_of_copy h
  obtain ⟨found, htouch, -⟩ := ok_of_bind hwrite
  obtain ⟨spot, hlocate, -⟩ := ok_of_bind htouch
  exact (locate_eq_ok.mp hlocate).1

theorem slash_of_locate_make (hslash : q.endsInSlash = true) (h : t.locate cwd q .make = .ok spot) :
    spot.slash = true := by
  obtain ⟨-, hwalk⟩ := locate_eq_ok.mp h
  rw [hslash] at hwalk
  rcases eq_nil_or_concat q.steps with hnil | ⟨init, m, hsteps⟩
  · rw [hnil] at hwalk
    cases hwalk
    rfl
  rw [hsteps, concat_eq_append] at hwalk
  obtain ⟨left, d, -, hlast⟩ := exists_enters (cons_ne_nil _ _) hwalk
  by_cases hdot : m = [dot]
  · subst hdot
    rw [walk_last_here] at hlast
    cases hlast
    rfl
  by_cases hup : m = [dot, dot]
  · subst hup
    rw [walk_last_up] at hlast
    cases hlast
    rfl
  rw [walk, walkBy, if_neg hdot, if_neg hup] at hlast
  cases hlast
  rfl

/-- Nothing is copied to a path with a separator at its end. -/
theorem copy_ne_ok (hslash : q.endsInSlash = true) : t.copy cwd p q ≠ .ok t' := by
  intro h
  obtain ⟨_, _, _, t₁, -, hwrite, -⟩ := exists_write_of_copy h
  obtain ⟨found, htouch, -⟩ := ok_of_bind hwrite
  obtain ⟨spot, hlocate, hrest⟩ := ok_of_bind htouch
  rw [slash_of_locate_make hslash hlocate] at hrest
  split at hrest
  · rename_i heq
    cases heq
  · cases hrest

end Judge.FileTree
