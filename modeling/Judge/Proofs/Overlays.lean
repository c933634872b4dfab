import Judge.Proofs.Fixtures
import Judge.Proofs.Launches
import Judge.Proofs.MadeDirectories

/-!
# Proofs/Overlays — a fixture in a new directory

While a fixture is copied, what has been copied already is in the way of nothing: a `Stage` has the
new directory where it is and everything else as it was, so the fixture is read as it was in the
beginning.  By induction on the depth, what is copied shows what the fixture shows at the same names
(`copiesEntries`, `copyDir_spec`).  Links are made one for each name (`linkAll_spec`).
-/

namespace Judge.RunDirectory

open List
open FileTree Program
open Judge.Path (dot IsName)

variable {t s s' base : FileTree} {cwd place d : Place} {fixture dst p : Path} {n : Bytes}
  {rel : List Bytes}

/-! ## Taking the program apart -/

variable {target : Path} {ancestors : List (Path × Place)} {depth : Nat} {names : List Bytes}

theorem run_copyFile (h : (copyFile p target).run.run (onTree cwd) s = some (.ok (), s')) :
    s.copy cwd p target = .ok s' := by
  obtain ⟨b, s₁, hfile, h⟩ := run_act_bind_eq_ok h
  obtain rfl := run_isFile (run_ofProgram_eq_ok hfile)
  cases b with
  | true => exact settled_eq_ok (run_onTree_eq (run_orElse_eq_ok h))
  | false =>
    obtain ⟨data, s₂, -, h⟩ := run_act_bind_eq_ok h
    cases h

theorem run_checkLoop {u : Unit}
    (h : (checkLoop fixture p ancestors place).run.run (onTree cwd) s = some (.ok u, s')) :
    s' = s := by
  unfold checkLoop at h
  split at h
  · exact (Prod.mk.inj (Option.some.inj h)).2.symm
  · cases h

/-- **What a copy that succeeds did**: a directory was made and filled, or a file was copied. -/
theorem run_copyEntry
    (h : (copyEntry fixture depth ancestors p target).run.run (onTree cwd) s = some (.ok (), s')) :
    ∃ j, depth = j + 1 ∧
      ((∃ above names s₁, (∃ d, s.find cwd p = .ok (d, .dir)) ∧
          (makeDirAll target).run (onTree cwd) s = some (.ok (), s₁) ∧
          s₁.list cwd p = .ok names ∧
          (copyAll (copyEntry fixture j above) p target names).run.run (onTree cwd) s₁ = some (.ok (), s')) ∨
        s.copy cwd p target = .ok s') := by
  cases depth with
  | zero =>
    rw [copyEntry] at h
    cases h
  | succ j =>
    refine ⟨j, rfl, ?_⟩
    rw [copyEntry] at h
    obtain ⟨own, s₁, hown, h₁⟩ := run_act_bind_eq_ok h
    obtain ⟨-, rfl⟩ := run_look rfl (run_orElse_eq_ok hown)
    obtain ⟨kind, s₂, hkind, h₂⟩ := run_act_bind_eq_ok h₁
    obtain ⟨hkind', rfl⟩ := run_look rfl (run_orElse_eq_ok hkind)
    obtain ⟨v, e, hfind, rfl⟩ := kind_eq_ok hkind'
    by_cases hdir : (FileKind.ofEntry e).isDir = true
    · rw [if_pos hdir] at h₂
      obtain rfl := isDir_ofEntry hdir
      obtain ⟨place, s₃, hplace, h₃⟩ := run_act_bind_eq_ok h₂
      obtain ⟨-, rfl⟩ := run_look rfl (run_orElse_eq_ok hplace)
      have hrest : (do
          Act.ofSystem (makeDirAll target)
          let names ← Act.orElse (onFiles (.list p)) (walkRefusal fixture p)
          copyAll (copyEntry fixture j ((p, place) :: ancestors)) p target names : Act Unit).run.run
            (onTree cwd) s₃ = some (.ok (), s') := by
        split at h₃
        · obtain ⟨u, s₄, hloop, h₄⟩ := run_act_bind_eq_ok h₃
          obtain rfl := run_checkLoop hloop
          exact h₄
        · exact h₃
      obtain ⟨u, s₄, hmake, h₅⟩ := run_act_bind_eq_ok hrest
      obtain ⟨names, s₅, hlist, hcopy⟩ := run_act_bind_eq_ok h₅
      obtain ⟨hlist', rfl⟩ := run_look rfl (run_orElse_eq_ok hlist)
      exact .inl ⟨_, names, _, ⟨v, hfind⟩, run_orElse_eq_ok hmake, hlist', hcopy⟩
    · rw [if_neg hdir] at h₂
      exact .inr (run_copyFile h₂)

/-! ## Copies -/

/-- **A stage of building**: `dst` leads to `place`, and nothing has changed outside of it since
`base`. -/
structure Stage (base s : FileTree) (cwd : Place) (dst : Path) (place : Place) : Prop where
  wellFormed : WellFormed s
  same : ∀ v, ¬ place <+: v → s.get? v = base.get? v
  enters : ∃ left, Enters s maxLinks (origin dst cwd) dst.steps left place

/-- **What is at `rel` in the fixture has been copied** from one stage to another. -/
structure Copied (t s s' : FileTree) (cwd : Place) (fixture : Path) (place rel : Place) : Prop where
  wellFormed : WellFormed s'
  same : ∀ v, ¬ place ++ rel <+: v → s'.get? v = s.get? v
  shows : ∀ more, (∀ n ∈ more, IsName n) →
    s'.get? (place ++ rel ++ more) = t.seen cwd (fixture.under (rel ++ more))

theorem steps_target (hdst : dst.text ≠ []) (hrel : ∀ n ∈ rel, IsName n) :
    ((dst.join ⟨[]⟩).under rel).steps = dst.steps ++ rel := by
  rw [Path.steps_under (Path.join_ne_nil hdst) hrel, Path.steps_join_nil hdst]

theorem origin_target (hdst : dst.text ≠ []) (hrel : ∀ n ∈ rel, IsName n) :
    origin ((dst.join ⟨[]⟩).under rel) cwd = origin dst cwd := by
  rw [origin_under (Path.join_ne_nil hdst) hrel, origin, origin, Path.isAbsolute_join hdst rfl]

namespace Stage

section

variable (hs : Stage base s cwd dst place)

include hs

theorem enters_under (hdir : s.get? (place ++ rel) = some .dir) :
    ∃ left, Enters s maxLinks (origin dst cwd) (dst.steps ++ rel) left (place ++ rel) := by
  obtain ⟨left, henters⟩ := hs.enters
  refine ⟨left, henters.append (enters_names (fun n hn => ?_) fun above habove hne => ?_)⟩
  · exact hs.wellFormed.goesDown hdir n (mem_append_right place hn)
  · by_cases heq : above = rel
    · rwa [heq]
    · exact hs.wellFormed.dir_of_isPrefix hdir ((prefix_append_right_inj place).mpr habove)
        (by simpa using heq)

/-- Where nothing was, more is there afterwards. -/
theorem sub (hnone : s.get? (place ++ rel) = none)
    (h : Copied t s s' cwd fixture place rel) : Within s s' := by
  intro v e hv
  rw [h.same, hv]
  rintro ⟨more, rfl⟩
  have hbelow : s.get? (place ++ rel ++ more) = none := by
    by_cases hmore : more = []
    · rwa [hmore, append_nil]
    · exact hs.wellFormed.get?_append_eq_none (by simp [hnone]) hmore
  rw [hbelow] at hv
  cases hv

theorem next (hnone : s.get? (place ++ rel) = none)
    (h : Copied t s s' cwd fixture place rel) : Stage base s' cwd dst place where
  wellFormed := h.wellFormed
  same v hv := by
    rw [h.same v fun hbelow => hv ((prefix_append place rel).trans hbelow), hs.same v hv]
  enters := by
    obtain ⟨left, henters⟩ := hs.enters
    exact ⟨left, henters.mono (hs.sub hnone h)⟩

/-- What is below the run directory stands in the directory above it. -/
theorem lastIn (hdst : dst.text ≠ [])
    (hnames : ∀ m ∈ rel ++ [n], IsName m) (hfits : n.length ≤ maxName)
    (hdir : s.get? (place ++ rel) = some .dir)
    (hpath : IsPath ((dst.join ⟨[]⟩).under (rel ++ [n]))) :
    LastIn s cwd ((dst.join ⟨[]⟩).under (rel ++ [n])) (place ++ rel) n := by
  have hn : IsName n := hnames n (by simp)
  obtain ⟨left, henters⟩ := hs.enters_under hdir
  refine ⟨hpath, ⟨hn.notHere, hn.notUp, hfits⟩, dst.steps ++ rel, left, ?_,
    origin_target hdst hnames ▸ henters⟩
  rw [steps_target hdst hnames, append_assoc]

/-- **A directory is made** below the run directory, and nothing else. -/
theorem makeDir (hdst : dst.text ≠ [])
    (hup : [dot, dot] ∉ dst.steps) (hnames : ∀ m ∈ rel ++ [n], IsName m)
    (hfits : n.length ≤ maxName) (hdir : s.get? (place ++ rel) = some .dir)
    (hnone : s.get? (place ++ (rel ++ [n])) = none)
    (hrun : (makeDirAll ((dst.join ⟨[]⟩).under (rel ++ [n]))).run (onTree cwd) s =
      some (.ok (), s')) :
    WellFormed s' ∧ s'.get? (place ++ (rel ++ [n])) = some .dir ∧
      ∀ v, v ≠ place ++ (rel ++ [n]) → s'.get? v = s.get? v := by
  have hup' : [dot, dot] ∉ ((dst.join ⟨[]⟩).under (rel ++ [n])).steps := by
    rw [steps_target hdst hnames]
    exact fun hmem => (mem_append.mp hmem).elim hup fun hmem => (hnames _ hmem).notUp rfl
  rw [← append_assoc] at hnone ⊢
  rcases makeDirs_spec hs.wellFormed (Path.under_ne_nil (Path.join_ne_nil hdst) _) hup' hrun with
    ⟨rfl, d, hfound⟩ | ⟨v, hmade⟩
  · obtain ⟨hpath, left, henters⟩ := find_dir_iff.mp hfound
    exact absurd hnone
      ((hs.lastIn hdst hnames hfits hdir hpath).get?_ne_none (fun _ _ => id) henters)
  obtain ⟨hpath, left, henters⟩ := find_dir_iff.mp hmade.found
  have hlast := (hs.lastIn hdst hnames hfits hdir hpath).mono hmade.sub
  have hnew : s'.get? (place ++ rel ++ [n]) = some .dir := by
    rcases hmade.grown (place ++ rel ++ [n]) with hsame | ⟨-, -, hnew⟩
    · exact absurd (hsame.trans hnone) (hlast.get?_ne_none (fun _ _ => id) henters)
    · exact hnew
  obtain ⟨rfl, -⟩ := Prod.mk.inj (Except.ok.inj ((hlast.find_dir hnew).symm.trans hmade.found))
  refine ⟨hmade.wellFormed, hnew, fun v hv => ?_⟩
  rcases hmade.grown v with hsame | ⟨habove, hmissing, -⟩
  · exact hsame
  · -- above the new directory nothing was missing
    rcases prefix_concat_iff.mp habove with heq | habove
    · exact absurd heq hv
    · by_cases heq : v = place ++ rel
      · rw [heq, hdir] at hmissing
        cases hmissing
      · rw [hs.wellFormed.dir_of_isPrefix hdir habove heq] at hmissing
        cases hmissing

end

end Stage

/-- Copies of single entries, as deep as `depth` allows, show what is in the fixture. -/
def CopiesEntries (t base : FileTree) (cwd : Place) (fixture dst : Path) (place : Place)
    (depth : Nat) : Prop :=
  ∀ {ancestors : List (Path × Place)} {rel : List Bytes} {n : Bytes} {s s' : FileTree},
    (∀ m ∈ rel ++ [n], IsName m) → n.length ≤ maxName → Stage base s cwd dst place →
    s.get? (place ++ rel) = some .dir → s.get? (place ++ (rel ++ [n])) = none →
    (copyEntry fixture depth ancestors (fixture.under (rel ++ [n]))
      ((dst.join ⟨[]⟩).under (rel ++ [n]))).run.run (onTree cwd) s = some (.ok (), s') →
    Copied t s s' cwd fixture place (rel ++ [n])

theorem not_isPrefix_of_ne {m : Bytes} (h : m ≠ n) (v more : Place) :
    ¬ v ++ [m] <+: v ++ [n] ++ more := by
  rw [append_assoc, prefix_append_right_inj, singleton_append,
    cons_prefix_cons]
  exact fun hprefix => h hprefix.1

/-- **The entries of a directory are copied one after the other**, and none touches another. -/
theorem copyAll_spec (hentry : CopiesEntries t base cwd fixture dst place depth)
    (hnodup : names.Nodup) (hrel : ∀ n ∈ rel, IsName n)
    (hnames : ∀ n ∈ names, IsName n ∧ n.length ≤ maxName) (hs : Stage base s cwd dst place)
    (hdir : s.get? (place ++ rel) = some .dir)
    (hnone : ∀ n ∈ names, s.get? (place ++ (rel ++ [n])) = none)
    (hrun : (copyAll (copyEntry fixture depth ancestors) (fixture.under rel) ((dst.join ⟨[]⟩).under rel)
      names).run.run (onTree cwd) s = some (.ok (), s')) :
    WellFormed s' ∧
      (∀ v, (∀ n ∈ names, ¬ place ++ (rel ++ [n]) <+: v) → s'.get? v = s.get? v) ∧
      ∀ n ∈ names, ∀ more, (∀ m ∈ more, IsName m) →
        s'.get? (place ++ (rel ++ [n]) ++ more) = t.seen cwd (fixture.under (rel ++ [n] ++ more)) := by
  induction names generalizing s with
  | nil =>
    rw [copyAll] at hrun
    cases hrun
    exact ⟨hs.wellFormed, fun _ _ => rfl, by simp⟩
  | cons n names ih =>
    obtain ⟨hnotMem, hnodup⟩ := nodup_cons.mp hnodup
    obtain ⟨⟨hn, hfits⟩, hnames'⟩ := forall_mem_cons.mp hnames
    obtain ⟨hnone₁, hnone'⟩ := forall_mem_cons.mp hnone
    rw [copyAll, ← Path.under_concat, ← Path.under_concat] at hrun
    obtain ⟨u, s₁, hfirst, hrest⟩ := run_act_bind_eq_ok hrun
    have hall : ∀ m ∈ rel ++ [n], IsName m := by simpa [or_imp, forall_and] using ⟨hrel, hn⟩
    have hcopied := hentry hall hfits hs hdir hnone₁ hfirst
    have hother : ∀ m ∈ names, ∀ more, ¬ place ++ (rel ++ [m]) <+: place ++ (rel ++ [n]) ++ more := by
      intro m hm more
      have hne : m ≠ n := fun heq => hnotMem (heq ▸ hm)
      rw [← append_assoc, ← append_assoc]
      exact not_isPrefix_of_ne hne (place ++ rel) more
    obtain ⟨hwf, hsame, hshows⟩ := ih hnodup hnames' (hs.next hnone₁ hcopied)
      (hs.sub hnone₁ hcopied _ _ hdir)
      (fun m hm => by
        rw [hcopied.same, hnone' m hm]
        have hne : n ≠ m := fun heq => hnotMem (heq ▸ hm)
        have hnot := not_isPrefix_of_ne hne (place ++ rel) []
        rwa [append_nil, append_assoc, append_assoc] at hnot)
      hrest
    refine ⟨hwf, fun v hv => ?_, fun m hm more hmore => ?_⟩
    · obtain ⟨hv₁, hv₂⟩ := forall_mem_cons.mp hv
      rw [hsame v hv₂, hcopied.same v hv₁]
    · rcases mem_cons.mp hm with rfl | hm
      · rw [hsame _ fun m hm => hother m hm more]
        exact hcopied.shows more hmore
      · exact hshows m hm more hmore

/-- **A new directory is filled** with what its fixture directory shows. -/
theorem copyDir_spec (hentry : CopiesEntries t base cwd fixture dst place depth)
    (hkeeps : Keeps t s cwd fixture) (hfixture : fixture.text ≠ []) (hrel : ∀ n ∈ rel, IsName n)
    (hs : Stage base s cwd dst place) (hdir : s.get? (place ++ rel) = some .dir)
    (hempty : ∀ more, more ≠ [] → s.get? (place ++ rel ++ more) = none)
    (hlist : s.list cwd (fixture.under rel) = .ok names)
    (hrun : (copyAll (copyEntry fixture depth ancestors) (fixture.under rel) ((dst.join ⟨[]⟩).under rel)
      names).run.run (onTree cwd) s = some (.ok (), s')) : Copied t s s' cwd fixture place rel := by
  obtain ⟨d, hd, rfl⟩ := list_eq_ok hlist
  have hd' := (hkeeps.find hrel isBlind_follow).symm.trans hd
  obtain ⟨hwf, hsame, hshows⟩ := copyAll_spec hentry (hs.wellFormed.nodup_children d) hrel
    (fun _ => hs.wellFormed.isName_of_mem_children) hs hdir
    (fun n _ => append_assoc place rel [n] ▸ hempty [n] (cons_ne_nil n [])) hrun
  refine ⟨hwf, fun v hv => hsame v fun n _ hbelow => hv ?_, fun more hmore => ?_⟩
  · rw [← append_assoc] at hbelow
    exact (prefix_append (place ++ rel) [n]).trans hbelow
  cases more with
  | nil =>
    rw [append_nil, append_nil, seen_of_find hd', hsame _ fun n _ hbelow => ?_, hdir]
    have hlength := hbelow.length_le
    simp at hlength
  | cons n more =>
    obtain ⟨hn, hmore⟩ := forall_mem_cons.mp hmore
    by_cases hmem : n ∈ s.children d
    · have hshown := hshows n hmem more hmore
      simpa using hshown
    · have hmissing : t.get? (d ++ [n]) = none := by
        rw [← hkeeps.get?_child hfixture hrel hn hd']
        exact Option.not_isSome_iff_eq_none.mp (mt mem_children_iff.mpr hmem)
      rw [seen_missing hfixture (by simpa [or_imp, forall_and] using ⟨hrel, hn, hmore⟩) hd' hmissing,
        hsame _ fun m hm hbelow => ?_, hempty _ (cons_ne_nil n more)]
      have hne : m ≠ n := fun heq => hmem (heq ▸ hm)
      rw [← append_assoc, append_cons (place ++ rel) n more] at hbelow
      exact not_isPrefix_of_ne hne (place ++ rel) more hbelow

/-- **Every entry of a fixture is copied as it is seen**, as deep as it goes. -/
theorem copiesEntries (hdst : dst.text ≠ []) (hup : [dot, dot] ∉ dst.steps)
    (hfixture : fixture.text ≠ [])
    (hkeeps : ∀ s, (∀ v, ¬ place <+: v → s.get? v = base.get? v) → Keeps t s cwd fixture)
    (depth : Nat) : CopiesEntries t base cwd fixture dst place depth := by
  induction depth with
  | zero =>
    intro ancestors rel n s s' _ _ _ _ _ hrun
    obtain ⟨j, hj, -⟩ := run_copyEntry hrun
    cases hj
  | succ depth ih =>
    intro ancestors rel n s s' hnames hfits hs hdir hnone hrun
    have hn : IsName n := hnames n (by simp)
    have hfind := (hkeeps s hs.same).find hnames isBlind_follow
    obtain ⟨j, hj, ⟨above, names, s₁, -, hmake, hlist, hcopy⟩ | hcopy⟩ := run_copyEntry hrun
    · obtain rfl := Nat.succ.inj hj
      obtain ⟨hwf, hmade, hsame⟩ := hs.makeDir hdst hup hnames hfits hdir hnone hmake
      have hs₁ : Stage base s₁ cwd dst place := by
        obtain ⟨left, henters⟩ := hs.enters
        refine ⟨hwf, fun v hv => ?_, left, henters.mono (within_of_same hnone hsame)⟩
        rw [hsame, hs.same v hv]
        rintro rfl
        exact hv (prefix_append _ _)
      have hempty : ∀ more, more ≠ [] → s₁.get? (place ++ (rel ++ [n]) ++ more) = none := by
        intro more hmore
        rw [hsame _ (by simpa using hmore)]
        exact hs.wellFormed.get?_append_eq_none (by simp [hnone]) hmore
      have hcopied := copyDir_spec ih (hkeeps s₁ hs₁.same) hfixture hnames hs₁ hmade hempty hlist
        hcopy
      refine ⟨hcopied.wellFormed, fun v hv => ?_, hcopied.shows⟩
      rw [hcopied.same v hv, hsame]
      rintro rfl
      exact hv prefix_rfl
    · have hlast := hs.lastIn hdst hnames hfits hdir (isPath_of_copy hcopy)
      have hslash : ((dst.join ⟨[]⟩).under (rel ++ [n])).endsInSlash = false := by
        rw [Path.under_concat]
        exact Path.endsInSlash_join _ hn
      obtain ⟨content, mode, ⟨v, hfile⟩, hwf, hget, hsame⟩ :=
        copy_eq_ok hs.wellFormed hcopy hlast hslash (by rwa [append_assoc])
      rw [hfind] at hfile
      rw [append_assoc] at hget hsame
      refine ⟨hwf, fun v hv => hsame v ?_, fun more hmore => ?_⟩
      · rintro rfl
        exact hv prefix_rfl
      · cases more with
        | nil => rw [append_nil, append_nil, hget, seen_of_find hfile]
        | cons m more =>
          rw [seen_below hfixture (forall_mem_append.mpr ⟨hnames, hmore⟩) hfile (by simp)]
          exact hwf.get?_append_eq_none (by simp [hget]) (cons_ne_nil m more)

/-! ## Links -/

/-- **A link is made for each name**, in the directory that `dst` leads to. -/
theorem linkAll_spec {source : Path} (hdst : dst.text ≠ []) (hnames : ∀ n ∈ names, IsName n)
    (hs : WellFormed s) (henters : ∃ left, Enters s maxLinks (origin dst cwd) dst.steps left place)
    (hrun : (linkAll source dst names).run.run (onTree cwd) s = some (.ok (), s')) :
    (∀ v, (∀ n ∈ names, v ≠ place ++ [n]) → s'.get? v = s.get? v) ∧
      ∀ n ∈ names, s'.get? (place ++ [n]) = some (.link (source.join ⟨n⟩)) := by
  induction names generalizing s with
  | nil =>
    cases hrun
    exact ⟨fun _ _ => rfl, by simp⟩
  | cons n names ih =>
    obtain ⟨hn, hnames⟩ := forall_mem_cons.mp hnames
    obtain ⟨u, s₁, hlink, hrest⟩ := run_act_bind_eq_ok hrun
    have hcreate := symlink_eq_ok (settled_eq_ok (run_onTree_eq (run_orElse_eq_ok hlink)))
    obtain ⟨d, m, hlast, hnone, hdir, rfl⟩ := create_eq_ok hcreate
    obtain ⟨left, henters⟩ := henters
    obtain ⟨init, left', hsteps, hinit⟩ := hlast.enters
    rw [Path.steps_join hdst hn] at hsteps
    obtain ⟨rfl, hm⟩ := append_inj' hsteps rfl
    obtain rfl := singleton_inj.mp hm
    have horigin : origin (dst.join ⟨n⟩) cwd = origin dst cwd := by
      rw [origin, origin, Path.isAbsolute_join hdst (Path.isAbsolute_of_isName hn)]
    obtain rfl := (horigin ▸ hinit).unique henters
    have hsub : Within s (s.put (d ++ [n]) (.link (source.join ⟨n⟩))) :=
      within_of_same hnone fun _ => get?_put_of_ne
    obtain ⟨hsame, hlinks⟩ := ih hnames
      (hs.put hdir hlast.isName hlast.goesDown.fits (by simp [hnone]) _)
      ⟨left, henters.mono hsub⟩ hrest
    refine ⟨fun v hv => ?_, fun m hm => ?_⟩
    · obtain ⟨hv₁, hv₂⟩ := forall_mem_cons.mp hv
      rw [hsame v hv₂, get?_put_of_ne hv₁]
    · by_cases hmem : m ∈ names
      · exact hlinks m hmem
      · obtain rfl := (mem_cons.mp hm).resolve_right hmem
        rw [hsame _ fun k hk heq => hmem ?_, get?_put_self (by simp)]
        obtain rfl := singleton_inj.mp (append_cancel_left heq)
        exact hk

/-- **The absolute path of a fixture leads where its path leads**, without `..` in it. -/
theorem find_of_absolute (hs : WellFormed s) (hnames : ∀ n ∈ cwd, IsName n)
    (hcwd : fixture.isAbsolute = false → s.get? cwd = some .dir) (hup : [dot, dot] ∉ fixture.steps)
    (hpath : IsPath fixture)
    (h : s.find cwd (Path.absolute (.ofNames cwd) fixture) = .ok (d, .dir)) :
    s.find cwd fixture = .ok (d, .dir) := by
  have hstart : Enters s maxLinks [] (origin fixture cwd) maxLinks (origin fixture cwd) := by
    by_cases habsolute : fixture.isAbsolute = true
    · rw [origin, if_pos habsolute]
      exact .nil
    · have hdir := hcwd (Bool.eq_false_iff.mpr habsolute)
      rw [origin, if_neg habsolute]
      refine enters_names (hs.goesDown hdir) fun above habove hne => ?_
      by_cases heq : above = cwd
      · rwa [heq]
      · exact hs.dir_of_isPrefix hdir habove heq
  have hall : ∀ n ∈ origin fixture cwd ++ fixture.marks, IsName n := by
    refine forall_mem_append.mpr ⟨fun n hn => ?_, Path.isName_of_mem_marks hup⟩
    unfold origin at hn
    split at hn
    · cases hn
    · exact hnames n hn
  have habsolute : Path.absolute (.ofNames cwd) fixture =
      .ofNames (origin fixture cwd ++ fixture.marks) :=
    Path.absolute_ofNames hnames hup
  rw [habsolute] at h
  obtain ⟨-, left, henters⟩ := find_dir_iff.mp h
  rw [Path.steps_ofNames hall] at henters
  obtain ⟨left', d', hfirst, hrest⟩ := Enters.split henters
  obtain rfl := hfirst.unique hstart
  have hmore := hrest.more (maxLinks - left')
  rw [Nat.add_sub_cancel' hfirst.left_le] at hmore
  exact find_dir_iff.mpr ⟨hpath, _, enters_filter_iff.mp hmore⟩

/-! ## Nothing goes away -/

theorem settled_stands {r : Except OsError FileTree} (h : ∀ {t}, r = .ok t → Stands s t) :
    Stands s (s.settled r).2 := by
  cases r with
  | ok t => exact h rfl
  | error e => exact .refl s

theorem serve_stands {c : FileCall} (hc : (Call.file c).Builds) : Stands s (s.serve cwd c).2 := by
  cases c with
  | makeDir p => exact settled_stands create_stands
  | symlink target p => exact settled_stands fun h => create_stands (symlink_eq_ok h)
  | copy p q => exact settled_stands copy_stands
  | read | list | kind | linkKind | place => exact .refl s
  | _ => exact hc.elim

/-- **What takes nothing away leaves everything but files as it is.** -/
theorem stands_of_meets {α : Type} {prog : Program α} {R : α → Prop} {a : α}
    (hprog : prog.Meets Call.Builds R) (hrun : prog.run (onTree cwd) s = some (a, s')) :
    Stands s s' := by
  induction hprog generalizing s with
  | done =>
    cases hrun
    exact .refl _
  | @call c _ hc _ ih =>
    cases c with
    | file c => exact (serve_stands hc).trans (ih _ hrun)
    | _ => cases hrun

end Judge.RunDirectory
