import Judge.Files.Operations
import Judge.Proofs.PathNames

/-!
# Proofs/Walks — where a path leads in a tree

A walk is a recursion over the links and the steps that are left.  What it does is said by two
relations: `Enters` for the steps that lead through directories, which can be put together and taken
apart (`Enters.append`, `Enters.split`), and `Ends` for the last step.  A path finds a directory if
and only if its steps enter it (`find_dir_iff`).

Trees are compared by what stands in them.  Directories and links that stay are enough for a walk to
go on (`Enters.of_stands`), and what a path finds depends on nothing but the places that are looked
at on its way (`find_congr`).
-/

namespace Judge.FileTree

open List
open Judge.Path (dot)

variable {t t' : FileTree} {last : LastLink} {k left left' : Nat} {here d d' : Place} {slash : Bool}
  {step : Bytes} {steps rest : List Bytes} {spot : Spot} {target : Path}

/-! ## Steps -/

/-- A step that goes down: it is neither `.` nor `..`, and not too long. -/
structure GoesDown (step : Bytes) : Prop where
  ne_here : step ≠ [dot]
  ne_up : step ≠ [dot, dot]
  fits : step.length ≤ maxName

/-- Where a link starts from. -/
def origin (target : Path) (here : Place) : Place := if target.isAbsolute then [] else here

theorem walk_here (hrest : rest ≠ []) :
    walk t last k here slash ([dot] :: rest) = walk t last k here slash rest := by
  rw [walk, walkBy, if_pos rfl, if_neg (by simpa using hrest)]

theorem walk_up (hrest : rest ≠ []) :
    walk t last k here slash ([dot, dot] :: rest) = walk t last k here.dropLast slash rest := by
  rw [walk, walkBy, if_neg (by decide), if_pos rfl, if_neg (by simpa using hrest)]

theorem walk_dir (hstep : GoesDown step) (hrest : rest ≠ [])
    (hget : t.get? (here ++ [step]) = some .dir) :
    walk t last k here slash (step :: rest) = walk t last k (here ++ [step]) slash rest := by
  rw [walk, walkBy, if_neg hstep.ne_here, if_neg hstep.ne_up, if_neg (by simp [hrest]),
    if_neg (Nat.not_lt.mpr hstep.fits), hget]
  simp [hrest]

theorem walk_link (hstep : GoesDown step) (hrest : rest ≠ [])
    (hget : t.get? (here ++ [step]) = some (.link target)) :
    walk t last (k + 1) here slash (step :: rest) =
      walk t last k (origin target here) slash (target.steps ++ rest) := by
  rw [walk, walkBy, if_neg hstep.ne_here, if_neg hstep.ne_up, if_neg (by simp [hrest]),
    if_neg (Nat.not_lt.mpr hstep.fits), hget]
  have hmore : rest.isEmpty = false := isEmpty_eq_false_iff.mpr hrest
  simp only [hmore, Bool.false_and, Bool.or_false, Bool.false_eq_true, if_false, origin, pursue,
    walk]

/-! ## Directories on the way -/

/-- **A walk enters a directory**: from `here`, with `k` links to follow, the steps lead through
directories to `d`, and then `left` links are left. -/
inductive Enters (t : FileTree) : Nat → Place → List Bytes → Nat → Place → Prop
  | nil {k : Nat} {here : Place} : Enters t k here [] k here
  | here {k left : Nat} {here d : Place} {rest : List Bytes} :
      Enters t k here rest left d → Enters t k here ([dot] :: rest) left d
  | up {k left : Nat} {here d : Place} {rest : List Bytes} :
      Enters t k here.dropLast rest left d → Enters t k here ([dot, dot] :: rest) left d
  | dir {k left : Nat} {here d : Place} {step : Bytes} {rest : List Bytes} :
      GoesDown step → t.get? (here ++ [step]) = some .dir →
      Enters t k (here ++ [step]) rest left d → Enters t k here (step :: rest) left d
  | link {k left : Nat} {here d : Place} {step : Bytes} {rest : List Bytes} {target : Path} :
      GoesDown step → t.get? (here ++ [step]) = some (.link target) →
      Enters t k (origin target here) (target.steps ++ rest) left d →
      Enters t (k + 1) here (step :: rest) left d

/-- **A walk goes on from a directory that it entered.** -/
theorem Enters.walk_append (h : Enters t k here steps left d) (hrest : rest ≠ []) :
    walk t last k here slash (steps ++ rest) = walk t last left d slash rest := by
  induction h with
  | nil => rfl
  | here _ ih => rw [cons_append, walk_here (by simp [hrest]), ih]
  | up _ ih => rw [cons_append, walk_up (by simp [hrest]), ih]
  | dir hstep hget _ ih => rw [cons_append, walk_dir hstep (by simp [hrest]) hget, ih]
  | link hstep hget _ ih =>
    rw [cons_append, walk_link hstep (by simp [hrest]) hget, ← append_assoc, ih]

/-- What the walk of a step that goes down does before another one. -/
theorem walk_cons_eq_ok (hne : step ≠ [dot]) (hup : step ≠ [dot, dot]) (hrest : rest ≠ [])
    (h : walk t last k here slash (step :: rest) = .ok spot) :
    GoesDown step ∧
      (t.get? (here ++ [step]) = some .dir ∨
        ∃ target j, t.get? (here ++ [step]) = some (.link target) ∧ k = j + 1) := by
  rw [walk, walkBy, if_neg hne, if_neg hup, if_neg (by simp [hrest])] at h
  split at h
  · cases h
  rename_i hfits
  refine ⟨⟨hne, hup, Nat.not_lt.mp hfits⟩, ?_⟩
  split at h
  · rename_i target hget
    rw [if_neg (by simp [hrest])] at h
    cases k with
    | zero => cases h
    | succ j => exact .inr ⟨target, j, hget, rfl⟩
  · rw [if_neg (by simp [hrest])] at h
    split at h
    · cases h
    · rename_i hget
      exact .inl hget
    · cases h

/-- **A walk that ends well enters every directory on its way.** -/
theorem exists_enters (hrest : rest ≠ [])
    (h : walk t last k here slash (steps ++ rest) = .ok spot) :
    ∃ left d, Enters t k here steps left d ∧ walk t last left d slash rest = .ok spot := by
  induction k using Nat.strongRecOn generalizing here steps with
  | ind k ihk =>
    induction steps generalizing here with
    | nil => exact ⟨k, here, .nil, h⟩
    | cons step steps ih =>
      rw [cons_append] at h
      have hmore : steps ++ rest ≠ [] := by simp [hrest]
      by_cases hne : step = [dot]
      · subst hne
        rw [walk_here hmore] at h
        obtain ⟨left, d, hd, hw⟩ := ih h
        exact ⟨left, d, .here hd, hw⟩
      by_cases hup : step = [dot, dot]
      · subst hup
        rw [walk_up hmore] at h
        obtain ⟨left, d, hd, hw⟩ := ih h
        exact ⟨left, d, .up hd, hw⟩
      obtain ⟨hstep, hget | ⟨target, j, hget, rfl⟩⟩ := walk_cons_eq_ok hne hup hmore h
      · rw [walk_dir hstep hmore hget] at h
        obtain ⟨left, d, hd, hw⟩ := ih h
        exact ⟨left, d, .dir hstep hget hd, hw⟩
      · rw [walk_link hstep hmore hget, ← append_assoc] at h
        obtain ⟨left, d, hd, hw⟩ := ihk j (Nat.lt_succ_self j) h
        exact ⟨left, d, .link hstep hget hd, hw⟩

theorem walk_ignore_name {n : Bytes} (hne : n ≠ [dot]) (hup : n ≠ [dot, dot]) :
    walk t .ignore k here slash [n] = .ok ⟨here, .name n, slash⟩ := by
  rw [walk, walkBy, if_neg hne, if_neg hup]
  rfl

/-- Steps enter one directory only. -/
theorem Enters.unique (h : Enters t k here steps left d) (h' : Enters t k here steps left' d') :
    d = d' := by
  have hname : ∀ {left d}, Enters t k here steps left d →
      walk t .ignore k here false (steps ++ [utf8 "a"]) = .ok ⟨d, .name (utf8 "a"), false⟩ :=
    fun h => (h.walk_append (cons_ne_nil _ _)).trans
      (walk_ignore_name (by decide) (by decide))
  cases Except.ok.inj ((hname h).symm.trans (hname h'))
  rfl

/-- **What is no file stands as it did.** -/
def Stands (t t' : FileTree) : Prop :=
  ∀ v e, t.get? v = some e → (∀ content mode, e ≠ .file content mode) → t'.get? v = some e

/-- A walk goes through directories and links, and no file matters. -/
theorem Enters.of_stands (hstands : Stands t t') (h : Enters t k here steps left d) :
    Enters t' k here steps left d := by
  induction h with
  | nil => exact .nil
  | here _ ih => exact .here ih
  | up _ ih => exact .up ih
  | dir hstep hget _ ih => exact .dir hstep (hstands _ _ hget nofun) ih
  | link hstep hget _ ih => exact .link hstep (hstands _ _ hget nofun) ih

/-- **What stands in one tree stands in the other.** -/
def Within (t t' : FileTree) : Prop := ∀ v e, t.get? v = some e → t'.get? v = some e

theorem Enters.mono (hsub : Within t t') (h : Enters t k here steps left d) :
    Enters t' k here steps left d :=
  h.of_stands fun v e hget _ => hsub v e hget

theorem Enters.more (h : Enters t k here steps left d) (j : Nat) :
    Enters t (k + j) here steps (left + j) d := by
  induction h with
  | nil => exact .nil
  | here _ ih => exact .here ih
  | up _ ih => exact .up ih
  | dir hstep hget _ ih => exact .dir hstep hget ih
  | link hstep hget _ ih =>
    rw [Nat.add_right_comm]
    exact .link hstep hget ih

theorem Enters.left_le (h : Enters t k here steps left d) : left ≤ k := by
  induction h with
  | nil => exact Nat.le_refl _
  | here _ ih | up _ ih | dir _ _ _ ih => exact ih
  | link _ _ _ ih => exact Nat.le_succ_of_le ih

theorem Enters.append {more : List Bytes} (h : Enters t k here steps left d)
    (h' : Enters t left d more left' d') : Enters t k here (steps ++ more) left' d' := by
  induction h with
  | nil => exact h'
  | here _ ih => exact .here (ih h')
  | up _ ih => exact .up (ih h')
  | dir hstep hget _ ih => exact .dir hstep hget (ih h')
  | link hstep hget _ ih =>
    refine .link hstep hget ?_
    rw [append_eq, ← append_assoc]
    exact ih h'

/-- **A walk through a directory on its way** can be taken apart there. -/
theorem Enters.split {more : List Bytes} (h : Enters t k here (steps ++ more) left' d') :
    ∃ left d, Enters t k here steps left d ∧ Enters t left d more left' d' := by
  generalize hall : steps ++ more = all at h
  -- where the first steps are used up, what is left is the whole walk
  induction h generalizing steps with
  | nil =>
    obtain ⟨rfl, rfl⟩ := append_eq_nil_iff.mp hall
    exact ⟨_, _, .nil, .nil⟩
  | here hrest ih =>
    rcases append_eq_cons_iff.mp hall with ⟨rfl, rfl⟩ | ⟨front, rfl, hfront⟩
    · exact ⟨_, _, .nil, .here hrest⟩
    · obtain ⟨left, d, hfirst, hsecond⟩ := ih hfront.symm
      exact ⟨left, d, .here hfirst, hsecond⟩
  | up hrest ih =>
    rcases append_eq_cons_iff.mp hall with ⟨rfl, rfl⟩ | ⟨front, rfl, hfront⟩
    · exact ⟨_, _, .nil, .up hrest⟩
    · obtain ⟨left, d, hfirst, hsecond⟩ := ih hfront.symm
      exact ⟨left, d, .up hfirst, hsecond⟩
  | dir hstep hget hrest ih =>
    rcases append_eq_cons_iff.mp hall with ⟨rfl, rfl⟩ | ⟨front, rfl, hfront⟩
    · exact ⟨_, _, .nil, .dir hstep hget hrest⟩
    · obtain ⟨left, d, hfirst, hsecond⟩ := ih hfront.symm
      exact ⟨left, d, .dir hstep hget hfirst, hsecond⟩
  | @link _ _ _ _ _ rest target hstep hget hrest ih =>
    rcases append_eq_cons_iff.mp hall with ⟨rfl, rfl⟩ | ⟨front, rfl, hfront⟩
    · exact ⟨_, _, .nil, .link hstep hget hrest⟩
    · have hmore : target.steps ++ front ++ more = target.steps ++ rest := by
        rw [append_assoc, hfront]
      obtain ⟨left, d, hfirst, hsecond⟩ := ih hmore
      exact ⟨left, d, .link hstep hget hfirst, hsecond⟩

/-- A `.` between the steps changes nothing. -/
theorem enters_filter_iff :
    Enters t k here (steps.filter (· ≠ [dot])) left d ↔ Enters t k here steps left d := by
  induction steps generalizing k here with
  | nil => rfl
  | cons step steps ih =>
    by_cases hdot : step = [dot]
    · subst hdot
      rw [filter_cons_of_neg (by simp), ih]
      refine ⟨.here, fun h => ?_⟩
      cases h with
      | here hrest => exact hrest
      | dir hstep | link hstep => exact absurd rfl hstep.ne_here
    · rw [filter_cons_of_pos (by simpa using hdot), ← singleton_append,
        ← singleton_append (l := steps)]
      constructor <;> intro h <;> obtain ⟨_, _, hfirst, hrest⟩ := h.split
      · exact hfirst.append (ih.mp hrest)
      · exact hfirst.append (ih.mpr hrest)

theorem enters_names {rel : Place} (hnames : ∀ n ∈ rel, GoesDown n)
    (hdirs : ∀ above, above <+: rel → above ≠ [] → t.get? (here ++ above) = some .dir) :
    Enters t k here rel k (here ++ rel) := by
  induction rel generalizing here with
  | nil => rw [append_nil]; exact .nil
  | cons n rel ih =>
    obtain ⟨hn, hnames⟩ := forall_mem_cons.mp hnames
    rw [append_cons]
    refine .dir hn (hdirs [n] (prefix_append [n] rel) (cons_ne_nil _ _))
      (ih hnames fun above habove hne => ?_)
    rw [append_assoc, singleton_append]
    exact hdirs (n :: above) (cons_prefix_cons.mpr ⟨rfl, habove⟩) (cons_ne_nil _ _)

/-! ## The last step -/

variable {n : Bytes}

/-- The last step ends the walk unless it is a link that is followed. -/
theorem walk_name_stops (hblind : last.isBlind slash = false) (hn : GoesDown n)
    (hget : ∀ target, t.get? (here ++ [n]) = some (.link target) → last.follows slash = false) :
    walk t last k here slash [n] = .ok ⟨here, .name n, slash⟩ := by
  rw [walk, walkBy, if_neg hn.ne_here, if_neg hn.ne_up, if_neg (by simp [hblind]),
    if_neg (Nat.not_lt.mpr hn.fits)]
  split
  · rename_i target hlink
    rw [if_pos (by simp [hget target hlink])]
  · rfl

theorem walk_name_follows (hblind : last.isBlind slash = false) (hn : GoesDown n)
    (hget : t.get? (here ++ [n]) = some (.link target)) (hfollows : last.follows slash = true) :
    walk t last (k + 1) here slash [n] =
      walk t last k (origin target here) (slash || target.endsInSlash) target.steps := by
  rw [walk, walkBy, if_neg hn.ne_here, if_neg hn.ne_up, if_neg (by simp [hblind]),
    if_neg (Nat.not_lt.mpr hn.fits), hget]
  simp [hfollows, origin, pursue, walk]

/-- **What the last step does**, if it is looked at and goes down. -/
theorem walk_name_eq_ok (hblind : last.isBlind slash = false) (hne : n ≠ [dot])
    (hup : n ≠ [dot, dot]) (h : walk t last k here slash [n] = .ok spot) :
    GoesDown n ∧
      ((spot = ⟨here, .name n, slash⟩ ∧
          ∀ target, t.get? (here ++ [n]) = some (.link target) → last.follows slash = false) ∨
        ∃ target j, t.get? (here ++ [n]) = some (.link target) ∧ last.follows slash = true ∧
          k = j + 1 ∧
          walk t last j (origin target here) (slash || target.endsInSlash) target.steps = .ok spot) := by
  by_cases hfits : n.length ≤ maxName
  · have hn : GoesDown n := ⟨hne, hup, hfits⟩
    refine ⟨hn, ?_⟩
    by_cases hlink : ∃ target, t.get? (here ++ [n]) = some (.link target) ∧
        last.follows slash = true
    · obtain ⟨target, hget, hfollows⟩ := hlink
      cases k with
      | zero =>
        rw [walk, walkBy, if_neg hne, if_neg hup, if_neg (by simp [hblind]),
          if_neg (Nat.not_lt.mpr hfits), hget] at h
        simp [hfollows, pursue] at h
      | succ j =>
        rw [walk_name_follows hblind hn hget hfollows] at h
        exact .inr ⟨target, j, hget, hfollows, rfl, h⟩
    · have hstops : ∀ target, t.get? (here ++ [n]) = some (.link target) →
          last.follows slash = false := fun target hget =>
        Bool.eq_false_iff.mpr fun hfollows => hlink ⟨target, hget, hfollows⟩
      rw [walk_name_stops hblind hn hstops] at h
      exact .inl ⟨(Except.ok.inj h).symm, hstops⟩
  · rw [walk, walkBy, if_neg hne, if_neg hup, if_neg (by simp [hblind]),
      if_pos (Nat.not_le.mp hfits)] at h
    cases h

theorem walk_last_here : walk t last k here slash [[dot]] = .ok ⟨here, .here, slash⟩ := by
  rw [walk, walkBy, if_pos rfl]
  rfl

theorem walk_last_up : walk t last k here slash [[dot, dot]] = .ok ⟨here, .up, slash⟩ := by
  rw [walk, walkBy, if_neg (by decide), if_pos rfl]
  rfl

/-- **How a walk ends** that looks at its last step. -/
inductive Ends (t : FileTree) (last : LastLink) : Nat → Place → Bool → List Bytes → Spot → Prop
  | root {k : Nat} {here : Place} {slash : Bool} :
      Ends t last k here slash [] ⟨here, .root, slash⟩
  | here {k left : Nat} {here d : Place} {slash : Bool} {steps : List Bytes} :
      Enters t k here steps left d → Ends t last k here slash (steps ++ [[dot]]) ⟨d, .here, slash⟩
  | up {k left : Nat} {here d : Place} {slash : Bool} {steps : List Bytes} :
      Enters t k here steps left d →
      Ends t last k here slash (steps ++ [[dot, dot]]) ⟨d, .up, slash⟩
  | stops {k left : Nat} {here d : Place} {slash : Bool} {steps : List Bytes} {n : Bytes} :
      Enters t k here steps left d → GoesDown n →
      (∀ target, t.get? (d ++ [n]) = some (.link target) → last.follows slash = false) →
      Ends t last k here slash (steps ++ [n]) ⟨d, .name n, slash⟩
  | follows {k j : Nat} {here d : Place} {slash : Bool} {steps : List Bytes} {n : Bytes}
      {target : Path} {spot : Spot} :
      Enters t k here steps (j + 1) d → GoesDown n → t.get? (d ++ [n]) = some (.link target) →
      last.follows slash = true →
      Ends t last j (origin target d) (slash || target.endsInSlash) target.steps spot →
      Ends t last k here slash (steps ++ [n]) spot

theorem Ends.walk_eq_ok (hblind : ∀ slash, last.isBlind slash = false)
    (h : Ends t last k here slash steps spot) : walk t last k here slash steps = .ok spot := by
  induction h with
  | root => rfl
  | here henters => rw [henters.walk_append (cons_ne_nil _ _), walk_last_here]
  | up henters => rw [henters.walk_append (cons_ne_nil _ _), walk_last_up]
  | stops henters hn hstops =>
    rw [henters.walk_append (cons_ne_nil _ _), walk_name_stops (hblind _) hn hstops]
  | follows henters hn hget hfollows _ ih =>
    rw [henters.walk_append (cons_ne_nil _ _), walk_name_follows (hblind _) hn hget hfollows, ih]

/-- **Every walk that ends well, ends in one of these ways.** -/
theorem ends_of_walk (hblind : ∀ slash, last.isBlind slash = false)
    (h : walk t last k here slash steps = .ok spot) : Ends t last k here slash steps spot := by
  induction k using Nat.strongRecOn generalizing here slash steps with
  | ind k ih =>
    rcases eq_nil_or_concat steps with rfl | ⟨init, n, rfl⟩
    · cases h
      exact .root
    · rw [concat_eq_append] at h ⊢
      obtain ⟨left, d, henters, hlast⟩ := exists_enters (cons_ne_nil _ _) h
      by_cases hne : n = [dot]
      · subst hne
        rw [walk_last_here] at hlast
        cases hlast
        exact .here henters
      by_cases hup : n = [dot, dot]
      · subst hup
        rw [walk_last_up] at hlast
        cases hlast
        exact .up henters
      obtain ⟨hn, ⟨rfl, hstops⟩ | ⟨target, j, hget, hfollows, rfl, hrest⟩⟩ :=
        walk_name_eq_ok (hblind slash) hne hup hlast
      · exact .stops henters hn hstops
      · exact .follows henters hn hget hfollows (ih j henters.left_le hrest)

/-! ## What a path finds -/

theorem find_eq (t : FileTree) (cwd : Place) (p : Path) (last : LastLink) :
    t.find cwd p last = (t.locate cwd p last).bind t.arrive := rfl

theorem arrive_name_eq_ok {v : Place} {e : Entry} :
    t.arrive ⟨here, .name n, slash⟩ = .ok (v, e) ↔
      v = here ++ [n] ∧ t.get? (here ++ [n]) = some e ∧ (slash = true → e = .dir) := by
  have hdir : ∀ f : Entry, (slash && !f.isDir) = true ↔ slash = true ∧ f ≠ .dir := by
    intro f
    cases f <;> simp [Entry.isDir]
  simp only [arrive, Spot.place]
  split
  · rename_i hget
    simp [hget]
  · rename_i f hget
    rw [hget]
    split_ifs with h
    · rw [hdir] at h
      refine iff_of_false nofun ?_
      rintro ⟨-, ⟨⟩, hslash⟩
      exact h.2 (hslash h.1)
    · rw [hdir, not_and, not_not] at h
      constructor
      · rintro ⟨⟩
        exact ⟨rfl, rfl, h⟩
      · rintro ⟨rfl, ⟨⟩, -⟩
        rfl

/-- A text that the system takes for a path. -/
structure IsPath (p : Path) : Prop where
  noZero : p.text.contains 0 = false
  ne_nil : p.text ≠ []
  fits : p.text.length ≤ maxPath

theorem locate_eq_ok {cwd : Place} {p : Path} :
    t.locate cwd p last = .ok spot ↔
      IsPath p ∧ walk t last maxLinks (origin p cwd) p.endsInSlash p.steps = .ok spot := by
  unfold locate origin
  constructor
  · intro h
    split at h
    · cases h
    rename_i hzero
    split at h
    · cases h
    rename_i hnil
    split at h
    · cases h
    rename_i hfits
    exact ⟨⟨Bool.eq_false_iff.mpr hzero, by simpa using hnil, Nat.not_lt.mp hfits⟩, h⟩
  · rintro ⟨hpath, h⟩
    rw [if_neg (Bool.eq_false_iff.mp hpath.noZero), if_neg (by simpa using hpath.ne_nil),
      if_neg (Nat.not_lt.mpr hpath.fits), h]

theorem isBlind_follow (slash : Bool) : LastLink.follow.isBlind slash = false := rfl

theorem isBlind_keep (slash : Bool) : LastLink.keep.isBlind slash = false := rfl

/-- Where the last step is looked at, a link before a separator is followed. -/
theorem follows_before_slash (hblind : ∀ slash, last.isBlind slash = false) :
    last.follows true = true := by
  cases last with
  | follow | keep => rfl
  | make | ignore => exact absurd (hblind true) (by decide)

/-- **Where a directory can be entered, it is found**, or a last link that is not followed. -/
theorem Enters.exists_arrive (h : Enters t k here steps left d)
    (hblind : ∀ slash, last.isBlind slash = false) (slash : Bool) :
    ∃ spot, walk t last k here slash steps = .ok spot ∧
      (t.arrive spot = .ok (d, .dir) ∨
        last ≠ .follow ∧ ∃ v target, t.arrive spot = .ok (v, .link target)) := by
  induction h generalizing slash with
  | nil => exact ⟨_, rfl, .inl rfl⟩
  | @here _ _ _ _ rest hrest ih =>
    by_cases hnil : rest = []
    · subst hnil
      cases hrest
      exact ⟨_, walk_last_here, .inl rfl⟩
    · rw [walk_here hnil]
      exact ih slash
  | @up _ _ _ _ rest hrest ih =>
    by_cases hnil : rest = []
    · subst hnil
      cases hrest
      exact ⟨_, walk_last_up, .inl rfl⟩
    · rw [walk_up hnil]
      exact ih slash
  | @dir _ _ _ _ _ rest hstep hget hrest ih =>
    by_cases hnil : rest = []
    · subst hnil
      cases hrest
      refine ⟨_, walk_name_stops (hblind slash) hstep fun target hlink => ?_,
        .inl (arrive_name_eq_ok.mpr ⟨rfl, hget, fun _ => rfl⟩)⟩
      rw [hget] at hlink
      cases hlink
    · rw [walk_dir hstep hnil hget]
      exact ih slash
  | @link _ _ _ _ _ rest target hstep hget hrest ih =>
    by_cases hnil : rest = []
    · subst hnil
      cases hfollows : last.follows slash with
      | true =>
        rw [walk_name_follows (hblind slash) hstep hget hfollows]
        simpa using ih (slash || target.endsInSlash)
      | false =>
        refine ⟨_, walk_name_stops (hblind slash) hstep fun _ _ => hfollows,
          .inr ⟨?_, _, target, arrive_name_eq_ok.mpr ⟨rfl, hget, ?_⟩⟩⟩
        · rintro rfl
          cases hfollows
        · rintro rfl
          rw [follows_before_slash hblind] at hfollows
          cases hfollows
    · rw [walk_link hstep hnil hget]
      exact ih slash

/-- A walk that ends at a directory enters it. -/
theorem Ends.exists_enters (h : Ends t last k here slash steps spot)
    (harrive : t.arrive spot = .ok (d, .dir)) : ∃ left, Enters t k here steps left d := by
  induction h with
  | root =>
    cases harrive
    exact ⟨_, .nil⟩
  | here henters =>
    cases harrive
    exact ⟨_, henters.append (.here .nil)⟩
  | up henters =>
    cases harrive
    exact ⟨_, henters.append (.up .nil)⟩
  | stops henters hn _ =>
    obtain ⟨rfl, hget, -⟩ := arrive_name_eq_ok.mp harrive
    exact ⟨_, henters.append (.dir hn hget .nil)⟩
  | follows henters hn hget _ _ ih =>
    obtain ⟨left, hd⟩ := ih harrive
    exact ⟨left, henters.append (.link hn hget (by rwa [append_nil]))⟩

variable {cwd v : Place} {p : Path} {e : Entry}

theorem find_eq_ok (hblind : ∀ slash, last.isBlind slash = false) :
    t.find cwd p last = .ok (v, e) ↔
      IsPath p ∧ ∃ spot, Ends t last maxLinks (origin p cwd) p.endsInSlash p.steps spot ∧
        t.arrive spot = .ok (v, e) := by
  rw [find_eq]
  constructor
  · intro h
    cases hlocate : t.locate cwd p last with
    | error e =>
      rw [hlocate] at h
      cases h
    | ok spot =>
      obtain ⟨hpath, hwalk⟩ := locate_eq_ok.mp hlocate
      exact ⟨hpath, spot, ends_of_walk hblind hwalk, by rwa [hlocate] at h⟩
  · rintro ⟨hpath, spot, hends, harrive⟩
    rw [locate_eq_ok.mpr ⟨hpath, hends.walk_eq_ok hblind⟩]
    exact harrive

/-- **A path finds a directory if and only if its steps enter it.** -/
theorem find_dir_iff :
    t.find cwd p = .ok (d, .dir) ↔
      IsPath p ∧ ∃ left, Enters t maxLinks (origin p cwd) p.steps left d := by
  rw [find_eq_ok isBlind_follow]
  refine and_congr_right fun _ => ⟨?_, ?_⟩
  · rintro ⟨spot, hends, harrive⟩
    exact hends.exists_enters harrive
  · rintro ⟨left, henters⟩
    obtain ⟨spot, hwalk, harrive | ⟨hne, -⟩⟩ := henters.exists_arrive isBlind_follow p.endsInSlash
    · exact ⟨spot, ends_of_walk isBlind_follow hwalk, harrive⟩
    · exact absurd rfl hne

/-- A directory is found without following a last link only if it can be entered. -/
theorem find_dir_of_keep (h : t.find cwd p .keep = .ok (d, .dir)) :
    t.find cwd p = .ok (d, .dir) := by
  obtain ⟨hpath, spot, hends, harrive⟩ := (find_eq_ok isBlind_keep).mp h
  exact find_dir_iff.mpr ⟨hpath, hends.exists_enters harrive⟩

theorem Ends.arrive_ne_link (h : Ends t .follow k here slash steps spot) (target : Path) :
    t.arrive spot ≠ .ok (v, .link target) := by
  intro harrive
  induction h with
  | root | here | up => cases harrive
  | stops _ _ hstops =>
    obtain ⟨rfl, hget, -⟩ := arrive_name_eq_ok.mp harrive
    cases hstops target hget
  | follows _ _ _ _ _ ih => exact ih harrive

/-- Following all links, a link is never found. -/
theorem find_ne_link (h : t.find cwd p = .ok (v, e)) (target : Path) : e ≠ .link target := by
  obtain ⟨-, spot, hends, harrive⟩ := (find_eq_ok isBlind_follow).mp h
  rintro rfl
  exact hends.arrive_ne_link target harrive

/-- **What is found below a directory** stands in it. -/
theorem exists_of_find (hblind : ∀ slash, last.isBlind slash = false)
    (h : t.find cwd p last = .ok (v, e)) {more : List Bytes} (hsteps : p.steps = steps ++ n :: more)
    (hne : n ≠ [dot]) (hup : n ≠ [dot, dot]) :
    ∃ left d, Enters t maxLinks (origin p cwd) steps left d ∧ t.get? (d ++ [n]) ≠ none := by
  rw [find_eq] at h
  cases hlocate : t.locate cwd p last with
  | error f =>
    rw [hlocate] at h
    cases h
  | ok spot =>
    have hwalk := (locate_eq_ok.mp hlocate).2
    rw [hsteps] at hwalk
    obtain ⟨left, d, henters, hlast⟩ := exists_enters (cons_ne_nil n more) hwalk
    refine ⟨left, d, henters, fun hnone => ?_⟩
    by_cases hmore : more = []
    · subst hmore
      obtain ⟨hn, ⟨rfl, -⟩ | ⟨target, j, hget, -⟩⟩ := walk_name_eq_ok (hblind _) hne hup hlast
      · rw [hlocate] at h
        have hget := (arrive_name_eq_ok.mp h).2.1
        rw [hnone] at hget
        cases hget
      · rw [hnone] at hget
        cases hget
    · obtain ⟨-, hget | ⟨target, j, hget, -⟩⟩ := walk_cons_eq_ok hne hup hmore hlast
      · rw [hnone] at hget
        cases hget
      · rw [hnone] at hget
        cases hget

/-! ## Larger trees -/

/-- A walk ends in a larger tree as it does in a smaller one, if something is there. -/
theorem Ends.mono (hsub : Within t t') (h : Ends t last k here slash steps spot)
    (harrive : t.arrive spot = .ok (v, e)) :
    Ends t' last k here slash steps spot ∧ t'.arrive spot = .ok (v, e) := by
  induction h with
  | root => exact ⟨.root, harrive⟩
  | here henters => exact ⟨.here (henters.mono hsub), harrive⟩
  | up henters => exact ⟨.up (henters.mono hsub), harrive⟩
  | stops henters hn hstops =>
    obtain ⟨rfl, hget, hslash⟩ := arrive_name_eq_ok.mp harrive
    have hget' := hsub _ _ hget
    refine ⟨.stops (henters.mono hsub) hn fun target hlink => hstops target ?_,
      arrive_name_eq_ok.mpr ⟨rfl, hget', hslash⟩⟩
    rwa [hget, ← hget']
  | follows henters hn hget hfollows _ ih =>
    obtain ⟨hends, harrive⟩ := ih harrive
    exact ⟨.follows (henters.mono hsub) hn (hsub _ _ hget) hfollows hends, harrive⟩

theorem find_mono (hsub : Within t t') (h : t.find cwd p = .ok (v, e)) :
    t'.find cwd p = .ok (v, e) := by
  obtain ⟨hpath, spot, hends, harrive⟩ := (find_eq_ok isBlind_follow).mp h
  exact (find_eq_ok isBlind_follow).mpr ⟨hpath, spot, hends.mono hsub harrive⟩

/-! ## The places that are looked at -/

/-- **The places that a walk looks at**, if it follows every link. -/
def visits (t : FileTree) (links : Nat) (here : Place) : List Bytes → List Place
  | [] => []
  | step :: rest =>
    if step = [dot] then visits t links here rest
    else if step = [dot, dot] then visits t links here.dropLast rest
    else (here ++ [step]) ::
      match t.get? (here ++ [step]) with
      | some (.link target) =>
        match links with
        | 0 => []
        | links + 1 => visits t links (origin target here) (target.steps ++ rest)
      | some .dir => visits t links (here ++ [step]) rest
      | _ => []
termination_by steps => (links, steps.length)

/-- **A walk sees only what it looks at.** -/
theorem walk_congr (hsame : ∀ v ∈ visits t k here steps, t'.get? v = t.get? v) :
    walk t' last k here slash steps = walk t last k here slash steps := by
  unfold walk
  induction k using Nat.strongRecOn generalizing here slash steps with
  | ind k ihk =>
    induction steps generalizing here with
    | nil => rfl
    | cons step rest ih =>
      rw [visits] at hsame
      rw [walkBy, walkBy]
      by_cases hne : step = [dot]
      · rw [if_pos hne, if_pos hne, ih (by rwa [if_pos hne] at hsame)]
      rw [if_neg hne] at hsame
      rw [if_neg hne, if_neg hne]
      by_cases hup : step = [dot, dot]
      · rw [if_pos hup, if_pos hup, ih (by rwa [if_pos hup] at hsame)]
      rw [if_neg hup] at hsame
      rw [if_neg hup, if_neg hup, hsame _ mem_cons_self]
      have hmore := fun v hv => hsame v (mem_cons_of_mem _ hv)
      cases hget : t.get? (here ++ [step]) with
      | none => rfl
      | some found =>
        rw [hget] at hmore
        cases found with
        | link target =>
          cases k with
          | zero => rfl
          | succ j =>
            have hlink : ∀ slash,
                pursue t' last (j + 1) (origin target here) slash (target.steps ++ rest) =
                  pursue t last (j + 1) (origin target here) slash (target.steps ++ rest) :=
              fun _ => ihk j (Nat.lt_succ_self j) hmore
            simp only [origin] at hlink
            simp only [hlink]
        | dir => simp only [ih hmore]
        | file | device | socket | fifo => rfl

theorem Enters.mem_visits (h : Enters t k here steps left d) (hv : v ∈ visits t left d rest) :
    v ∈ visits t k here (steps ++ rest) := by
  induction h with
  | nil => exact hv
  | here _ ih =>
    rw [cons_append, visits, if_pos rfl]
    exact ih hv
  | up _ ih =>
    rw [cons_append, visits, if_neg (by decide), if_pos rfl]
    exact ih hv
  | dir hstep hget _ ih =>
    rw [cons_append, visits, if_neg hstep.ne_here, if_neg hstep.ne_up, hget]
    exact mem_cons_of_mem _ (ih hv)
  | link hstep hget _ ih =>
    have hrest := ih hv
    rw [append_assoc] at hrest
    rw [cons_append, visits, if_neg hstep.ne_here, if_neg hstep.ne_up, hget]
    exact mem_cons_of_mem _ hrest

theorem mem_visits_name (hne : n ≠ [dot]) (hup : n ≠ [dot, dot]) :
    here ++ [n] ∈ visits t k here (n :: rest) := by
  rw [visits, if_neg hne, if_neg hup]
  exact mem_cons_self

/-- The first name is looked at where the walk starts. -/
theorem exists_mem_visits (hup : [dot, dot] ∉ steps) (hname : ∃ n ∈ steps, n ≠ [dot]) :
    ∃ n, here ++ [n] ∈ visits t k here steps := by
  induction steps with
  | nil => simp at hname
  | cons step steps ih =>
    obtain ⟨hstep, hrest⟩ := not_or.mp (mt mem_cons.mpr hup)
    by_cases hne : step = [dot]
    · subst hne
      rw [visits, if_pos rfl]
      exact ih hrest (by simpa using hname)
    · exact ⟨step, mem_visits_name hne (Ne.symm hstep)⟩

theorem Ends.mem_visits (h : Ends t last k here slash steps spot) (hname : spot.ending = .name n) :
    spot.place ∈ visits t k here steps := by
  induction h with
  | root | here | up => cases hname
  | stops henters hn _ => exact henters.mem_visits (mem_visits_name hn.ne_here hn.ne_up)
  | @follows _ j _ d _ _ m target _ henters hm hget _ _ ih =>
    refine henters.mem_visits ?_
    rw [visits, if_neg hm.ne_here, if_neg hm.ne_up, hget]
    exact mem_cons_of_mem _ (by simpa using ih hname)

/-- The places that are looked at on the way of a path. -/
def onWay (t : FileTree) (cwd : Place) (p : Path) : List Place :=
  visits t maxLinks (origin p cwd) p.steps

/-- **What a path finds depends on the places on its way.** -/
theorem find_congr (hblind : ∀ slash, last.isBlind slash = false)
    (hsame : ∀ v ∈ t.onWay cwd p, t'.get? v = t.get? v) :
    t'.find cwd p last = t.find cwd p last := by
  have hlocate : t'.locate cwd p last = t.locate cwd p last := by
    unfold locate
    rw [show (if p.isAbsolute = true then [] else cwd) = origin p cwd from rfl, walk_congr hsame]
  rw [find_eq, find_eq, hlocate]
  cases hspot : t.locate cwd p last with
  | error e => rfl
  | ok spot =>
    have hends := ends_of_walk hblind (locate_eq_ok.mp hspot).2
    change t'.arrive spot = t.arrive spot
    unfold arrive
    cases hending : spot.ending with
    | root | here | up => rfl
    | name n => rw [hsame _ (hends.mem_visits hending)]

end Judge.FileTree
