import Judge.Proofs.Extensions

/-!
# Proofs/PathSteps — the steps that a path is made of

A walk takes the steps of a path, which are its pieces without the empty ones.  They can be read off
the text (`steps_eq`), so joining a name adds a step (`steps_join`), and the directory above has the
steps up to the last name, as far as a `.` does not count (`exists_marks_parent`).  Without `..` the
absolute path goes through the steps that are names (`absolute_ofNames`).
-/

namespace Judge.Path

open List

variable {p q above : Path} {n : Bytes} {ns ps : List Bytes}

/-! ## Steps of a text -/

/-- The steps that a text writes between its separators. -/
def stepsOf (text : Bytes) : List Bytes :=
  (splitWhere (· == slash) text).filter fun piece => !piece.isEmpty

theorem stepsOf_append_slash (t u : Bytes) : stepsOf (t ++ slash :: u) = stepsOf t ++ stepsOf u := by
  rw [stepsOf, splitWhere_append_cons_of_pos (p := (· == slash)) BEq.rfl, filter_append,
    stepsOf, stepsOf]

theorem stepsOf_nil : stepsOf [] = [] := rfl

theorem steps_eq (p : Path) : p.steps = stepsOf p.text := by
  unfold steps pieces
  split
  · rename_i habsolute
    obtain ⟨rest, hrest⟩ : ∃ rest, p.text = slash :: rest :=
      head?_eq_some_iff.mp (beq_iff_eq.mp habsolute)
    rw [hrest]
    exact (stepsOf_append_slash [] rest).symm
  · rfl

theorem stepsOf_joinPieces (h : ∀ piece ∈ ps, slash ∉ piece) :
    stepsOf (joinPieces ps) = ps.filter fun piece => !piece.isEmpty := by
  cases ps with
  | nil => rfl
  | cons piece ps =>
    rw [stepsOf, joinPieces, splitWhere_intercalate (cons_ne_nil piece ps) h]

theorem stepsOf_name (hn : IsName n) : stepsOf n = [n] := by
  have hjoin : joinPieces [n] = n := intercalate_singleton
  have hsteps := stepsOf_joinPieces (forall_mem_singleton.mpr hn.noSlash)
  rwa [hjoin, filter_cons_of_pos (by simpa using hn.ne_nil), filter_nil] at hsteps

theorem steps_ofNames (h : ∀ m ∈ ns, IsName m) : (ofNames ns).steps = ns := by
  rw [steps_eq, ofNames, show slash :: joinPieces ns = [] ++ slash :: joinPieces ns from rfl,
    stepsOf_append_slash, stepsOf_joinPieces fun m hm => (h m hm).noSlash, stepsOf_nil,
    nil_append]
  exact filter_eq_self.mpr fun m hm => by simpa using (h m hm).ne_nil

/-! ## Joining -/

theorem stepsOf_join (hp : p.text ≠ []) (hq : q.isAbsolute = false) :
    (p.join q).steps = p.steps ++ q.steps := by
  rw [steps_eq, steps_eq, steps_eq, join, hq, if_neg Bool.false_ne_true]
  split
  · rename_i hend
    obtain ⟨front, hfront⟩ : ∃ front, p.text = front ++ [slash] := by
      rcases Bool.or_eq_true_iff.mp hend with hempty | hlast
      · exact absurd (isEmpty_iff.mp hempty) hp
      · exact getLast?_eq_some_iff.mp (beq_iff_eq.mp hlast)
    rw [hfront, append_assoc, singleton_append, stepsOf_append_slash,
      stepsOf_append_slash, stepsOf_nil, append_nil]
  · exact stepsOf_append_slash p.text q.text

theorem isAbsolute_of_isName (hn : IsName n) : (⟨n⟩ : Path).isAbsolute = false :=
  beq_eq_false_iff_ne.mpr fun h => hn.noSlash (mem_of_mem_head? h)

/-- **Joining a name** adds a step. -/
theorem steps_join (hp : p.text ≠ []) (hn : IsName n) : (p.join ⟨n⟩).steps = p.steps ++ [n] := by
  rw [stepsOf_join hp (isAbsolute_of_isName hn), steps_eq ⟨n⟩, stepsOf_name hn]

theorem join_ne_nil (hp : p.text ≠ []) : (p.join q).text ≠ [] := by
  unfold join
  split
  · rename_i hq
    rintro hnil
    simp [isAbsolute, hnil] at hq
  · split <;> simp [hp]

theorem endsInSlash_join (p : Path) (hn : IsName n) : (p.join ⟨n⟩).endsInSlash = false := by
  have hlast : (p.join ⟨n⟩).text.getLast? = n.getLast? := by
    rw [join, isAbsolute_of_isName hn, if_neg Bool.false_ne_true]
    split
    · rw [getLast?_append_of_ne_nil _ hn.ne_nil]
    · rw [← singleton_append, getLast?_append_of_ne_nil _ (by simp),
        getLast?_append_of_ne_nil _ hn.ne_nil]
  rw [endsInSlash, hlast]
  exact beq_eq_false_iff_ne.mpr fun h => hn.noSlash (mem_of_getLast? h)

theorem steps_join_nil (hp : p.text ≠ []) : (p.join ⟨[]⟩).steps = p.steps := by
  rw [stepsOf_join hp rfl, steps_eq ⟨[]⟩, stepsOf_nil, append_nil]

theorem endsInSlash_join_nil (hp : p.text ≠ []) : (p.join ⟨[]⟩).endsInSlash = true := by
  have hrelative : (⟨[]⟩ : Path).isAbsolute = false := rfl
  rw [join, hrelative, if_neg Bool.false_ne_true]
  split
  · rename_i hend
    rcases Bool.or_eq_true_iff.mp hend with hempty | hlast
    · exact absurd (isEmpty_iff.mp hempty) hp
    · simpa [endsInSlash] using hlast
  · simp [endsInSlash]

/-- **The path of what is below `p`** under the given names. -/
def under (p : Path) (rel : List Bytes) : Path := rel.foldl (fun p n => p.join ⟨n⟩) p

@[simp] theorem under_nil (p : Path) : p.under [] = p := rfl

theorem under_concat (p : Path) (rel : List Bytes) (n : Bytes) :
    p.under (rel ++ [n]) = (p.under rel).join ⟨n⟩ := foldl_concat _ _ _ _

theorem under_ne_nil (hp : p.text ≠ []) (rel : List Bytes) : (p.under rel).text ≠ [] := by
  induction rel using reverseRecOn with
  | nil => exact hp
  | append_singleton rel n ih =>
    rw [under_concat]
    exact join_ne_nil ih

theorem steps_under (hp : p.text ≠ []) (h : ∀ m ∈ ns, IsName m) :
    (p.under ns).steps = p.steps ++ ns := by
  induction ns using reverseRecOn with
  | nil => simp
  | append_singleton ns n ih =>
    obtain ⟨hns, hn⟩ := forall_mem_append.mp h
    rw [under_concat, steps_join (under_ne_nil hp ns) (hn n mem_cons_self), ih hns,
      append_assoc]

theorem isAbsolute_under (hp : p.text ≠ []) (h : ∀ m ∈ ns, IsName m) :
    (p.under ns).isAbsolute = p.isAbsolute := by
  induction ns using reverseRecOn with
  | nil => rfl
  | append_singleton ns n ih =>
    obtain ⟨hns, hn⟩ := forall_mem_append.mp h
    rw [under_concat, isAbsolute_join (under_ne_nil hp ns)
      (isAbsolute_of_isName (hn n mem_cons_self)), ih hns]

/-! ## Names -/

instance decidableIsName (n : Bytes) : Decidable (IsName n) :=
  decidable_of_iff (isTrivial n = false ∧ n ≠ [dot, dot] ∧ slash ∉ n)
    ⟨fun h => ⟨h.1, h.2.1, h.2.2⟩, fun h => ⟨h.counts, h.notUp, h.noSlash⟩⟩

theorem IsName.notHere (h : IsName n) : n ≠ [dot] := by
  rintro rfl
  cases h.counts

theorem noSlash_of_mem_pieces {piece : Bytes} (h : piece ∈ p.pieces) : slash ∉ piece :=
  (splitWhere_spec slash _).2 piece h

/-- **Every step is a `.`, a `..` or a name.** -/
theorem isName_of_mem_steps {step : Bytes} (h : step ∈ p.steps) (hdot : step ≠ [dot])
    (hup : step ≠ [dot, dot]) : IsName step := by
  obtain ⟨hpiece, hne⟩ := mem_filter.mp h
  refine ⟨?_, hup, noSlash_of_mem_pieces hpiece⟩
  have hnil : step ≠ [] := by simpa using hne
  simp [isTrivial, hnil, hdot]

/-! ## What is written between the dots -/

/-- The steps of a path that are not `.`. -/
def marks (p : Path) : List Bytes := p.steps.filter (· ≠ [dot])

theorem isName_of_mem_marks (hup : [dot, dot] ∉ p.steps) : ∀ m ∈ p.marks, IsName m := by
  intro m hm
  obtain ⟨hstep, hdot⟩ := mem_filter.mp hm
  exact isName_of_mem_steps hstep (by simpa using hdot) fun heq => hup (heq ▸ hstep)

theorem written_eq_steps (p : Path) : written p.text = p.steps.filterMap component? := by
  rw [steps_eq, stepsOf, written, filterMap_filter]
  refine filterMap_congr fun piece _ => ?_
  cases piece with
  | nil | cons => rfl

theorem up_mem_written_iff : .up ∈ written p.text ↔ [dot, dot] ∈ p.steps := by
  rw [written_eq_steps, mem_filterMap]
  constructor
  · rintro ⟨step, hstep, hcomponent⟩
    unfold component? at hcomponent
    split at hcomponent
    · cases hcomponent
    split at hcomponent
    · rename_i hup
      exact hup ▸ hstep
    · cases hcomponent
  · exact fun h => ⟨_, h, rfl⟩

/-- Steps without `..` write the names among them. -/
theorem written_eq_marks (hup : [dot, dot] ∉ p.steps) : written p.text = p.marks.map .name := by
  have hsteps : ∀ step ∈ p.steps, step ≠ [dot] → IsName step := fun step hstep hdot =>
    isName_of_mem_steps hstep hdot fun heq => hup (heq ▸ hstep)
  rw [written_eq_steps, marks]
  generalize p.steps = steps at hsteps ⊢
  induction steps with
  | nil => rfl
  | cons step steps ih =>
    obtain ⟨hstep, hrest⟩ := forall_mem_cons.mp hsteps
    by_cases hdot : step = [dot]
    · subst hdot
      rw [filter_cons_of_neg (by simp), ← ih hrest]
      rfl
    · rw [filterMap_cons_some (component?_of_isName (hstep hdot)),
        filter_cons_of_pos (by simpa using hdot), map_cons, ih hrest]

/-! ## The directory above -/

theorem exists_trimPieces (ps : List Bytes) :
    ∃ dots, ps = trimPieces ps ++ dots ∧ ∀ piece ∈ dots, isTrivial piece = true := by
  refine ⟨(ps.reverse.takeWhile isTrivial).reverse, ?_, fun piece hpiece => ?_⟩
  · rw [trimPieces, trimRightWhere, ← reverse_append, takeWhile_append_dropWhile,
      reverse_reverse]
  · exact all_eq_true.mp all_takeWhile piece (mem_reverse.mp hpiece)

theorem filterMap_trimPieces (ps : List Bytes) :
    (trimPieces ps).filterMap component? = ps.filterMap component? := by
  obtain ⟨dots, hdots, htrivial⟩ := exists_trimPieces ps
  have hnone : dots.filterMap component? = [] :=
    filterMap_eq_nil_iff.mpr fun piece hp => by rw [component?, if_pos (htrivial piece hp)]
  conv_rhs => rw [hdots, filterMap_append, hnone, append_nil]

/-- The last piece that is left counts. -/
theorem exists_component?_of_trimPieces {front : List Bytes} {piece : Bytes}
    (h : trimPieces ps = front ++ [piece]) : ∃ c, component? piece = some c := by
  have hhead : (ps.reverse.dropWhile isTrivial).head? = some piece := by
    rw [trimPieces, trimRightWhere] at h
    rw [← reverse_reverse (ps.reverse.dropWhile isTrivial), h, reverse_append]
    rfl
  rw [component?, head_dropWhile isTrivial _ piece hhead, if_neg Bool.false_ne_true]
  split <;> exact ⟨_, rfl⟩

theorem filterMap_dropLastPiece (ps : List Bytes) :
    (dropLastPiece ps).filterMap component? = (ps.filterMap component?).dropLast := by
  rw [dropLastPiece, filterMap_trimPieces, ← filterMap_trimPieces ps]
  rcases eq_nil_or_concat (trimPieces ps) with hnil | ⟨front, piece, hfront⟩
  · rw [hnil]
    rfl
  · rw [concat_eq_append] at hfront
    obtain ⟨c, hc⟩ := exists_component?_of_trimPieces hfront
    rw [hfront, dropLast_concat, filterMap_append, filterMap_cons_some hc,
      filterMap_nil, dropLast_concat]

theorem dropLastPiece_isPrefix (ps : List Bytes) : dropLastPiece ps <+: ps := by
  have htrim : ∀ ps, trimPieces ps <+: ps := fun ps => by
    obtain ⟨dots, hdots, -⟩ := exists_trimPieces ps
    exact ⟨dots, hdots.symm⟩
  exact ((htrim _).trans (List.dropLast_prefix _)).trans (htrim ps)

theorem joinPieces_isPrefix {qs : List Bytes} (h : ps <+: qs) : joinPieces ps <+: joinPieces qs := by
  obtain ⟨more, rfl⟩ := h
  induction more using reverseRecOn with
  | nil => simp
  | append_singleton more q ih =>
    by_cases hnil : ps ++ more = []
    · obtain ⟨rfl, rfl⟩ := append_eq_nil_iff.mp hnil
      exact nil_prefix
    · rw [← append_assoc, joinPieces_concat hnil]
      exact ih.trans (prefix_append _ _)

/-- A relative path that is written with the first pieces of another. -/
theorem isAbsolute_of_pieces (hp : p.isAbsolute = false) (h : ps <+: p.pieces)
    (hne : joinPieces ps ≠ []) : (⟨joinPieces ps⟩ : Path).isAbsolute = p.isAbsolute := by
  have htext : p.text = joinPieces p.pieces := by
    rw [pieces, hp, if_neg Bool.false_ne_true]
    exact (splitWhere_spec slash p.text).1.symm
  obtain ⟨rest, hrest⟩ := joinPieces_isPrefix h
  rw [isAbsolute, isAbsolute, htext, ← hrest, head?_append_of_ne_nil _ hne]

/-- **The directory above has all components but the last**, as far as they are not its anchor. -/
theorem exists_written_parent (h : p.parent? = some above) (hne : above.text ≠ []) :
    above.isAbsolute = p.isAbsolute ∧ ∃ c, written p.text = written above.text ++ [c] := by
  have hslash : ∀ {qs}, qs <+: p.pieces → ∀ piece ∈ qs, slash ∉ piece := fun hqs piece hpiece =>
    noSlash_of_mem_pieces (hqs.subset hpiece)
  have habove := dropLastPiece_isPrefix p.pieces
  unfold parent? at h
  split at h
  · cases h
  · cases h
  · cases h
    exact absurd rfl hne
  rename_i c hroot hhere hlast
  have hwritten : written p.text = (written p.text).dropLast ++ [c] := by
    refine (dropLast_append_getLast? c ?_).symm
    rw [components_eq, getLast?_append] at hlast
    cases hc : (written p.text).getLast? with
    | some c => rwa [hc, Option.some_or] at hlast
    | none =>
      rw [hc, Option.none_or] at hlast
      unfold anchor at hlast
      split at hlast
      · exact absurd (Option.some.inj hlast).symm hroot
      · split at hlast
        · exact absurd (Option.some.inj hlast).symm hhere
        · cases hlast
  rw [hwritten, ← filterMap_pieces]
  split at h
  · rename_i habsolute
    cases h
    refine ⟨habsolute.symm, c, ?_⟩
    rw [written_cons_slash, written_joinPieces (hslash habove), filterMap_dropLastPiece]
  rename_i hrelative
  have hp := Bool.eq_false_iff.mpr hrelative
  split at h
  · -- a `.` in front stays there
    rename_i hstarts
    cases h
    obtain ⟨tail, htail⟩ :=
      head?_eq_some_iff.mp (beq_iff_eq.mp (Bool.and_eq_true_iff.mp hstarts).2)
    have hbelow : [dot] :: dropLastPiece p.pieces.tail <+: p.pieces := by
      rw [htail]
      exact cons_prefix_cons.mpr ⟨rfl, dropLastPiece_isPrefix tail⟩
    refine ⟨isAbsolute_of_pieces hp hbelow hne, c, ?_⟩
    rw [written_joinPieces (hslash hbelow), htail]
    exact congrArg (· ++ [c]) (filterMap_dropLastPiece tail).symm
  · cases h
    refine ⟨isAbsolute_of_pieces hp habove hne, c, ?_⟩
    rw [written_joinPieces (hslash habove), filterMap_dropLastPiece]

/-- **The directory above has the same names but the last**, if none of the steps leads up. -/
theorem exists_marks_parent (hup : [dot, dot] ∉ p.steps) (h : p.parent? = some above)
    (hne : above.text ≠ []) :
    above.isAbsolute = p.isAbsolute ∧ [dot, dot] ∉ above.steps ∧
      ∃ n, IsName n ∧ p.marks = above.marks ++ [n] := by
  obtain ⟨habsolute, c, hc⟩ := exists_written_parent h hne
  have hup' : [dot, dot] ∉ above.steps := fun hmem =>
    hup (up_mem_written_iff.mp (hc ▸ mem_append_left _ (up_mem_written_iff.mpr hmem)))
  rw [written_eq_marks hup, written_eq_marks hup'] at hc
  obtain ⟨front, last, hmarks, hfront, hlast⟩ := map_eq_append_iff.mp hc
  obtain ⟨n, rfl, -⟩ := map_eq_singleton_iff.mp hlast
  obtain rfl := map_injective_iff.mpr (fun _ _ => Component.name.inj) hfront
  exact ⟨habsolute, hup', n, isName_of_mem_marks hup n (hmarks ▸ by simp), hmarks⟩

/-! ## The absolute path -/

/-- **The absolute path** goes through the names among the steps, if none of them leads up. -/
theorem absolute_ofNames {cwd : List Bytes} (hcwd : ∀ n ∈ cwd, IsName n)
    (hup : [dot, dot] ∉ p.steps) :
    absolute (ofNames cwd) p = ofNames ((if p.isAbsolute then [] else cwd) ++ p.marks) := by
  rw [absolute, normalize, names_join, names_ofNames hcwd, resolveFrom_components,
    written_eq_marks hup, resolveFrom_names]

end Judge.Path
