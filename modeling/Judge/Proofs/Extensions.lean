import Mathlib.Data.List.TakeWhile
import Judge.Proofs.OwnPrograms

/-!
# Proofs/Extensions — files with the same stem

The files of a test have one stem and different extensions.  A name is cut at its last full stop
(`cutName_eq_some_iff`), and a file beside another is found by putting the stem and a new extension
in the place of the name (`withExtension_ofNames`).  There is one exception.  When the old extension
is cut off a name whose stem is a full stop, what is left is `..`, and that is not a name: every file
beside it is the directory above (`withExtension_ofNames_dot`).
-/

namespace Judge.Path

open List

variable {n stem ext : Bytes} {ns : List Bytes}

/-! ## Cutting a name -/

theorem cutName_append (hext : dot ∉ ext) (hup : stem ++ dot :: ext ≠ [dot, dot]) :
    cutName (stem ++ dot :: ext) =
      if stem = [] then (stem ++ dot :: ext, none) else (stem, some ext) := by
  have hafter : ((stem ++ dot :: ext).reverse.takeWhile (· != dot)).reverse = ext := by
    have hfree : ∀ b ∈ ext.reverse, (b != dot) = true := fun b hb =>
      bne_iff_ne.mpr fun h => hext (h ▸ mem_reverse.mp hb)
    rw [reverse_append, reverse_cons, append_assoc,
      takeWhile_append_of_pos hfree]
    simp
  have hlength : (stem ++ dot :: ext).length = stem.length + ext.length + 1 := by simp; omega
  have hbefore : (stem ++ dot :: ext).take ((stem ++ dot :: ext).length - ext.length - 1) = stem := by
    rw [show (stem ++ dot :: ext).length - ext.length - 1 = stem.length by omega,
      take_left]
  have hshorter : ext.length ≠ (stem ++ dot :: ext).length := by omega
  simp only [cutName, if_neg hup, hafter, hbefore, decide_eq_false hshorter, Bool.false_or,
    List.isEmpty_iff]

/-- **A name is cut at its last full stop**, unless that stands at the start. -/
theorem cutName_eq_some_iff (hup : n ≠ [dot, dot]) :
    cutName n = (stem, some ext) ↔ n = stem ++ dot :: ext ∧ stem ≠ [] ∧ dot ∉ ext := by
  constructor
  · intro h
    by_cases hdot : dot ∈ n
    · -- the first full stop of the name read backwards is the last one
      obtain ⟨back, front, hback, hfree⟩ := eq_append_cons_of_mem (mem_reverse.mpr hdot)
      obtain rfl : n = front.reverse ++ dot :: back.reverse := by
        rw [← reverse_reverse n, hback]
        simp
      rw [cutName_append (mt mem_reverse.mp hfree) hup] at h
      split_ifs at h with hfront
      · cases h
      · cases h
        exact ⟨rfl, hfront, mt mem_reverse.mp hfree⟩
    · have hwhole : n.reverse.takeWhile (· != dot) = n.reverse := by
        refine takeWhile_eq_self_iff.mpr fun b hb => bne_iff_ne.mpr ?_
        exact fun h => hdot (h ▸ mem_reverse.mp hb)
      simp [cutName, hwhole] at h
  · rintro ⟨rfl, hstem, hext⟩
    rw [cutName_append hext hup, if_neg hstem]

/-! ## The text of a path through names -/

theorem joinPieces_concat (hne : ns ≠ []) (n : Bytes) :
    joinPieces (ns ++ [n]) = joinPieces ns ++ slash :: n := by
  induction ns with
  | nil => exact absurd rfl hne
  | cons m ns ih =>
    cases ns with
    | nil => simp [joinPieces, intercalate_cons_cons]
    | cons k ns =>
      have hrest := ih (cons_ne_nil k ns)
      simp only [joinPieces, cons_append, intercalate_cons_cons] at hrest ⊢
      rw [hrest, append_assoc, append_assoc, append_assoc]

/-- What stands before the last name does not depend on it. -/
theorem exists_front (ns : List Bytes) : ∃ front, ∀ n, (ofNames (ns ++ [n])).text = front ++ n := by
  cases ns with
  | nil => exact ⟨[slash], fun n => by simp [ofNames, joinPieces]⟩
  | cons m ns =>
    refine ⟨slash :: joinPieces (m :: ns) ++ [slash], fun n => ?_⟩
    rw [ofNames, joinPieces_concat (cons_ne_nil m ns), append_assoc]
    rfl

/-- **Joining a piece to a path through names** writes it at the end. -/
theorem ofNames_join (h : ∀ m ∈ ns, IsName m) (hn : n.head? ≠ some slash) :
    (ofNames ns).join ⟨n⟩ = ofNames (ns ++ [n]) := by
  have hrelative : (⟨n⟩ : Path).isAbsolute = false := beq_eq_false_iff_ne.mpr hn
  rw [join, hrelative, if_neg Bool.false_ne_true]
  induction ns using reverseRecOn with
  | nil => simp [ofNames, joinPieces]
  | append_singleton ns m _ =>
    obtain ⟨front, hfront⟩ := exists_front ns
    have hm : IsName m := h m (by simp)
    have hlast : (ofNames (ns ++ [m])).text.getLast? ≠ some slash := by
      rw [hfront, getLast?_append_of_ne_nil _ hm.ne_nil]
      exact fun hslash => hm.noSlash (mem_of_getLast? hslash)
    rw [if_neg (by simpa [ofNames] using hlast), ofNames, ofNames,
      joinPieces_concat (append_ne_nil_of_right_ne_nil _ (cons_ne_nil m []))]
    rfl

theorem head?_ne_slash (hn : slash ∉ n) : n.head? ≠ some slash :=
  fun h => hn (mem_of_mem_head? h)

theorem join_injective {m : Bytes} (h : ∀ m ∈ ns, IsName m) (hn : slash ∉ n) (hm : slash ∉ m)
    (heq : (ofNames ns).join ⟨n⟩ = (ofNames ns).join ⟨m⟩) : n = m := by
  obtain ⟨front, hfront⟩ := exists_front ns
  rw [ofNames_join h (head?_ne_slash hn), ofNames_join h (head?_ne_slash hm)] at heq
  have htext := congrArg Path.text heq
  rw [hfront, hfront] at htext
  exact append_cancel_left htext

/-! ## Another extension -/

theorem trimmed_ofNames (h : ∀ m ∈ ns, IsName m) (hne : ns ≠ []) :
    (ofNames ns).trimmed = ofNames ns := by
  rw [trimmed, isAbsolute_ofNames, if_pos rfl, pieces_ofNames h hne, trimPieces_of_names h]
  rfl

theorem setExtension_ofNames (h : ∀ m ∈ ns ++ [n], IsName m) (ext : Bytes) :
    (ofNames (ns ++ [n])).setExtension ext = ofNames (ns ++ [(cutName n).1 ++ dot :: ext]) := by
  obtain ⟨front, hfront⟩ := exists_front ns
  have htext : (ofNames (ns ++ [(cutName n).1 ++ dot :: ext])).text =
      (ofNames (ns ++ [n])).text.take ((ofNames (ns ++ [n])).text.length - n.length) ++
        (cutName n).1 ++ dot :: ext := by
    rw [hfront, hfront, length_append, Nat.add_sub_cancel, take_left, append_assoc]
  rw [setExtension, fileName?, getLast?_components_ofNames h, trimmed_ofNames h (by simp)]
  exact congrArg Path.mk htext.symm

/-- The old extension is cut off the end of the text. -/
theorem withExtension_eq (h : ∀ m ∈ ns ++ [stem ++ dot :: ext], IsName m) (hstem : stem ≠ [])
    (hext : dot ∉ ext) (new : Bytes) :
    (ofNames (ns ++ [stem ++ dot :: ext])).withExtension new =
      (ofNames (ns ++ [stem ++ [dot]])).setExtension new := by
  obtain ⟨front, hfront⟩ := exists_front ns
  have hup : stem ++ dot :: ext ≠ [dot, dot] := (h _ (by simp)).notUp
  have hextension : (ofNames (ns ++ [stem ++ dot :: ext])).extension? = some ext := by
    rw [extension?, fileName?, getLast?_components_ofNames h]
    simp [cutName_append hext hup, hstem]
  have htext : (ofNames (ns ++ [stem ++ dot :: ext])).text.take
      ((ofNames (ns ++ [stem ++ dot :: ext])).text.length - ext.length) =
        (ofNames (ns ++ [stem ++ [dot]])).text := by
    have hsplit : front ++ (stem ++ dot :: ext) = front ++ (stem ++ [dot]) ++ ext := by simp
    rw [hfront, hfront, hsplit, length_append, Nat.add_sub_cancel, take_left]
  rw [withExtension, hextension, Option.map_some, Option.getD_some, htext]

/-- **A file beside another** has its stem and another extension. -/
theorem withExtension_ofNames (h : ∀ m ∈ ns ++ [stem ++ dot :: ext], IsName m) (hstem : stem ≠ [])
    (hdot : stem ≠ [dot]) (hext : dot ∉ ext) (new : Bytes) :
    (ofNames (ns ++ [stem ++ dot :: ext])).withExtension new = ofNames (ns ++ [stem ++ dot :: new]) := by
  have hup : stem ++ [dot] ≠ [dot, dot] := fun heq => hdot (append_inj_left' heq rfl)
  have hname : ∀ m ∈ ns ++ [stem ++ [dot]], IsName m := by
    intro m hm
    rcases mem_append.mp hm with hm | hm
    · exact h m (mem_append_left _ hm)
    · obtain rfl := mem_singleton.mp hm
      refine ⟨?_, hup, ?_⟩
      · simp [isTrivial, hstem]
      · have hslash : slash ∉ stem ++ dot :: ext := (h _ (by simp)).noSlash
        rw [mem_append, not_or] at hslash ⊢
        exact ⟨hslash.1, by decide⟩
  rw [withExtension_eq h hstem hext, setExtension_ofNames hname, cutName_append (by simp) hup,
    if_neg hstem]

/-- **Every file beside one whose stem is a full stop** is the directory above. -/
theorem withExtension_ofNames_dot (h : ∀ m ∈ ns ++ [dot :: dot :: ext], IsName m)
    (hext : dot ∉ ext) (new : Bytes) :
    (ofNames (ns ++ [dot :: dot :: ext])).withExtension new = ofNames (ns ++ [[dot, dot]]) := by
  rw [show dot :: dot :: ext = [dot] ++ dot :: ext from rfl,
    withExtension_eq h (cons_ne_nil _ _) hext, setExtension]
  have hnone : (ofNames (ns ++ [[dot] ++ [dot]])).fileName? = none := by
    rw [← ofNames_join (fun m hm => h m (mem_append_left _ hm)) (by decide), fileName?,
      components_eq, written_join _ rfl, show written ([dot] ++ [dot]) = [.up] from rfl,
      ← append_assoc, getLast?_concat]
  rw [hnone]
  rfl

end Judge.Path
