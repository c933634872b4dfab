import Judge.Conversation.Connection
import Mathlib.Data.List.Basic

/-!
# Proofs/Latches — what a latch does to those who arrive and wait

Tasks arrive at a latch and wait for it in any order, on a board where other latches come and go.
`Standing` relates the board to the calls made so far: the latch expects those who have yet to
arrive, and it holds back everyone who arrived or waited until nobody is expected any more.  A step
keeps it (`Standing.step`), so a whole play does (`Standing.play`), and what the next call comes to
is read off it.
-/

namespace Judge.LatchBoard

open List

/-! ## Plays -/

/-- The board after some moves, and each move with what it led to. -/
def play (b : LatchBoard) : List Move → List (Move × Result) × LatchBoard
  | [] => ([], b)
  | move :: moves =>
    let rest := (b.step move).2.play moves
    ((move, (b.step move).1) :: rest.1, rest.2)

/-- The failure of a task that nobody expected. -/
def Result.failure? : Result → Option InteractError
  | .refused latch => some (.crash latch.unexpected)
  | _ => none

/-- **The arrivals at a latch** that did not fail. -/
def arrivals (index : Nat) (calls : List (Move × Result)) : Nat :=
  calls.countP fun call => call.1 = .arrive index ∧ call.2.failure? = none

def waits (index : Nat) (calls : List (Move × Result)) : Nat :=
  calls.countP fun call => call.1 = .wait index

theorem arrivals_concat (index : Nat) (calls : List (Move × Result)) (move : Move)
    (result : Result) :
    arrivals index (calls ++ [(move, result)]) =
      arrivals index calls + if move = .arrive index ∧ result.failure? = none then 1 else 0 := by
  rw [arrivals, countP_append, countP_singleton]
  simp only [arrivals, decide_eq_true_eq]

theorem waits_concat (index : Nat) (calls : List (Move × Result)) (move : Move) (result : Result) :
    waits index (calls ++ [(move, result)]) =
      waits index calls + if move = .wait index then 1 else 0 := by
  rw [waits, countP_append, countP_singleton]
  simp only [waits, decide_eq_true_eq]

/-! ## Who is blocked -/

theorem releasedAt_of_latch {b : LatchBoard} {index : Nat} {latch : Latch}
    (h : b.latches[index]? = some latch) : b.releasedAt index = true ↔ latch.remaining = 0 := by
  simp [releasedAt, h, Latch.released]

/-- **Settling a board lets everyone go whose latch is released**, and nobody else. -/
theorem count_settle (b : LatchBoard) (index : Nat) :
    b.settle.blocked.count index = if b.releasedAt index then 0 else b.blocked.count index := by
  unfold settle
  split
  · rename_i hreleased
    rw [count_eq_zero]
    intro hmem
    have hkept := (mem_filter.mp hmem).2
    rw [hreleased] at hkept
    cases hkept
  · rename_i hheld
    exact count_filter (by simpa using hheld)

/-! ## The invariant -/

/-- **Where a latch stands after some calls**, when it expected `n` arrivals at first. -/
structure Standing (index id n : Nat) (calls : List (Move × Result)) (b : LatchBoard) : Prop where
  latch : b.latches[index]? = some ⟨id, n - arrivals index calls⟩
  bounded : arrivals index calls ≤ n
  blocked : b.blocked.count index =
    if arrivals index calls = n then 0 else arrivals index calls + waits index calls

variable {index id n : Nat} {calls : List (Move × Result)} {b : LatchBoard}

section

variable (h : Standing index id n calls b)

include h

theorem Standing.releasedAt_iff : b.releasedAt index = true ↔ arrivals index calls = n := by
  have hbounded := h.bounded
  rw [releasedAt_of_latch h.latch]
  dsimp only
  omega

/-! What an arrival comes to: it is refused when nobody is expected, it lets everyone go when it is
the last one expected, and otherwise it is held back. -/

theorem Standing.arrive_refused
    (hall : arrivals index calls = n) : b.step (.arrive index) = (.refused ⟨id, 0⟩, b) := by
  have hlatch := h.latch
  rw [hall, Nat.sub_self] at hlatch
  simp [LatchBoard.step, hlatch, Latch.arrive?]

theorem Standing.arrive_last (hlast : arrivals index calls + 1 = n) :
    b.step (.arrive index)
      = (.passed, settle { b with latches := b.latches.set index ⟨id, 0⟩ }) := by
  have hlatch := h.latch
  rw [← hlast, Nat.add_sub_cancel_left] at hlatch
  simp [LatchBoard.step, hlatch, Latch.arrive?, Latch.released]

theorem Standing.arrive_blocked (hmore : arrivals index calls + 1 < n) :
    b.step (.arrive index) =
      (.blocked, { b with latches := b.latches.set index ⟨id, n - (arrivals index calls + 1)⟩,
                          blocked := b.blocked ++ [index] }) := by
  have hexpected : n - arrivals index calls ≠ 0 := by omega
  have hheld : n - (arrivals index calls + 1) ≠ 0 := by omega
  simp [LatchBoard.step, h.latch, Latch.arrive?, Latch.released, hexpected, Nat.sub_sub, hheld]

end

/-- A wait changes no latch: it is over at once if the latch is released, and held back if not. -/
theorem step_wait (b : LatchBoard) (index : Nat) :
    b.step (.wait index) =
      if b.releasedAt index then (.passed, b)
      else (.blocked, { b with blocked := b.blocked ++ [index] }) := rfl

section

variable (h : Standing index id n calls b)

include h

theorem Standing.lt_length : index < b.latches.length :=
  (List.getElem?_eq_some_iff.mp h.latch).1

/-- A move elsewhere leaves the latch and those it holds back alone. -/
theorem Standing.elsewhere {move : Move}
    (harrive : move ≠ .arrive index) (hwait : move ≠ .wait index) :
    (b.step move).2.latches[index]? = b.latches[index]? ∧
      (b.step move).2.blocked.count index = b.blocked.count index := by
  cases move with
  | create expected id' => exact ⟨getElem?_append_left h.lt_length, rfl⟩
  | wait index' =>
    have hne : index' ≠ index := fun heq => hwait (congrArg _ heq)
    rw [step_wait]
    split
    · exact ⟨rfl, rfl⟩
    · refine ⟨rfl, ?_⟩
      rw [count_append, count_singleton, if_neg (by simpa using hne), Nat.add_zero]
  | arrive index' =>
    have hne : index' ≠ index := fun heq => harrive (congrArg _ heq)
    have hset : ∀ latch : Latch, (b.latches.set index' latch)[index]? = b.latches[index]? :=
      fun latch => getElem?_set_ne hne
    simp only [LatchBoard.step]
    split
    · exact ⟨rfl, rfl⟩
    · split
      · exact ⟨rfl, rfl⟩
      · rename_i latch hlatch
        split
        · refine ⟨hset latch, ?_⟩
          -- the latch is as it was, so whoever it would let go is not blocked any more
          rw [count_settle]
          split
          · rename_i hreleased
            have hwas : b.releasedAt index = true := by
              simpa [releasedAt, hset latch] using hreleased
            rw [h.blocked, if_pos (h.releasedAt_iff.mp hwas)]
          · rfl
        · refine ⟨hset latch, ?_⟩
          rw [count_append, count_singleton, if_neg (by simpa using hne), Nat.add_zero]

/-- A call that counts for nothing keeps the account, if it changes nothing at the latch. -/
theorem Standing.uncounted {move : Move} {result : Result}
    {b' : LatchBoard} (harrive : ¬ (move = .arrive index ∧ result.failure? = none))
    (hwait : move ≠ .wait index) (hlatch : b'.latches[index]? = b.latches[index]?)
    (hcount : b'.blocked.count index = b.blocked.count index) :
    Standing index id n (calls ++ [(move, result)]) b' := by
  have harrivals : arrivals index (calls ++ [(move, result)]) = arrivals index calls := by
    rw [arrivals_concat, if_neg harrive, Nat.add_zero]
  have hwaits : waits index (calls ++ [(move, result)]) = waits index calls := by
    rw [waits_concat, if_neg hwait, Nat.add_zero]
  refine ⟨?_, ?_, ?_⟩
  · rw [hlatch, harrivals, h.latch]
  · rw [harrivals]
    exact h.bounded
  · rw [hcount, harrivals, hwaits, h.blocked]

/-- **An arrival keeps the account**, whether it is expected or not. -/
theorem Standing.step_arrive :
    Standing index id n (calls ++ [(.arrive index, (b.step (.arrive index)).1)])
      (b.step (.arrive index)).2 := by
  have hbounded := h.bounded
  have harrivals : ∀ result : Result, result.failure? = none →
      arrivals index (calls ++ [(.arrive index, result)]) = arrivals index calls + 1 := by
    intro result hresult
    rw [arrivals_concat, if_pos ⟨rfl, hresult⟩]
  have hwaits : ∀ result : Result,
      waits index (calls ++ [(.arrive index, result)]) = waits index calls := by
    intro result
    rw [waits_concat, if_neg nofun, Nat.add_zero]
  have hset : ∀ latch : Latch, (b.latches.set index latch)[index]? = some latch :=
    fun latch => getElem?_set_self h.lt_length
  rcases Nat.lt_trichotomy (arrivals index calls + 1) n with hmore | hlast | hall
  · rw [h.arrive_blocked hmore]
    refine ⟨?_, ?_, ?_⟩
    · rw [harrivals _ rfl]
      exact hset _
    · rw [harrivals _ rfl]
      omega
    · rw [harrivals _ rfl, hwaits, count_append, count_singleton_self, h.blocked,
        if_neg (by omega), if_neg (by omega)]
      omega
  · rw [h.arrive_last hlast]
    refine ⟨?_, ?_, ?_⟩
    · rw [harrivals _ rfl, hlast, Nat.sub_self]
      exact hset _
    · rw [harrivals _ rfl]
      omega
    · rw [harrivals _ rfl, if_pos hlast, count_settle,
        if_pos ((releasedAt_of_latch (hset _)).mpr rfl)]
  · rw [h.arrive_refused (by omega)]
    exact h.uncounted nofun nofun rfl rfl

/-- **A wait keeps the account.** -/
theorem Standing.step_wait :
    Standing index id n (calls ++ [(.wait index, (b.step (.wait index)).1)])
      (b.step (.wait index)).2 := by
  have harrivals : ∀ result : Result,
      arrivals index (calls ++ [(.wait index, result)]) = arrivals index calls := by
    intro result
    rw [arrivals_concat, if_neg nofun, Nat.add_zero]
  have hlatches : (b.step (.wait index)).2.latches = b.latches := by
    rw [LatchBoard.step_wait]
    split <;> rfl
  refine ⟨?_, ?_, ?_⟩
  · rw [harrivals, hlatches, h.latch]
  · rw [harrivals]
    exact h.bounded
  · rw [harrivals, waits_concat, if_pos rfl, LatchBoard.step_wait]
    split
    · rename_i hreleased
      have hall := h.releasedAt_iff.mp hreleased
      rw [h.blocked, if_pos hall, if_pos hall]
    · rename_i hheld
      have hnot : arrivals index calls ≠ n := fun hall => hheld (h.releasedAt_iff.mpr hall)
      rw [count_append, count_singleton_self, h.blocked, if_neg hnot, if_neg hnot]
      omega

/-- **A move keeps the account of a latch.** -/
theorem Standing.step (move : Move) :
    Standing index id n (calls ++ [(move, (b.step move).1)]) (b.step move).2 := by
  by_cases harrive : move = .arrive index
  · rw [harrive]
    exact h.step_arrive
  by_cases hwait : move = .wait index
  · rw [hwait]
    exact h.step_wait
  · obtain ⟨hlatch, hcount⟩ := h.elsewhere harrive hwait
    exact h.uncounted (fun hcall => harrive hcall.1) hwait hlatch hcount

/-- **A play keeps the account of a latch.** -/
theorem Standing.play (moves : List Move) :
    Standing index id n (calls ++ (b.play moves).1) (b.play moves).2 := by
  induction moves generalizing calls b with
  | nil => rwa [LatchBoard.play, append_nil]
  | cons move moves ih =>
    have hrest := ih (h.step move)
    rwa [append_assoc] at hrest

end

/-- A new latch expects everyone, and nobody waits for it. -/
theorem standing_create (b : LatchBoard) (hfree : b.latches.length ∉ b.blocked) (n : Nat)
    (id : Option Nat) :
    Standing b.latches.length (id.getD b.latches.length) n [] (b.step (.create n id)).2 where
  latch := getElem?_concat_length
  bounded := Nat.zero_le n
  blocked := by
    have hcount : (b.step (.create n id)).2.blocked.count b.latches.length = 0 :=
      count_eq_zero.mpr hfree
    rw [hcount]
    split <;> rfl

/-- **A latch counts down and then stays open.**  A latch is made for `n` arrivals on a board where
nobody waits for it yet, and calls of any kind follow in any order.  It is released if and only if
`n` tasks have arrived, and for good; until then everyone who arrived or waited is blocked, and from
then on nobody.  Of the arrivals, the last one expected passes at once, those before it are blocked,
and those after it fail and change nothing.  A wait leaves all latches as they are. -/
theorem latch_counts_down (b : LatchBoard) (hfree : b.latches.length ∉ b.blocked) (n : Nat)
    (id : Option Nat) (moves : List Move) {calls : List (Move × Result)} {now : LatchBoard}
    {index : Nat} (hindex : index = b.latches.length)
    (hplay : (b.step (.create n id)).2.play moves = (calls, now)) :
    (now.releasedAt index = true ↔ arrivals index calls = n) ∧
    (now.releasedAt index = true → ∀ more, (now.play more).2.releasedAt index = true) ∧
    now.blocked.count index =
      (if now.releasedAt index then 0 else arrivals index calls + waits index calls) ∧
    (arrivals index calls + 1 < n → (now.step (.arrive index)).1 = .blocked) ∧
    (arrivals index calls + 1 = n → (now.step (.arrive index)).1 = .passed ∧
      (now.step (.arrive index)).2.releasedAt index = true ∧
      index ∉ (now.step (.arrive index)).2.blocked) ∧
    (n ≤ arrivals index calls →
      (now.step (.arrive index)).1.failure? =
        some (.crash ("Unexpected arrive_and_wait() call on Latch " ++ toString (id.getD index))) ∧
      (now.step (.arrive index)).2 = now) ∧
    (now.step (.wait index)).1 = (if now.releasedAt index then .passed else .blocked) ∧
    (now.step (.wait index)).2.latches = now.latches := by
  subst hindex
  have h : Standing b.latches.length (id.getD b.latches.length) n calls now := by
    have hstart := (standing_create b hfree n id).play moves
    rwa [hplay, List.nil_append] at hstart
  refine ⟨h.releasedAt_iff, ?_, ?_, ?_, ?_, ?_, ?_, ?_⟩
  · intro hreleased more
    have hmore := h.play more
    have hle : arrivals b.latches.length calls
        ≤ arrivals b.latches.length (calls ++ (now.play more).1) := by
      rw [arrivals, arrivals, List.countP_append]
      exact Nat.le_add_right _ _
    have hall := h.releasedAt_iff.mp hreleased
    have hbounded := hmore.bounded
    exact hmore.releasedAt_iff.mpr (by omega)
  · rw [h.blocked]
    simp only [h.releasedAt_iff]
  · intro hmore
    rw [h.arrive_blocked hmore]
  · intro hlast
    have hreleased : releasedAt
        { now with latches := now.latches.set b.latches.length ⟨id.getD b.latches.length, 0⟩ }
        b.latches.length = true :=
      (releasedAt_of_latch (List.getElem?_set_self h.lt_length)).mpr rfl
    rw [h.arrive_last hlast]
    refine ⟨rfl, hreleased, ?_⟩
    rw [← List.count_eq_zero, count_settle, if_pos hreleased]
  · intro hall
    rw [h.arrive_refused (Nat.le_antisymm h.bounded hall)]
    exact ⟨rfl, rfl⟩
  · rw [step_wait]
    split <;> rfl
  · rw [step_wait]
    split <;> rfl

/-! Two arrivals at a latch beside another, with a task that waits for each of the two. -/

/-- A board on which a task waits for a latch. -/
def busyBoard : LatchBoard := ⟨[⟨0, 1⟩], [0]⟩

/-- Someone waits for a second latch, and two arrive there with an arrival at the first between. -/
def pairMoves : List Move := [.wait 1, .arrive 1, .arrive 0, .arrive 1]

/-- After the second arrival the latch stays released, and a third arrival would fail. -/
theorem pair_released_for_good :
    busyBoard.latches.length ∉ busyBoard.blocked ∧
    arrivals 1 ((busyBoard.step (.create 2 none)).2.play pairMoves).1 = 2 ∧
    (∀ more, (((busyBoard.step (.create 2 none)).2.play pairMoves).2.play more).2.releasedAt 1
      = true) ∧
    (((busyBoard.step (.create 2 none)).2.play pairMoves).2.step (.arrive 1)).1.failure?
      = some (.crash "Unexpected arrive_and_wait() call on Latch 1") := by
  have hfree : busyBoard.latches.length ∉ busyBoard.blocked := by decide
  have hall : arrivals 1 ((busyBoard.step (.create 2 none)).2.play pairMoves).1 = 2 := by decide
  obtain ⟨hreleased, hstays, -, -, -, hsurplus, -⟩ :=
    latch_counts_down busyBoard hfree 2 none pairMoves (rfl : 1 = busyBoard.latches.length) rfl
  exact ⟨hfree, hall, hstays (hreleased.mpr hall), (hsurplus (Nat.le_of_eq hall.symm)).1⟩

end Judge.LatchBoard
