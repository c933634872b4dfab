import Judge.Proofs.Cuts
import Judge.Proofs.ScriptLayout
import Mathlib.Data.List.TakeWhile

/-!
# Proofs/WrittenScripts — a script is read as it was written

A script is written as a list of items, one to a line: a connection is declared, a connection does
something, there is a barrier, or there is nothing to do.  `layout` says what such a list comes to
without reading a line: the queue of a connection is what `queueOf` collects from the items after
its declaration.  Every line is read as its item (`applyLine_item`), and items added one by one come
to their layout (`close_foldl_addItem`).
-/

namespace Judge.Script

open List

/-! ## Items -/

/-- What a connection can be told to do. -/
inductive Action where
  | connect
  | stopWrite
  | stopRead
  | send (payload : List Char)
  | recv (payload : List Char)
deriving DecidableEq, Repr

def Action.verb : Action → List Char
  | .connect => "conn".toList
  | .stopWrite => "stop".toList
  | .stopRead => "rstop".toList
  | .send _ => "send".toList
  | .recv _ => "recv".toList

/-- What is to be sent or received. -/
def Action.payload? : Action → Option (List Char)
  | .send payload | .recv payload => some payload
  | _ => none

/-- The command that an action is: a payload is a line. -/
def Action.command : Action → Command
  | .connect => .connect
  | .stopWrite => .stopWrite
  | .stopRead => .stopRead
  | .send payload => .send (Utf8.encode (payload ++ ['\n']))
  | .recv payload => .recv (Utf8.encode (payload ++ ['\n']))

/-- One line of a script. -/
inductive Item where
  | declare (name : String) (transport : Transport)
  | act (name : String) (action : Action)
  | barrier (more : Nat)
  | comment (text : List Char)
  | blank (blanks : List Char)
deriving DecidableEq, Repr

/-- The name of a connection, a verb, and the argument if there is one. -/
def commandLine (name : String) (verb : List Char) (arg : Option (List Char)) : List Char :=
  name.toList ++ ' ' :: (verb ++ (arg.map (' ' :: ·)).getD [])

/-- The line of an item, without its line feed. -/
def Item.line : Item → List Char
  | .declare name transport => commandLine name "type".toList (some transport.text.toList)
  | .act name action => commandLine name action.verb action.payload?
  | .barrier more => replicate (more + 1) '='
  | .comment text => '#' :: text
  | .blank blanks => blanks

/-- The text of a script. -/
def written (items : List Item) : List Char := (items.map Item.line).flatMap (· ++ ['\n'])

/-! ## What can be written -/

/-- A name that a line can begin with. -/
structure IsName (name : String) : Prop where
  nonempty : name.toList ≠ []
  spaceless : ' ' ∉ name.toList
  oneLine : '\n' ∉ name.toList
  noComment : name.toList.head? ≠ some '#'

instance (name : String) : Decidable (IsName name) :=
  decidable_of_iff
    (name.toList ≠ [] ∧ ' ' ∉ name.toList ∧ '\n' ∉ name.toList ∧ name.toList.head? ≠ some '#')
    ⟨fun ⟨h₁, h₂, h₃, h₄⟩ => ⟨h₁, h₂, h₃, h₄⟩, fun ⟨h₁, h₂, h₃, h₄⟩ => ⟨h₁, h₂, h₃, h₄⟩⟩

/-- An item that can be written on one line. -/
def Item.Fits : Item → Prop
  | .declare name _ => IsName name
  | .act name action => IsName name ∧ ∀ payload ∈ action.payload?, '\n' ∉ payload
  | .barrier _ => True
  | .comment text => '\n' ∉ text
  | .blank blanks => blanks.all isBlank = true ∧ '\n' ∉ blanks

instance (item : Item) : Decidable item.Fits :=
  match item with
  | .declare name _ => inferInstanceAs (Decidable (IsName name))
  | .act name action =>
    inferInstanceAs (Decidable (IsName name ∧ ∀ payload ∈ action.payload?, '\n' ∉ payload))
  | .barrier _ => .isTrue trivial
  | .comment text => inferInstanceAs (Decidable ('\n' ∉ text))
  | .blank blanks => inferInstanceAs (Decidable (blanks.all isBlank = true ∧ '\n' ∉ blanks))

/-- The connection that an item declares. -/
def Item.declared? : Item → Option String
  | .declare name _ => some name
  | _ => none

/-- An item that may come after connections of the given names: it declares a new one, or acts on
one of them. -/
def Item.Follows (known : List String) : Item → Prop
  | .declare name _ => name ∉ known
  | .act name _ => name ∈ known
  | _ => True

instance (known : List String) (item : Item) : Decidable (item.Follows known) :=
  match item with
  | .declare name _ => inferInstanceAs (Decidable (name ∉ known))
  | .act name _ => inferInstanceAs (Decidable (name ∈ known))
  | .barrier _ | .comment _ | .blank _ => .isTrue trivial

/-- **A well-formed list of items**, after connections of the given names. -/
def WellFormed (known : List String) : List Item → Prop
  | [] => True
  | item :: items =>
    item.Fits ∧ item.Follows known ∧ WellFormed (known ++ item.declared?.toList) items

instance decidableWellFormed (known : List String) (items : List Item) :
    Decidable (WellFormed known items) :=
  match items with
  | [] => .isTrue trivial
  | item :: items =>
    have := decidableWellFormed (known ++ item.declared?.toList) items
    inferInstanceAs (Decidable (item.Fits ∧ item.Follows known ∧
      WellFormed (known ++ item.declared?.toList) items))

/-! ## What it comes to -/

/-- The queue of a connection behind its declaration, if there were `m` barriers before. -/
def queueOf (name : String) : Nat → List Item → List Command
  | _, [] => [.done]
  | m, .act other action :: items =>
    if other = name then action.command :: queueOf name m items else queueOf name m items
  | m, .barrier _ :: items => .arrive m :: queueOf name (m + 1) items
  | m, _ :: items => queueOf name m items

/-- What a connection does first that is declared after `m` barriers. -/
def entry (m : Nat) : List Command := if m = 0 then [] else [.wait (m - 1)]

/-- The connections that are declared after `m` barriers. -/
def connectionsOf : Nat → List Item → List ConnectionScript
  | _, [] => []
  | m, .declare name transport :: items =>
    ⟨name, transport, entry m ++ queueOf name m items⟩ :: connectionsOf m items
  | m, .barrier _ :: items => connectionsOf (m + 1) items
  | m, _ :: items => connectionsOf m items

/-- The latches of the barriers after the first `m`, when `known` connections are declared: each
expects those that are declared before it. -/
def latchesOf : Nat → Nat → List Item → List Latch
  | _, _, [] => []
  | m, known, .declare _ _ :: items => latchesOf m (known + 1) items
  | m, known, .barrier _ :: items => ⟨m, known⟩ :: latchesOf (m + 1) known items
  | m, known, _ :: items => latchesOf m known items

/-- **The script that a list of items writes.** -/
def layout (items : List Item) : Script := ⟨connectionsOf 0 items, latchesOf 0 0 items⟩

/-! ## Lines -/

theorem chop_of_notMem {cs : List Char} (h : '\n' ∉ cs) : chop cs = cs := by
  have hlast : cs.reverse.dropWhile (· == '\n') = cs.reverse :=
    dropWhile_of_head fun c hc =>
      beq_eq_false_of_notMem h c (mem_reverse.mp (mem_of_mem_head? hc))
  rw [chop, trimRightWhere, hlast, reverse_reverse]

theorem chop_lineFeed {cs : List Char} (h : '\n' ∉ cs) : chop (cs ++ ['\n']) = cs := by
  have hchop : chop (cs ++ ['\n']) = chop cs := by
    simp [chop, trimRightWhere]
  rw [hchop, chop_of_notMem h]

theorem cutAt_space {left : List Char} (h : ' ' ∉ left) (right : List Char) :
    cutAt [' '] (left ++ ' ' :: right) = some (left, right) :=
  cutAt_singleton_eq_some_iff.mpr ⟨rfl, h⟩

theorem cutAt_space_eq_none {cs : List Char} (h : ' ' ∉ cs) : cutAt [' '] cs = none :=
  (cutAt_eq_none_iff (cons_ne_nil _ _)).mpr fun hin =>
    h (hin.subset (mem_singleton_self _))

/-- A word that can stand in the place of a verb. -/
structure IsVerb (verb : List Char) : Prop where
  spaceless : ' ' ∉ verb
  oneLine : '\n' ∉ verb
  letter : (verb.any fun c => !isBlank c && c != '=') = true

instance (verb : List Char) : Decidable (IsVerb verb) :=
  decidable_of_iff
    (' ' ∉ verb ∧ '\n' ∉ verb ∧ (verb.any fun c => !isBlank c && c != '=') = true)
    ⟨fun ⟨h₁, h₂, h₃⟩ => ⟨h₁, h₂, h₃⟩, fun ⟨h₁, h₂, h₃⟩ => ⟨h₁, h₂, h₃⟩⟩

theorem isVerb_type : IsVerb "type".toList := by decide

theorem Action.isVerb_verb (a : Action) : IsVerb a.verb := by
  have hverbs : ∀ verb ∈ ["conn", "stop", "rstop", "send", "recv"], IsVerb verb.toList := by
    decide
  cases a <;> exact hverbs _ (by simp)

theorem fields_commandLine {name : String} {verb : List Char} (hname : IsName name)
    (hverb : IsVerb verb) (arg : Option (List Char)) :
    ∃ word, chop word = verb ∧ fields (commandLine name verb arg ++ ['\n'])
      = (name.toList, some word, arg.map (· ++ ['\n'])) := by
  cases arg with
  | none =>
    refine ⟨verb ++ ['\n'], chop_lineFeed hverb.oneLine, ?_⟩
    have hspace : ' ' ∉ verb ++ ['\n'] := by simp [hverb.spaceless]
    have hline : commandLine name verb none ++ ['\n'] = name.toList ++ ' ' :: (verb ++ ['\n']) := by
      simp [commandLine]
    rw [hline, fields, cutAt_space hname.spaceless]
    dsimp only
    rw [cutAt_space_eq_none hspace]
    rfl
  | some arg =>
    refine ⟨verb, chop_of_notMem hverb.oneLine, ?_⟩
    have hline : commandLine name verb (some arg) ++ ['\n']
        = name.toList ++ ' ' :: (verb ++ ' ' :: (arg ++ ['\n'])) := by
      simp [commandLine]
    rw [hline, fields, cutAt_space hname.spaceless]
    dsimp only
    rw [cutAt_space hverb.spaceless]
    rfl

/-- **A line with a verb is read as it was written.**  The letter in its verb keeps it from being
taken for a blank line or a barrier, whatever the name is. -/
theorem read_commandLine {name : String} {verb : List Char} (hname : IsName name)
    (hverb : IsVerb verb) (arg : Option (List Char)) :
    Line.read (commandLine name verb arg ++ ['\n'])
      = .command name.toList verb (arg.map (· ++ ['\n'])) := by
  obtain ⟨c, hc, hletter⟩ := any_eq_true.mp hverb.letter
  obtain ⟨hblank, hbar⟩ : isBlank c = false ∧ c ≠ '=' := by simpa using hletter
  obtain ⟨word, hword, hfields⟩ := fields_commandLine hname hverb arg
  have hmem : c ∈ commandLine name verb arg ++ ['\n'] := by simp [commandLine, hc]
  have hhead : (commandLine name verb arg ++ ['\n']).head? = name.toList.head? := by
    obtain ⟨x, xs, hx⟩ := exists_cons_of_ne_nil hname.nonempty
    rw [commandLine, hx]
    rfl
  have htrim : (trim (commandLine name verb arg ++ ['\n'])).isEmpty = false :=
    isEmpty_eq_false_iff.mpr (ne_nil_of_mem (mem_trimWhere_of_neg hmem hblank))
  have hall : (trimRightWhere isBlank (commandLine name verb arg ++ ['\n'])).all (· == '=')
      = false := by
    have hkept : c ∈ trimRightWhere isBlank (commandLine name verb arg ++ ['\n']) :=
      mem_reverse.mpr (mem_dropWhile_of_neg (mem_reverse.mpr hmem) hblank)
    exact all_eq_false.mpr ⟨c, hkept, by simpa using hbar⟩
  have hcomment : ((commandLine name verb arg ++ ['\n']).head? == some '#') = false := by
    rw [hhead]
    exact beq_eq_false_iff_ne.mpr hname.noComment
  rw [Line.read, htrim, hcomment, hall, Bool.and_false, hfields]
  simp [hword]

theorem read_barrier (more : Nat) : Line.read (replicate (more + 1) '=' ++ ['\n']) = .barrier := by
  have hbar : '=' ∈ replicate (more + 1) '=' ++ ['\n'] :=
    mem_append_left _ (mem_replicate.mpr ⟨more.succ_ne_zero, rfl⟩)
  have htrim : (trim (replicate (more + 1) '=' ++ ['\n'])).isEmpty = false :=
    isEmpty_eq_false_iff.mpr (ne_nil_of_mem (mem_trimWhere_of_neg hbar (by decide)))
  have hright : trimRightWhere isBlank (replicate (more + 1) '=' ++ ['\n'])
      = replicate (more + 1) '=' := by
    have hfeed : isBlank '\n' = true := by decide
    have hstop : isBlank '=' = false := by decide
    simp [trimRightWhere, hfeed, hstop]
  have hall : (replicate (more + 1) '=').all (· == '=') = true := by simp
  rw [Line.read, htrim, hright, hall]
  rfl

theorem read_comment (text : List Char) : Line.read ('#' :: text ++ ['\n']) = .nothing := by
  simp [Line.read]

theorem read_blank {blanks : List Char} (h : blanks.all isBlank = true) :
    Line.read (blanks ++ ['\n']) = .nothing := by
  have hdrop : (blanks ++ ['\n']).dropWhile isBlank = [] := by
    refine dropWhile_eq_nil_iff.mpr fun c hc => ?_
    rcases mem_append.mp hc with hc | hc
    · exact all_eq_true.mp h c hc
    · rw [mem_singleton.mp hc]
      decide
  have htrim : trim (blanks ++ ['\n']) = [] := by
    rw [trim, trimWhere, hdrop]
    rfl
  rw [Line.read, htrim]
  rfl

/-! ## Items are added one by one -/

/-- The script with one item more. -/
def addItem (s : Script) : Item → Script
  | .declare name transport => s.addConnection name transport
  | .act name action => s.addWhere (·.name == name) action.command
  | .barrier _ => s.addBarrier
  | .comment _ | .blank _ => s

def names (s : Script) : List String := s.connections.map (·.name)

theorem declares_iff {s : Script} {name : String} : s.declares name = true ↔ name ∈ s.names := by
  simp [declares, names]

theorem names_addItem (s : Script) (item : Item) :
    (s.addItem item).names = s.names ++ item.declared?.toList := by
  cases item <;> simp [addItem, names, Item.declared?, addConnection, addBarrier, addWhere]

theorem readTransport_text (name : List Char) (t : Transport) :
    readTransport name "type".toList (some (t.text.toList ++ ['\n'])) = .ok t := by
  cases t <;> rfl

theorem readCommand_verb (name : List Char) (a : Action) :
    readCommand name a.verb (a.payload?.map (· ++ ['\n'])) = .ok a.command := by
  cases a <;> rfl

/-- **An item is read as it was written.** -/
theorem applyLine_item {s : Script} {item : Item} (hfits : item.Fits)
    (hfollows : item.Follows s.names) :
    s.applyLine (Line.read (item.line ++ ['\n'])) = .ok (s.addItem item) := by
  cases item with
  | declare name t =>
    have hnew : s.declares name = false :=
      Bool.eq_false_iff.mpr fun h => hfollows (declares_iff.mp h)
    rw [Item.line, read_commandLine hfits isVerb_type, applyLine, String.ofList_toList, hnew,
      Option.map_some, readTransport_text]
    rfl
  | act name a =>
    rw [Item.line, read_commandLine hfits.1 a.isVerb_verb, applyLine, String.ofList_toList,
      declares_iff.mpr hfollows, readCommand_verb]
    rfl
  | barrier more =>
    rw [Item.line, read_barrier]
    rfl
  | comment text =>
    rw [Item.line, read_comment]
    rfl
  | blank blanks =>
    rw [Item.line, read_blank hfits.1]
    rfl

theorem readFrom_items {s : Script} {items : List Item} (h : WellFormed s.names items) :
    s.readFrom (items.map (·.line ++ ['\n'])) = .ok (items.foldl addItem s) := by
  induction items generalizing s with
  | nil => rfl
  | cons item items ih =>
    obtain ⟨hfits, hfollows, hrest⟩ := h
    rw [← names_addItem] at hrest
    rw [map_cons, readFrom_cons, applyLine_item hfits hfollows]
    exact ih hrest

/-! ## Where the items end up -/

/-- A connection with the rest of its queue. -/
def withQueue (m : Nat) (items : List Item) (k : ConnectionScript) : ConnectionScript :=
  { k with commands := k.commands ++ queueOf k.name m items }

theorem withQueue_act (m : Nat) (name : String) (a : Action) (items : List Item)
    (k : ConnectionScript) :
    withQueue m items (addIf (·.name == name) a.command k)
      = withQueue m (.act name a :: items) k := by
  by_cases hname : name = k.name
  · simp [withQueue, addIf, queueOf, hname]
  · have hother : (k.name == name) = false := beq_eq_false_iff_ne.mpr (Ne.symm hname)
    simp [withQueue, addIf, queueOf, hname, hother]

theorem withQueue_barrier (m more : Nat) (items : List Item) (k : ConnectionScript) :
    withQueue (m + 1) items (addIf (fun _ => true) (.arrive m) k)
      = withQueue m (.barrier more :: items) k := by
  simp [withQueue, addIf, queueOf]

/-- A new connection waits for the last barrier so far. -/
theorem addConnection_eq (s : Script) (name : String) (t : Transport) :
    s.addConnection name t =
      { s with connections := s.connections ++ [⟨name, t, entry s.latches.length⟩] } := by
  have hempty : s.latches.isEmpty = decide (s.latches.length = 0) := by
    cases s.latches <;> rfl
  simp only [addConnection, entry, hempty, decide_eq_true_eq]

/-- **What items add to a script**: to each connection that is there the rest of its queue, and
then the connections and the latches of the items. -/
theorem close_foldl_addItem (s : Script) (items : List Item) :
    (items.foldl addItem s).close =
      ⟨s.connections.map (withQueue s.latches.length items) ++
          connectionsOf s.latches.length items,
        s.latches ++ latchesOf s.latches.length s.connections.length items⟩ := by
  induction items generalizing s with
  | nil =>
    have hdone : addIf (fun _ => true) .done = withQueue s.latches.length [] := rfl
    simp [close, addWhere, connectionsOf, latchesOf, hdone]
  | cons item items ih =>
    rw [foldl_cons, ih]
    cases item with
    | declare name t =>
      simp [addItem, addConnection_eq, connectionsOf, latchesOf, withQueue, queueOf]
    | act name a =>
      simp [addItem, addWhere, connectionsOf, latchesOf, withQueue_act, Function.comp_def]
    | barrier more =>
      simp [addItem, addBarrier, addWhere, connectionsOf, latchesOf, withQueue_barrier _ more,
        Function.comp_def]
    | comment text | blank blanks => rfl

/-! ## The text -/

theorem Item.Fits.oneLine {item : Item} (h : item.Fits) : '\n' ∉ item.line := by
  have hcommand : ∀ {name : String} {verb : List Char} {arg : Option (List Char)}, IsName name →
      IsVerb verb → (∀ a ∈ arg, '\n' ∉ a) → '\n' ∉ commandLine name verb arg := by
    intro name verb arg hname hverb harg
    cases arg with
    | none => simp [commandLine, hname.oneLine, hverb.oneLine]
    | some a => simp [commandLine, hname.oneLine, hverb.oneLine, harg a rfl]
  cases item with
  | declare name t =>
    have htext : '\n' ∉ t.text.toList := by cases t <;> decide
    exact hcommand h isVerb_type fun a ha => Option.mem_some_iff.mp ha ▸ htext
  | act name a => exact hcommand h.1 a.isVerb_verb h.2
  | barrier more => simp [Item.line]
  | comment text => exact not_mem_cons_of_ne_of_not_mem (by decide) h
  | blank blanks => exact h.2

theorem WellFormed.fits {known : List String} {items : List Item} (h : WellFormed known items) :
    ∀ item ∈ items, item.Fits := by
  induction items generalizing known with
  | nil => exact forall_mem_nil _
  | cons item items ih => exact forall_mem_cons.mpr ⟨h.1, ih h.2.2⟩

theorem lines_written {items : List Item} (h : ∀ item ∈ items, item.Fits) :
    lines (written items) = items.map (·.line ++ ['\n']) := by
  have hlines : ∀ line ∈ items.map Item.line, '\n' ∉ line := by
    intro line hline
    obtain ⟨item, hitem, rfl⟩ := mem_map.mp hline
    exact (h item hitem).oneLine
  rw [lines, written, splitWhere_lines hlines]
  simp [Function.comp_def]

/-- **A script is read as it was written.**  The text of a well-formed list of items is read as its
connections in the order of their declaration, each with its own commands, a latch at each barrier
after its declaration, one to wait for if there is a barrier before it, and the command that ends
it; a latch expects the connections that are declared before it. -/
theorem read_written {items : List Item} (h : WellFormed [] items) :
    read (written items) = .ok (layout items) := by
  have hread : readFrom {} (items.map (·.line ++ ['\n'])) = .ok (items.foldl addItem {}) :=
    readFrom_items h
  have hclose : (items.foldl addItem {}).close = layout items := close_foldl_addItem {} items
  rw [read, lines_written h.fits]
  change (readFrom {} _).map close = _
  rw [hread, ← hclose]
  rfl

/-- Two connections, one of them named like a barrier, and payloads with blanks at their ends. -/
def mixedText : List Char :=
  ("# two talk\n= type tcp\n= send   hi there \n=\n \t\nb# type unix\nb# conn\n=====\n" ++
    "= recv \nb# recv = =\n= stop\nb# rstop\n").toList

/-- The items of that text. -/
def mixedItems : List Item :=
  [.comment " two talk".toList, .declare "=" .tcp, .act "=" (.send "  hi there ".toList),
    .barrier 0, .blank " \t".toList, .declare "b#" .unix, .act "b#" .connect, .barrier 4,
    .act "=" (.recv []), .act "b#" (.recv "= =".toList), .act "=" .stopWrite,
    .act "b#" .stopRead]

theorem mixed_items_read_back :
    WellFormed [] mixedItems ∧
      read mixedText = .ok
        { connections :=
            [⟨"=", .tcp, [.send (Utf8.encode "  hi there \n".toList), .arrive 0, .arrive 1,
                .recv (Utf8.encode ['\n']), .stopWrite, .done]⟩,
              ⟨"b#", .unix, [.wait 0, .connect, .arrive 1,
                .recv (Utf8.encode "= =\n".toList), .stopRead, .done]⟩]
          latches := [⟨0, 1⟩, ⟨1, 2⟩] } := by
  have hformed : WellFormed [] mixedItems := by decide
  have htext : written mixedItems = mixedText := by decide
  rw [← htext]
  exact ⟨hformed, (read_written hformed).trans rfl⟩

end Judge.Script
