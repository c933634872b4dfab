import Judge.Shell.Command

/-!
# Shell/Token — the words of a script

A script is read character by character.  Quotation marks, parameters, sums and commands whose
output is used nest in each other; a word under construction keeps the contexts that it is in, and
the parts that are not closed yet.  `readWord` reads a word of a command and `readDocument` the text
that follows a command as its input.
-/

namespace Judge.Shell

/-- What is wrong with a script, and on which line. -/
structure Mistake where
  message : String
  line : Nat
deriving DecidableEq, Repr

/-! ## Characters -/

def gap : Char := Char.ofNat 0x100

/-- A place in a script: what is left, and the line. -/
structure Cursor where
  text : Text
  line : Nat := 1

abbrev Taken := Option (Char × Cursor)

def takeChar : Text → Nat → Taken
  | [], _ => none
  | c :: rest, line =>
    if c == gap then takeChar rest (line + 1)
    else some (c, ⟨rest, if c == '\n' then line + 1 else line⟩)

/-- The next character, where a backslash at the end of a line joins it with the next one. -/
def takeJoined : Text → Nat → Taken
  | [], _ => none
  | '\\' :: '\n' :: rest, line => takeJoined rest (line + 1)
  | c :: rest, line =>
    if c == gap then takeJoined rest (line + 1) else takeChar (c :: rest) line

namespace Cursor

def next (k : Cursor) : Taken := takeChar k.text k.line

def joined (k : Cursor) : Taken := takeJoined k.text k.line

/-- What is behind a character, if that comes next. -/
def follows? (k : Cursor) (c : Char) : Option Cursor :=
  match k.joined with
  | some (d, after) => if d == c then some after else none
  | none => none

def fail {α : Type} (k : Cursor) (message : String) : Except Mistake α :=
  .error ⟨"Syntax error: " ++ message, k.line⟩

end Cursor

def isSpecial (c : Char) : Bool := c.isDigit || "!#$*-?@".toList.contains c

/-! ## Words under construction -/

/-- How characters are understood. -/
inductive Quoting where
  | plain
  | double
  | single
  | sum
deriving DecidableEq, Repr

/-- A context that a word is in. -/
structure Context where
  quoting : Quoting
  inner : Bool := false
  opened : Bool := false
  doubled : Bool := false
  braces : Nat := 0
  doubledBraces : Nat := 0
  parens : Nat := 0

/-- What parts under construction belong to. -/
inductive Opening where
  | word
  | parameter (name : Text) (use : ParameterUse) (quoted : Bool)
  | sum (quoted : Bool)

/-- Parts under construction, backwards. -/
structure Level where
  opening : Opening
  inherited : Bool := false
  marked : Bool := false
  parts : List Part := []
  pending : Text := []
  pendingQuoted : Bool := false

namespace Level

def flush (l : Level) : Level :=
  if l.pending.isEmpty then l
  else { l with parts := .literal l.pending.reverse l.pendingQuoted :: l.parts, pending := [] }

def put (l : Level) (c : Char) (quoted : Bool) : Level :=
  let l := if l.pendingQuoted == quoted then l else l.flush
  { l with pending := c :: l.pending, pendingQuoted := quoted }

def add (l : Level) (p : Part) : Level :=
  let l := l.flush
  { l with parts := p :: l.parts }

def word (l : Level) : Word := l.flush.parts.reverse

end Level

/-- A word under construction: its contexts and levels, the innermost ones first. -/
structure Draft where
  context : Context
  contexts : List Context := []
  level : Level
  levels : List Level := []
  quoted : Bool := false
  document : Bool := false

namespace Draft

variable (d : Draft)

def isQuoted : Bool := d.level.inherited || d.level.marked

def put (c : Char) (quoted : Bool := false) : Draft :=
  let within := d.context.quoting == .double || d.context.quoting == .single
  { d with level := d.level.put c (quoted || d.isQuoted || within) }

def add (p : Part) : Draft := { d with level := d.level.add p }

def mark : Draft :=
  if d.document then d
  else { d with level := { d.level.add .mark with marked := !d.level.marked } }

def push (c : Context) : Draft :=
  { d with context := c, contexts := d.context :: d.contexts }

def pop : Draft :=
  match d.contexts with
  | [] => d
  | c :: rest => { d with context := c, contexts := rest }

def enter (o : Opening) (inherited : Bool) : Draft :=
  { d with level := { opening := o, inherited }, levels := d.level :: d.levels }

/-- Out of the innermost level, which becomes a part of the next one. -/
def leave : Draft :=
  match d.levels with
  | [] => d
  | outer :: rest =>
    let body := d.level.word
    let part : Option Part := match d.level.opening with
      | .word => none
      | .parameter name use quoted => some (.parameter name use body quoted)
      | .sum quoted => some (.arithmetic body quoted)
    { d with level := part.elim outer outer.add, levels := rest }

def openBraces (name : Text) (use : ParameterUse) : Draft :=
  let cuts := match use with
    | .cutFront _ | .cutBack _ => true
    | _ => false
  let quoting :=
    if cuts then .plain
    else if d.context.quoting == .sum then .double
    else d.context.quoting
  let quoted := d.isQuoted
  let d := if quoting != d.context.quoting || d.context.inner then
      d.push { quoting, opened := true, doubled := quoting != .plain }
    else d
  let c := d.context
  let c := { c with
    braces := c.braces + 1
    doubledBraces := if c.doubled then c.doubledBraces + 1 else c.doubledBraces }
  { d with context := c }.enter (.parameter name use quoted) (!cuts && quoted)

def closeBrace : Draft :=
  let c := d.context
  if c.inner || c.braces == 0 then d.put '\x7d'
  else
    let d := d.leave
    if c.braces == 1 && c.opened then d.pop
    else { d with context := { c with
      braces := c.braces - 1, doubledBraces := c.doubledBraces - 1 } }

def toggle : Draft :=
  let d := if d.context.braces == 0 then d
    else { d with context := { d.context with inner := !d.context.inner } }
  d.mark

def openQuotes (c : Char) : Draft :=
  if c == '"' then
    { d with context := { d.context with quoting := .double, doubled := true } }.toggle
  else { d with context := { d.context with quoting := .single } }.mark

def closeQuotes (c : Char) : Draft :=
  if d.document && d.context.braces == 0 then d.put c
  else
    let d := { d with quoted := true }
    let d := if d.context.doubledBraces == 0 then
        { d with context := { d.context with quoting := .plain, doubled := false } }
      else d
    if c == '"' then d.toggle else d.mark

def escape (c : Char) : Draft :=
  let keeps := d.context.doubled && c != '\\' && c != '\x60' && c != '$' &&
    (c != '"' || (d.document && d.context.braces == 0)) && (c != '\x7d' || d.context.braces == 0)
  let d := if keeps then d.put '\\' true else d
  { d.put c true with quoted := true }

end Draft

/-! ## Parameters -/

def takeRun (p : Char → Bool) : Nat → Cursor → Text → Text × Cursor
  | 0, k, done => (done.reverse, k)
  | fuel + 1, k, done =>
    match k.joined with
    | some (c, after) => if p c then takeRun p fuel after (c :: done) else (done.reverse, k)
    | none => (done.reverse, k)

def useOf? (c : Char) (orEmpty : Bool) : Option ParameterUse :=
  match c with
  | '-' => some (.default orEmpty)
  | '=' => some (.assign orEmpty)
  | '?' => some (.demand orEmpty)
  | '+' => some (.replace orEmpty)
  | _ => none

/-- A parameter in braces: its name, its use, and whether its end was read. -/
structure Braced where
  name : Text
  use : ParameterUse
  closed : Bool := false
  after : Cursor

def readUse (name : Text) (k : Cursor) : Braced :=
  let cut (c : Char) (after : Cursor) (use : Bool → ParameterUse) : Braced :=
    match after.follows? c with
    | some further => { name, use := use true, after := further }
    | none => { name, use := use false, after }
  match k.joined with
  | none => { name, use := .wrong, after := k }
  | some (c, after) =>
    if c == '\x7d' then { name, use := .value, closed := true, after }
    else if c == '#' then cut c after .cutFront
    else if c == '%' then cut c after .cutBack
    else if c == ':' then
      match after.joined with
      | some (d, further) =>
        { name, use := (useOf? d true).getD .wrong, after := further }
      | none => { name, use := .wrong, after }
    else { name, use := (useOf? c false).getD .wrong, after }

def readParameterName (fuel : Nat) (one : Bool) (k : Cursor) : Text × Cursor :=
  match k.joined with
  | some (c, after) =>
    if isNameStart c then takeRun isNameChar fuel k []
    else if c.isDigit then if one then ([c], after) else takeRun Char.isDigit fuel k []
    else ([], k)
  | none => ([], k)

def lengthOf (name : Text) (k : Cursor) : Braced :=
  match k.joined with
  | some ('\x7d', _) => { name, use := .length, after := k }
  | _ => { name, use := .wrong, after := k }

def readBraced (fuel : Nat) (k : Cursor) : Braced :=
  match k.joined with
  | none => { name := [], use := .wrong, after := k }
  | some (c, after) =>
    if isNameStart c || c.isDigit then
      let (name, after) := readParameterName fuel false k
      readUse name after
    else if c == '#' then
      match after.joined with
      | none => { name := [c], use := .wrong, after }
      | some (d, further) =>
        if isNameChar d then
          let (name, after) := readParameterName fuel true after
          lengthOf name after
        else match further.joined with
          | some ('\x7d', _) =>
            if d == '\x7d' then readUse [c] after
            else if isSpecial d then { name := [d], use := .length, after := further }
            else { name := [], use := .wrong, after := further }
          | _ => readUse [c] after
    else if isSpecial c then readUse [c] after
    else { name := [], use := .wrong, after := if c == '\x7d' then k else after }

/-! ## Words -/

/-- How commands inside of a word are read: up to a closing parenthesis, or to the end of a text of
their own. -/
structure Nested where
  closed : Cursor → Except Mistake (List Command × Cursor)
  whole : Text → Except Mistake (List Command)

def takeBackquoted (doubled : Bool) : Nat → Cursor → Text → Except Mistake (Text × Cursor)
  | 0, k, _ => k.fail "EOF in backquote substitution"
  | fuel + 1, k, done =>
    match k.joined with
    | none => k.fail "EOF in backquote substitution"
    | some ('\x60', after) => .ok (done, after)
    | some ('\\', after) =>
      match after.next with
      | none => after.fail "EOF in backquote substitution"
      | some (c, further) =>
        if c == '\\' || c == '\x60' || c == '$' || (doubled && c == '"') then
          takeBackquoted doubled fuel further (c :: done)
        else takeBackquoted doubled fuel further (c :: '\\' :: done)
    | some (c, after) => takeBackquoted doubled fuel after (c :: done)

variable (nested : Nested)

/-- What follows a dollar sign; with `bare` it stands for itself. -/
def readDollar (bare : Bool) (fuel : Nat) (k : Cursor) (d : Draft) :
    Except Mistake (Draft × Cursor) :=
  match k.joined with
  | none => .ok (d.put '$', k)
  | some (c, after) =>
    if bare || !(c == '(' || c == '\x7b' || isNameStart c || isSpecial c) then .ok (d.put '$', k)
    else if c == '(' then
      match after.joined with
      | some ('(', further) =>
        .ok ((d.push { quoting := .sum, doubled := true }).enter (.sum d.isQuoted) false, further)
      | _ => do
        let (body, after) ← nested.closed after
        return (d.add (.output body d.isQuoted), after)
    else if c == '\x7b' then
      let b := readBraced fuel after
      if b.closed then .ok (d.add (.parameter b.name b.use [] d.isQuoted), b.after)
      else .ok (d.openBraces b.name b.use, b.after)
    else
      let (name, after) :=
        if isSpecial c then ([c], after) else readParameterName fuel true k
      .ok (d.add (.parameter name .value [] d.isQuoted), after)

/-- The end of a text that follows a command. -/
structure Ending where
  delimiter : Text
  stripTabs : Bool := false

def Ending.reached? (e : Ending) (k : Cursor) : Option Cursor :=
  if e.delimiter.isPrefixOf k.text then
    match k.text.drop e.delimiter.length with
    | [] => some { k with text := [] }
    | '\n' :: rest => some ⟨rest, k.line + 1⟩
    | _ => none
  else none

def Ending.lineStart (e : Ending) (k : Cursor) : Cursor :=
  if e.stripTabs then { k with text := k.text.dropWhile (· == '\t') } else k

/-- What one character does to a word under construction.  `none` stands for the end of the word, in
front of the character. -/
def readStep (bare : Bool) (fuel : Nat) (c : Char) (after : Cursor) (d : Draft) :
    Except Mistake (Option (Draft × Cursor)) :=
  let keep (d : Draft) : Except Mistake (Option (Draft × Cursor)) := .ok (some (d, after))
  match d.context.quoting, c with
  | .single, '\'' => keep (d.closeQuotes c)
  | .single, _ => keep (d.put c)
  | _, '\\' =>
    match after.next with
    | none => keep (d.put '\\' true)
    | some (e, further) => .ok (some (d.escape e, further))
  | _, '$' => (readDollar nested bare fuel after d).map some
  | _, '\x60' =>
    if bare then keep (d.put c)
    else do
      let (text, after) ← takeBackquoted d.context.doubled fuel after []
      let body ← nested.whole text.reverse
      return some (d.add (.output body d.isQuoted), after)
  | _, '\x7d' => keep d.closeBrace
  | .double, '"' => keep (d.closeQuotes c)
  | .double, _ => keep (d.put c)
  | .sum, '(' => keep { d.put c with context := { d.context with parens := d.context.parens + 1 } }
  | .sum, ')' =>
    if 0 < d.context.parens then
      keep { d.put c with context := { d.context with parens := d.context.parens - 1 } }
    else match after.joined with
      | some (')', further) => .ok (some (d.leave.pop, further))
      | _ => keep (d.put c)
  | .sum, _ => keep (d.put c)
  | .plain, '\'' | .plain, '"' => keep (d.openQuotes c)
  | .plain, _ =>
    if d.context.braces == 0 && "<>();&| \t\n".toList.contains c then .ok none else keep (d.put c)

/-- Reads on with a word.  After the end of a line the next one may end a text, and its first
character is taken as it is. -/
def readMore (bare : Bool) (ending : Option Ending) :
    Nat → Bool → Cursor → Draft → Except Mistake (Draft × Cursor)
  | 0, _, k, d => .ok (d, k)
  | fuel + 1, fresh, k, d =>
    let k := if fresh then (ending.map fun e => e.lineStart k).getD k else k
    match if fresh then ending.bind fun e => e.reached? k else none with
    | some after => .ok (d, after)
    | none =>
      match if fresh || d.context.quoting == .single then k.next else k.joined with
      | none => .ok (d, k)
      | some (c, after) => do
        match ← readStep nested bare fuel c after d with
        | none => return (d, k)
        | some (d, after) => readMore bare ending fuel (c == '\n') after d

def Draft.check (d : Draft) (k : Cursor) : Except Mistake Unit :=
  if d.context.quoting == .sum then k.fail "Missing '))'"
  else if d.context.quoting != .plain && !d.document then k.fail "Unterminated quoted string"
  else if d.context.braces != 0 then k.fail "Missing '\x7d'"
  else .ok ()

/-- **Reads a word**, which begins at `k`, and tells whether something in it was quoted.  With
`bare` nothing is filled in. -/
def readWord (bare : Bool) (fuel : Nat) (k : Cursor) : Except Mistake (Word × Bool × Cursor) := do
  let start : Draft := { context := { quoting := .plain }, level := { opening := .word } }
  let (d, k) ← readMore nested bare none fuel false k start
  d.check k
  return (d.level.word, d.quoted, k)

def readTextTo (plain : Bool) (e : Option Ending) (fuel : Nat) (k : Cursor) :
    Except Mistake (Word × Cursor) := do
  let quoting : Quoting := if plain then .single else .double
  let start : Draft :=
    { context := { quoting, doubled := !plain }
      level := { opening := .word, inherited := true }
      document := true }
  let (d, k) ← readMore nested false e fuel e.isSome k start
  d.check k
  return (d.level.word, k)

/-- **Reads a text that follows a command**, up to its end; with `plain` nothing is filled in. -/
def readDocument (plain : Bool) (e : Ending) (fuel : Nat) (k : Cursor) :
    Except Mistake (Word × Cursor) :=
  readTextTo nested plain (some e) fuel k

end Judge.Shell
