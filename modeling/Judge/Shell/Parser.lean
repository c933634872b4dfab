import Judge.Shell.Token

/-!
# Shell/Parser — from the text of a script to commands

A script is read line by line: a line is carried out before the next one is looked at.  Tokens are
read one at a time, with one that may be put back; where a command can begin a word may be a keyword
or an alias.
-/

namespace Judge.Shell

/-! ## Tokens -/

/-- What a redirection does, before its target is known. -/
inductive RedirectKind where
  | file (mode : RedirectMode)
  | copy
  | text (stripTabs : Bool)
deriving DecidableEq, Repr

/-- A token of a script. -/
inductive Token where
  | eof
  | newline
  | semicolon
  | ampersand
  | andThen
  | orElse
  | bar
  | openParen
  | closeParen
  | endCase
  | redirect (fd : Nat) (kind : RedirectKind)
  | word (w : Word) (quoted : Bool)
  | keyword (name : String)

namespace Token

def keywords : List String :=
  ["!", "case", "do", "done", "elif", "else", "esac", "fi", "for", "if", "in", "then", "until",
   "while", "\x7b", "\x7d"]

def name : Token → String
  | eof => "end of file"
  | newline => "newline"
  | semicolon => "\";\""
  | ampersand => "\"&\""
  | andThen => "\"&&\""
  | orElse => "\"||\""
  | bar => "\"|\""
  | openParen => "\"(\""
  | closeParen => "\")\""
  | endCase => "\";;\""
  | redirect .. => "redirection"
  | word .. => "word"
  | keyword k => "\"" ++ k ++ "\""

def endsList : Token → Bool
  | eof | closeParen | endCase => true
  | keyword k => ["do", "done", "elif", "else", "esac", "fi", "then", "\x7d"].contains k
  | _ => false

def keyword? : Token → Option String
  | keyword k => some k
  | _ => none

end Token

/-! ## Reading tokens -/

/-- An alias that was filled in: what was left of the script behind it, and whether the next word
may be an alias too. -/
structure Inset where
  name : Text
  left : Nat
  blank : Bool

/-- A script that is being read. -/
structure Source where
  place : Cursor
  aliases : List (Text × Text) := []
  insets : List Inset := []
  last : Token := .eof
  again : Bool := false
  aliasNext : Bool := false

abbrev Reading := StateT Source (Except Mistake)

namespace Reading

def fail {α : Type} (message : String) : Reading α := do
  throw ⟨"Syntax error: " ++ message, (← get).place.line⟩

/-- Fails because of the last token, where another one was expected. -/
def unexpected {α : Type} (expected : Option String) : Reading α := do
  let found := (← get).last.name
  fail (match expected with
    | some e => found ++ " unexpected (expecting " ++ e ++ ")"
    | none => found ++ " unexpected")

def ofPlaces {α : Type} (f : Cursor → Except Mistake (α × Cursor)) : Reading α := do
  let s ← get
  match f s.place with
  | .ok (a, k) => do
    set { s with place := k }
    return a
  | .error e => throw e

/-- Leaves the last token for later. -/
def putBack : Reading Unit := modify fun s => { s with again := true }

/-- Ends with a value at a token that is left for later. -/
def endBefore {α : Type} (a : α) : Reading α := do
  putBack
  return a

/-- The token that was left, or else the next one. -/
def leftOr (next : Reading Token) : Reading Token := do
  let s ← get
  if s.again then
    set { s with again := false }
    return s.last
  else next

end Reading

open Reading

def skipBlanks : Bool → Text → Nat → Cursor
  | _, [], line => ⟨[], line⟩
  | true, '\n' :: rest, line => ⟨'\n' :: rest, line⟩
  | true, _ :: rest, line => skipBlanks true rest line
  | false, '\\' :: '\n' :: rest, line => skipBlanks false rest (line + 1)
  | false, c :: rest, line =>
    if c == ' ' || c == '\t' then skipBlanks false rest line
    else if c == gap then skipBlanks false rest (line + 1)
    else if c == '#' then skipBlanks true rest line
    else ⟨c :: rest, line⟩

def Source.settle (s : Source) : Source :=
  if s.insets.isEmpty then { s with aliasNext := false }
  else
    let n := s.place.text.length
    let ended := s.insets.filter fun i => n ≤ i.left
    { s with
      insets := s.insets.filter fun i => i.left < n
      aliasNext := ended.any (·.blank) }

def readRedirect (c : Char) (fd : Option Nat) (k : Cursor) : Token × Cursor :=
  if c == '>' then
    let fd := fd.getD 1
    match k.joined with
    | some ('>', after) => (.redirect fd (.file .append), after)
    | some ('|', after) => (.redirect fd (.file .clobber), after)
    | some ('&', after) => (.redirect fd .copy, after)
    | _ => (.redirect fd (.file .output), k)
  else
    let fd := fd.getD 0
    match k.joined with
    | some ('<', after) =>
      match after.follows? '-' with
      | some further => (.redirect fd (.text true), further)
      | none => (.redirect fd (.text false), after)
    | some ('&', after) => (.redirect fd .copy, after)
    | some ('>', after) => (.redirect fd (.file .both), after)
    | _ => (.redirect fd (.file .input), k)

def descriptor? : Word → Bool → Option (Option Nat)
  | [], false => some none
  | [.literal [d] false], false => if d.isDigit then some (some (d.toNat - '0'.toNat)) else none
  | _, _ => none

variable (nested : Nested)

def readWordToken (bare : Bool) (fuel : Nat) (k : Cursor) : Except Mistake (Token × Cursor) := do
  let (w, quoted, after) ← readWord nested bare fuel k
  let redirected := match after.joined with
    | some (c, further) =>
      if c == '<' || c == '>' then
        (descriptor? w quoted).map fun fd => readRedirect c fd further
      else none
    | none => none
  return redirected.getD (.word w quoted, after)

def scan (bare : Bool) (fuel : Nat) (k : Cursor) : Except Mistake (Token × Cursor) :=
  let twice (after : Cursor) (c : Char) (two one : Token) : Except Mistake (Token × Cursor) :=
    match after.follows? c with
    | some further => .ok (two, further)
    | none => .ok (one, after)
  match k.joined with
  | none => .ok (.eof, k)
  | some ('\n', after) => .ok (.newline, after)
  | some ('&', after) => twice after '&' .andThen .ampersand
  | some ('|', after) => twice after '|' .orElse .bar
  | some (';', after) => twice after ';' .endCase .semicolon
  | some ('(', after) => .ok (.openParen, after)
  | some (')', after) => .ok (.closeParen, after)
  | some _ => readWordToken nested bare fuel k

def nextToken (bare : Bool) (fuel : Nat) : Reading Token := do
  modify fun s => Source.settle
    { s with place := skipBlanks false s.place.text s.place.line }
  let t ← ofPlaces (scan nested bare fuel)
  modify fun s => { s with last := t }
  return t

def Token.bareWord? : Token → Option Text
  | .word [.literal t false] false => some t
  | _ => none

/-- What may become of a token. -/
structure Wish where
  newlines : Bool := false
  keywords : Bool := false
  aliases : Bool := false

def Wish.start : Wish := { newlines := true, keywords := true, aliases := true }

def skipNewlines : Nat → Token → Reading Token
  | 0, t => return t
  | fuel + 1, t =>
    match t with
    | .newline => do skipNewlines fuel (← nextToken nested false fuel)
    | _ => return t

def fillAlias (name : Text) : Reading Bool := do
  let s ← get
  match s.aliases.lookup name with
  | none => return false
  | some value =>
    if s.insets.any (·.name == name) then return false
    else
      let inset : Inset :=
        { name, left := s.place.text.length
          blank := value.getLast? == some ' ' || value.getLast? == some '\t' }
      unless value.isEmpty do
        set { s with
          place := { s.place with text := value ++ s.place.text }, insets := inset :: s.insets }
      return true

/-- **Reads a token.** -/
def readToken (wish : Wish) : Nat → Reading Token
  | 0 => return .eof
  | fuel + 1 => do
    let t ← leftOr (nextToken nested false fuel)
    let t ← if wish.newlines then skipNewlines nested fuel t else pure t
    match t.bareWord? with
    | none => return t
    | some word =>
      if wish.keywords && Token.keywords.contains (String.ofList word) then
        let t := Token.keyword (String.ofList word)
        modify fun s => { s with last := t }
        return t
      else if wish.aliases || (← get).aliasNext then
        if ← fillAlias word then readToken wish fuel else return t
      else return t

/-! ## Redirections -/

/-- Reads the text that follows the command at hand, and takes it out of the script. -/
def takeDocument (plain : Bool) (e : Ending) (fuel : Nat) : Reading Word :=
  ofPlaces fun k =>
    let line := k.text.takeWhile (· != '\n')
    match k.text.drop line.length with
    | [] => (readDocument nested plain e fuel ⟨[], k.line⟩).map fun r => (r.1, k)
    | _ :: below => do
      let start := k.line + 1
      let (body, after) ← readDocument nested plain e fuel ⟨below, start⟩
      let gaps := List.replicate (after.line - start) gap
      return (body, { k with text := line ++ '\n' :: gaps ++ after.text })

def readTarget (fuel : Nat) (fd : Nat) (kind : RedirectKind) : Reading Redirection := do
  let isText := match kind with
    | .text _ => true
    | _ => false
  match ← leftOr (nextToken nested isText fuel) with
  | .word w quoted =>
    match kind with
    | .file mode => return .file fd mode w
    | .copy => return .copy fd w
    | .text stripTabs => do
      let body ← takeDocument nested quoted ⟨Word.plain w, stripTabs⟩ fuel
      return .text fd body
  | _ => unexpected none

def readRedirections : Nat → List Redirection → Reading (List Redirection)
  | 0, done => return done.reverse
  | fuel + 1, done => do
    match ← readToken nested { keywords := true, aliases := true } fuel with
    | .redirect fd kind => do
      let r ← readTarget nested fuel fd kind
      readRedirections fuel (r :: done)
    | _ => endBefore done.reverse

/-! ## Commands -/

def expect (fuel : Nat) (wanted : Token) : Reading Unit := do
  let t ← readToken nested { keywords := true } fuel
  unless t.name == wanted.name do unexpected (some wanted.name)

/-- A simple command under construction, backwards. -/
structure Simple where
  line : Nat
  assignments : List (Text × Word) := []
  words : List Word := []
  redirections : List Redirection := []

def specialNames : List String :=
  [":", ".", "break", "continue", "eval", "exec", "exit", "export", "local", "readonly", "return",
   "set", "shift", "times", "trap", "unset"]

def inBackground (line : Nat) : Command → Command
  | .pipeline _ stages => .pipeline true stages
  | .redirected line c redirections => .background line c redirections
  | c => .background line c []

/-- How a list of commands ends. -/
inductive ListKind where
  | line
  | body
  | optional
deriving DecidableEq, Repr

mutual

def readList : Nat → ListKind → List Command → Reading (List Command)
  | 0, _, _ => unexpected none
  | fuel + 1, kind, done => do
    let wish : Wish := { newlines := kind != .line, keywords := true, aliases := true }
    let t ← readToken nested wish fuel
    match t with
    | .newline => return done.reverse
    | .eof => endBefore done.reverse
    | _ => do
      putBack
      if (kind == .optional || (kind == .body && !done.isEmpty)) && t.endsList then
        return done.reverse
      else
        let line := (← get).place.line
        let c ← readAndOr fuel
        match ← readToken nested {} fuel with
        | .ampersand => readList fuel kind (inBackground line c :: done)
        | .semicolon => readList fuel kind (c :: done)
        | .newline | .eof => do
          putBack
          readList fuel kind (c :: done)
        | _ =>
          if kind == .line then unexpected none else endBefore (c :: done).reverse

/-- Reads commands up to a token that has to be there. -/
def readUpTo : Nat → Token → Reading (List Command)
  | 0, _ => unexpected none
  | fuel + 1, wanted => do
    let body ← readList fuel .body []
    expect nested fuel wanted
    return body

def readAndOr : Nat → Reading Command
  | 0 => unexpected none
  | fuel + 1 => do
    let first ← readPipeline fuel {}
    readOrMore fuel first

def readOrMore : Nat → Command → Reading Command
  | 0, _ => unexpected none
  | fuel + 1, first => do
    match ← readToken nested {} fuel with
    | .andThen => do
      let second ← readPipeline fuel .start
      readOrMore fuel (.both first second)
    | .orElse => do
      let second ← readPipeline fuel .start
      readOrMore fuel (.either first second)
    | _ => endBefore first

def readPipeline : Nat → Wish → Reading Command
  | 0, _ => unexpected none
  | fuel + 1, wish => do
    let t ← readToken nested wish fuel
    let negated := t.keyword? == some "!"
    unless negated do putBack
    let inner : Wish := if negated then { keywords := true, aliases := true } else {}
    let first ← readCommand fuel inner
    let stages ← readStages fuel [first]
    let c := match stages with
      | [c] => c
      | _ => .pipeline false stages
    return if negated then .negated c else c

def readStages : Nat → List Command → Reading (List Command)
  | 0, _ => unexpected none
  | fuel + 1, done => do
    match ← readToken nested {} fuel with
    | .bar => do
      let c ← readCommand fuel .start
      readStages fuel (c :: done)
    | _ => endBefore done.reverse

def readCommand : Nat → Wish → Reading Command
  | 0, _ => unexpected none
  | fuel + 1, wish => do
    let line := (← get).place.line
    match ← readToken nested wish fuel with
    | .word .. | .redirect .. => do
      putBack
      readSimple fuel { line := (← get).place.line }
    | .openParen => do
      let body ← readUpTo fuel .closeParen
      let redirections ← readRedirections nested fuel []
      return .subshell line body redirections
    | .keyword k => do
      let c ← readCompound fuel line k
      let redirections ← readRedirections nested fuel []
      return if redirections.isEmpty then c else .redirected line c redirections
    | _ => unexpected none

def readCompound : Nat → Nat → String → Reading Command
  | 0, _, _ => unexpected none
  | fuel + 1, line, k =>
    match k with
    | "\x7b" => return .group (← readUpTo fuel (.keyword "\x7d"))
    | "if" => readBranch fuel []
    | "while" | "until" => do
      let condition ← readUpTo fuel (.keyword "do")
      let body ← readUpTo fuel (.keyword "done")
      return .loop (k == "until") condition body
    | "for" => do
      let t ← readToken nested {} fuel
      match t with
      | .word w quoted =>
        let name := Word.plain w
        if quoted || t.bareWord?.isNone || !isName name then
          fail "Bad for loop variable"
        else
          let words ← readValues fuel
          let t ← readToken nested .start fuel
          unless t.keyword? == some "do" do unexpected (some "\"do\"")
          let body ← readUpTo fuel (.keyword "done")
          return .each line name words body
      | _ => fail "Bad for loop variable"
    | "case" => do
      match ← readToken nested {} fuel with
      | .word w _ => do
        let t ← readToken nested .start fuel
        unless t.keyword? == some "in" do unexpected (some "\"in\"")
        let clauses ← readClauses fuel []
        return .select line w clauses
      | _ => unexpected (some "word")
    | _ => unexpected none

/-- Reads a condition with its commands, and the branches after them. -/
def readBranch : Nat → List (List Command × List Command) → Reading Command
  | 0, _ => unexpected none
  | fuel + 1, done => do
    let condition ← readUpTo fuel (.keyword "then")
    let body ← readList fuel .body []
    readBranches fuel ((condition, body) :: done)

def readBranches : Nat → List (List Command × List Command) → Reading Command
  | 0, _ => unexpected none
  | fuel + 1, done => do
    match ← readToken nested { keywords := true } fuel with
    | .keyword "elif" => readBranch fuel done
    | .keyword "else" => return .choice done.reverse (← readUpTo fuel (.keyword "fi"))
    | _ => do
      putBack
      expect nested fuel (.keyword "fi")
      return .choice done.reverse []

/-- Reads the words that a loop goes over, which are all arguments if there are none. -/
def readValues : Nat → Reading (List Word)
  | 0 => unexpected none
  | fuel + 1 => do
    let t ← readToken nested .start fuel
    if t.keyword? == some "in" then
      let words ← readWords fuel []
      match (← get).last with
      | .newline | .semicolon => return words
      | _ => unexpected none
    else
      match t with
      | .semicolon => pure ()
      | _ => putBack
      return [[.mark, .parameter ['@'] .value [] true, .mark]]

def readWords : Nat → List Word → Reading (List Word)
  | 0, _ => unexpected none
  | fuel + 1, done => do
    match ← readToken nested {} fuel with
    | .word w _ => readWords fuel (w :: done)
    | _ => return done.reverse

def readClauses : Nat → List (List Word × List Command) → Reading (List (List Word × List Command))
  | 0, _ => unexpected none
  | fuel + 1, done => do
    let t ← readToken nested { newlines := true, keywords := true } fuel
    if t.keyword? == some "esac" then return done.reverse
    else
      let first ← match t with
        | .openParen => readToken nested {} fuel
        | _ => pure t
      let patterns ← readPatterns fuel first []
      let body ← readList fuel .optional []
      let t ← readToken nested { newlines := true, keywords := true } fuel
      if t.keyword? == some "esac" then return ((patterns, body) :: done).reverse
      else match t with
        | .endCase => readClauses fuel ((patterns, body) :: done)
        | _ => unexpected (some Token.endCase.name)

def readPatterns : Nat → Token → List Word → Reading (List Word)
  | 0, _, _ => unexpected none
  | fuel + 1, t, done => do
    let w := match t with
      | .word w _ => w
      | .keyword k => [.literal k.toList false]
      | _ => []
    match ← readToken nested {} fuel with
    | .bar => do
      let t ← readToken nested {} fuel
      readPatterns fuel t (w :: done)
    | .closeParen => return (w :: done).reverse
    | _ => unexpected (some Token.closeParen.name)

/-- Reads on with a simple command, or with a function that it turns out to define. -/
def readSimple : Nat → Simple → Reading Command
  | 0, _ => unexpected none
  | fuel + 1, c => do
    let t ← readToken nested { aliases := c.words.isEmpty } fuel
    match t with
    | .word w _ =>
      match if c.words.isEmpty then Word.assignment? w else none with
      | some a => readSimple fuel { c with assignments := a :: c.assignments }
      | none => readSimple fuel { c with words := w :: c.words }
    | .redirect fd kind => do
      let r ← readTarget nested fuel fd kind
      readSimple fuel { c with redirections := r :: c.redirections }
    | _ =>
      match t, c.words, c.assignments, c.redirections with
      | .openParen, [w], [], [] => readFunction fuel w
      | _, words, assignments, redirections =>
        endBefore (.simple c.line assignments.reverse words.reverse redirections.reverse)

/-- Reads a function after its name and an opening parenthesis. -/
def readFunction : Nat → Word → Reading Command
  | 0, _ => unexpected none
  | fuel + 1, w => do
    match ← readToken nested {} fuel with
    | .closeParen => pure ()
    | _ => unexpected (some Token.closeParen.name)
    match w with
    | [.literal name false] =>
      if !isName name || specialNames.contains (String.ofList name) then
        fail "Bad function name"
      else
        let line := (← get).place.line
        let body ← readCommand fuel .start
        return .define line name body
    | _ => fail "Bad function name"

end

/-! ## Scripts -/

def nestedReader (aliases : List (Text × Text)) (fuel : Nat) : Nat → Nested
  | 0 => { closed := fun k => k.fail "nested too deep", whole := fun _ => .ok [] }
  | depth + 1 =>
    let inner := nestedReader aliases fuel depth
    { closed := fun k => do
        let read : Reading (List Command) := do
          let body ← readList inner fuel .optional []
          match ← readToken inner {} fuel with
          | .closeParen => return body
          | _ => unexpected (some Token.closeParen.name)
        let (body, s) ← read.run { place := k, aliases }
        return (body, s.place)
      whole := fun t => do
        let (body, _) ← (readList inner fuel .optional []).run
          { place := ⟨t, 1⟩, aliases }
        return body }

def maxNesting : Nat := 1000

def readText (aliases : List (Text × Text)) (fuel : Nat) (t : Text) : Except Mistake Word := do
  let (w, _) ← readTextTo (nestedReader aliases fuel maxNesting) false none fuel ⟨t, 1⟩
  return w

/-- What was read from a script. -/
structure Line where
  commands : Option (List Command)
  after : Cursor
  ends : Bool

/-- **Reads the commands of one line**, or of as many lines as they take. -/
def readLine (aliases : List (Text × Text)) (fuel : Nat) (k : Cursor) : Except Mistake Line := do
  let (commands, s) ← (readList (nestedReader aliases fuel maxNesting) fuel .line []).run
    { place := k, aliases }
  let ends := s.again && match s.last with
    | .eof => true
    | _ => false
  return { commands := if ends && commands.isEmpty then none else some commands
           after := s.place, ends }

end Judge.Shell
