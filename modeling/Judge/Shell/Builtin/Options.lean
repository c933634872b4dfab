import Judge.Shell.State

/-!
# Shell/Builtin/Options — options of commands and of the shell

How builtin commands read the options among their arguments, how scripts do so with `getopts`, and
the options of the shell itself.
-/

namespace Judge.Shell

namespace Builtin

/-- Does something for each argument; the statuses are put together. -/
def each (args : List Text) (act : Text → Sh Nat) : Sh Nat :=
  args.foldlM (fun status t => return status ||| (← act t)) 0

/-- What is known of an option in a list of letters: whether a value belongs to it.  A colon follows
the letters with a value. -/
def optionIn? (letters : Text) (c : Char) : Option Bool :=
  match letters with
  | [] => none
  | ':' :: rest => optionIn? rest c
  | l :: rest => if l == c then some (rest.head? == some ':') else optionIn? rest c

def takeLetters (letters : Text) : Text → List Text → List (Char × Text) →
    Sh (List (Char × Text) × List Text)
  | [], rest, done => return (done, rest)
  | c :: more, rest, done =>
    match optionIn? letters c with
    | none => fail ("Illegal option -" ++ String.singleton c)
    | some false => takeLetters letters more rest ((c, []) :: done)
    | some true =>
      match more, rest with
      | [], [] => fail ("No arg for -" ++ String.singleton c ++ " option")
      | [], value :: rest | value, rest => return ((c, value) :: done, rest)

def takeOptionsFrom (letters : Text) : Nat → List Text → List (Char × Text) →
    Sh (List (Char × Text) × List Text)
  | 0, args, done => return (done, args)
  | fuel + 1, args, done =>
    match args with
    | ['-', '-'] :: rest => return (done, rest)
    | ('-' :: c :: more) :: rest => do
      let (done, rest) ← takeLetters letters (c :: more) rest done
      takeOptionsFrom letters fuel rest done
    | _ => return (done, args)

/-- **The options in front of the arguments**, in order, and the other arguments. -/
def takeOptions (letters : String) (args : List Text) : Sh (List (Char × Text) × List Text) := do
  let (options, rest) ← takeOptionsFrom letters.toList (args.length + 1) args []
  return (options.reverse, rest)

/-! ## Options of scripts -/

/-- The outcome of looking for an option of a script. -/
structure Sought where
  letter : Char := '?'
  value : Option (Option Text) := none
  message : Option String := none
  index : Nat
  offset : Option Nat := none
  atEnd : Bool := false

/-- Looks at the letter `c` of an argument, with `more` behind it; `index` is the number of the next
argument. -/
def seekLetter (letters : Text) (args : List Text) (index : Nat) (c : Char) (more : Text)
    (offset : Nat) : Sought :=
  let quiet := letters.head? == some ':'
  let here : Option Nat := if more.isEmpty then none else some offset
  match if c == ':' then none else optionIn? letters c with
  | none =>
    if quiet then { value := some (some [c]), index, offset := here }
    else { value := some none, message := some ("Illegal option -" ++ String.singleton c)
           index, offset := here }
  | some false => { letter := c, value := some (some []), index, offset := here }
  | some true =>
    if !more.isEmpty then { letter := c, value := some (some more), index }
    else match args[index - 1]? with
      | some value => { letter := c, value := some (some value), index := index + 1 }
      | none =>
        if quiet then { letter := ':', value := some (some [c]), index }
        else { value := some none
               message := some ("No arg for -" ++ String.singleton c ++ " option"), index }

def seek (letters : Text) (args : List Text) (index : Nat) (offset : Option Nat) : Sought :=
  let within := match offset with
    | some n =>
      if index ≤ 1 then [] else ((args[index - 2]?).getD []).drop n
    | none => []
  match within with
  | c :: more => seekLetter letters args index c more (offset.getD 0 + 1)
  | [] =>
    match args[index - 1]? with
    | some ['-', '-'] => { index := index + 1, atEnd := true }
    | some ('-' :: c :: more) => seekLetter letters args (index + 1) c more 2
    | _ => { index, atEnd := true }

def getopts (args : List Text) : Sh Nat := do
  match args with
  | letters :: name :: rest => do
    let s ← get
    let args := if rest.isEmpty then s.args else rest
    let (index, offset) :=
      if args.length + 1 < s.optionIndex then (1, none) else (s.optionIndex, s.optionOffset)
    let r := seek letters args index offset
    match r.message with
    | some m =>
      let _ ← printTo 2 (m.toList ++ ['\n'])
    | none => pure ()
    match r.value with
    | some value => setVariable "OPTARG".toList value
    | none => pure ()
    setVariable optionName (some (toString r.index).toList)
    assignVariable name [r.letter]
    modify fun s => { s with optionIndex := r.index, optionOffset := r.offset }
    return if r.atEnd then 1 else 0
  | _ => fail "Usage: getopts optstring var [arg...]"

/-! ## Options of the shell -/

def withSetting (o : Setting) (on : Bool) (s : State) : State :=
  let others := s.settings.filter (· != o)
  { s with settings := if on then o :: others else others }

def setLetter (on : Bool) (c : Char) : Sh Unit := do
  match Setting.ofLetter? c with
  | some o => modify (withSetting o on)
  | none => fail ("Illegal option -" ++ String.singleton c)

def showSettings (on : Bool) : Sh Unit := do
  let s ← get
  if on then out "Current option settings\n".toList
  Setting.table.forM fun e => do
    let set := s.settings.contains e.1
    let name := e.2.1
    if on then
      let gap := String.ofList (List.replicate (16 - name.length) ' ')
      outLine (name ++ gap ++ (if set then "on" else "off")).toList
    else outLine ("set " ++ (if set then "-o " else "+o ") ++ name).toList

def setNamed (on : Bool) : Option Text → Sh Unit
  | none => showSettings on
  | some name =>
    match Setting.ofName? (String.ofList name) with
    | some o => modify (withSetting o on)
    | none => fail ("Illegal option -o " ++ String.ofList name)

/-- Sets the options whose letters are given; an `o` takes a name from the arguments. -/
def setLetters (on : Bool) : Text → List Text → Sh (List Text)
  | [], rest => return rest
  | 'o' :: more, rest => do
    setNamed on rest.head?
    setLetters on more rest.tail
  | c :: more, rest => do
    setLetter on c
    setLetters on more rest

def setArguments (args : List Text) : Sh Unit :=
  modify fun s => { s with args, optionIndex := 1, optionOffset := none }

def setAll : Nat → List Text → Sh Unit
  | 0, _ => return ()
  | fuel + 1, args =>
    match args with
    | [] => return ()
    | ['-'] :: rest => do
      modify (withSetting .xtrace false ∘ withSetting .verbose false)
      unless rest.isEmpty do setArguments rest
    | ['-', '-'] :: rest => setArguments rest
    | ('-' :: letters) :: rest => do setAll fuel (← setLetters true letters rest)
    | ('+' :: letters) :: rest => do setAll fuel (← setLetters false letters rest)
    | _ => setArguments args

end Builtin

end Judge.Shell
