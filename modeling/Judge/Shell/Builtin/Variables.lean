import Judge.Shell.Builtin.Signals
import Judge.Shell.Field

/-!
# Shell/Builtin/Variables — commands that set variables

Variables are declared, hidden in functions, unset, listed, and filled from lines that are read;
arguments are shifted, and other names given to commands.
-/

namespace Judge.Shell

namespace Builtin

/-! ## Listing -/

def listVariables (front : String) (wanted : Variable → Bool) : Sh Unit := do
  let found := (← get).vars.filter fun e => wanted e.2
  let sorted := found.mergeSort fun a b => Bytes.le (toBytes a.1) (toBytes b.1)
  sorted.forM fun e =>
    let value := match e.2.value with
      | some v => '=' :: quote v
      | none => []
    outLine (front.toList ++ e.1 ++ value)

/-! ## Declaring -/

def cutAssignment (t : Text) : Text × Option Text :=
  let name := t.takeWhile (· != '=')
  match t.drop name.length with
  | _ :: value => (name, some value)
  | [] => (name, none)

def declareOne (exported readOnly : Bool) (t : Text) : Sh Unit := do
  let (name, value) := cutAssignment t
  let s ← get
  match value, s.vars.lookup name with
  | none, some v =>
    set (s.put name
      { v with exported := v.exported || exported, readOnly := v.readOnly || readOnly })
  | value, _ => do
    checkName name
    setVariable name value exported readOnly

def declare (name : String) (exported readOnly : Bool) (args : List Text) : Sh Nat := do
  let (options, rest) ← takeOptions "p" args
  if options.isEmpty && !rest.isEmpty then rest.forM (declareOne exported readOnly)
  else listVariables (name ++ " ") fun v => (exported && v.exported) || (readOnly && v.readOnly)
  return 0

/-- Hides a variable, or the options of the shell, in the function under way. -/
def hideOne (t : Text) : Sh Unit := do
  if t == ['-'] then hide (.settings (← get).settings)
  else
    let (name, value) := cutAssignment t
    hideVariable name value

variable (args : List Text)

def localVariables : Sh Nat := do
  if (← get).frames.isEmpty then fail "not in a function"
  args.forM hideOne
  return 0

def unset : Sh Nat := do
  let (options, names) ← takeOptions "vf" args
  if (options.getLast?.map (·.1)) == some 'f' then
    modify fun s => { s with functions := s.functions.filter fun e => !names.contains e.1 }
  else names.forM fun t => do
    let name := (cutAssignment t).1
    checkName name
    setVariable name none
  return 0

def setCommand : Sh Nat := do
  if args.isEmpty then listVariables "" fun v => v.value.isSome
  else setAll (args.length + 1) args
  return 0

def shift (args : List Text) : Sh Nat := do
  let n ← match args with
    | [] => pure 1
    | t :: _ => number t
  let s ← get
  if s.args.length < n then fail "can't shift that many"
  set { s with args := s.args.drop n, optionIndex := 1, optionOffset := none }
  return 0

/-! ## Reading -/

/-- A line that is read, as glyphs backwards. -/
structure Intake where
  glyphs : List Glyph := []
  region : Nat := 0

namespace Intake

def put (k : Intake) (c : Char) : Intake :=
  { k with glyphs := .char c false (some { id := k.region }) :: k.glyphs }

/-- Takes the characters of a line; a backslash takes away the meaning of the next one, and none is
left when the line goes on. -/
def take (raw : Bool) : Text → Intake → Intake × Bool
  | [], k => (k, false)
  | ['\\'], k => if raw then (k.put '\\', false) else ({ k with region := k.region + 1 }, true)
  | '\\' :: c :: rest, k =>
    if raw then take raw (c :: rest) (k.put '\\')
    else take raw rest { glyphs := .char c true none :: k.glyphs, region := k.region + 1 }
  | c :: rest, k => take raw rest (k.put c)

end Intake

def readIntake (raw : Bool) : Nat → Intake → Sh (Intake × Bool)
  | 0, k => return (k, false)
  | fuel + 1, k => do
    match ← perform (.readLine 0 []) with
    | .error _ => return (k, false)
    | .ok bytes =>
      let ended := bytes.getLast? == some 0x0A
      let line := (ofBytes (if ended then bytes.dropLast else bytes)).filter (· != '\x00')
      let (k, goesOn) := k.take raw line
      if goesOn && ended then readIntake raw fuel k else return (k, ended)

def maxLines : Nat := 10 ^ 9

/-- Gives the fields of a line to variables, and nothing to those that are left. -/
def fill : List Text → List (List Mark) → Sh Unit
  | [], _ => return ()
  | name :: names, fields => do
    assignVariable name ((fields.headD []).map (·.1))
    fill names fields.tail

def read : Sh Nat := do
  let (options, names) ← takeOptions "p:r" args
  if names.isEmpty then fail "arg count"
  let (k, ended) ← readIntake (options.any (·.1 == 'r')) maxLines {}
  fill names (cutFields (← get).separators k.glyphs.reverse (some names.length))
  return if ended then 0 else 1

/-! ## Other names for commands -/

def showAlias (e : Text × Text) : Sh Unit := outLine (e.1 ++ '=' :: quote e.2)

/-- Defines an alias, or shows what it stands for. -/
def aliasOne (t : Text) : Sh Nat := do
  let name := t.take 1 ++ (t.drop 1).takeWhile (· != '=')
  let s ← get
  match t.drop name.length, s.aliases.lookup name with
  | _ :: value, _ => do
    set { s with aliases := Assoc.put s.aliases name value }
    return 0
  | [], some value => do
    showAlias (name, value)
    return 0
  | [], none => do
    let _ ← printTo 2 ("alias: ".toList ++ name ++ " not found\n".toList)
    return 1

def defineAliases : Sh Nat := do
  if args.isEmpty then
    (State.shelved (← get).aliases).forM showAlias
    return 0
  else each args aliasOne

/-- Forgets an alias. -/
def unaliasOne (name : Text) : Sh Nat := do
  let s ← get
  if (s.aliases.lookup name).isSome then
    set { s with aliases := s.aliases.filter (·.1 != name) }
    return 0
  else
    let _ ← printTo 2 ("unalias: ".toList ++ name ++ " not found\n".toList)
    return 1

def unalias : Sh Nat := do
  let (options, names) ← takeOptions "a" args
  if options.isEmpty then each names unaliasOne
  else
    modify fun s => { s with aliases := [] }
    return 0

end Builtin

end Judge.Shell
