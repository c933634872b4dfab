import Judge.Shell.Builtin.Variables

/-!
# Shell/Builtin/Lookup — what the name of a command stands for

A name stands for a function, for a builtin command, or for a program in one of the directories that
are searched.  Programs that were found are remembered.
-/

namespace Judge.Shell

/-- What the name of a command stands for. -/
inductive Found where
  | function (f : Function)
  | builtin
  /-- The file that is executed first; those behind it on the way are executed if it cannot be. -/
  | program (path : Text)
  | missing (e : OsError)

/-- Remembers where a program is. -/
def State.know (s : State) (name path : Text) : State :=
  { s with known := Assoc.put s.known name { path } }

namespace Builtin

def names : List String :=
  [".", ":", "[", "alias", "bg", "break", "cd", "chdir", "command", "continue", "echo", "eval",
   "exec", "exit", "export", "false", "fg", "getopts", "hash", "jobs", "kill", "local", "printf",
   "pwd", "read", "readonly", "return", "set", "shift", "test", "times", "trap", "true", "type",
   "ulimit", "umask", "unalias", "unset", "wait"]

def isBuiltin (name : Text) : Bool := names.contains (String.ofList name)

/-- Whether a builtin command is one whose errors end the shell, and in front of which variables are
set for good. -/
def isSpecial (name : Text) : Bool := specialNames.contains (String.ofList name)

def takesAssignments (name : Text) : Bool :=
  ["alias", "export", "local", "readonly"].contains (String.ofList name)

/-! ## Programs -/

def candidates (path name : Text) : List Text :=
  if name.contains '/' then [name]
  else (splitWhere (· == ':') path).map fun dir => if dir.isEmpty then name else dir ++ '/' :: name

def firstFile : OsError → List Text → Program (Except OsError Text)
  | e, [] => return .error e
  | e, p :: rest => do
    match ← Program.onFiles (.kind ⟨toBytes p⟩) with
    | .ok k => if k.isFile then return .ok p else firstFile .denied rest
    | .error found =>
      firstFile (if found = .noEntry || found = .notDirectory then e else found) rest

/-- The program that a name stands for, looked up in `path`, or where the shell looks it up. -/
def findProgram (path : Option Text) (name : Text) : Sh Found := do
  if name.contains '/' then return .program name
  else
    let s ← get
    match if path.isNone then s.known.lookup name else none with
    | some { path := p, stale := false } => return .program p
    | _ =>
      match ← ofProgram (firstFile .noEntry (candidates (path.getD s.path) name)) with
      | .error e => return .missing e
      | .ok p =>
        if path.isNone then set (s.know name p)
        return .program p

/-- **What a name stands for**; functions count if `functions` says so. -/
def find (functions : Bool) (path : Option Text) (name : Text) : Sh Found := do
  let s ← get
  match if functions then s.functions.lookup name else none with
  | some f => return .function f
  | none => if isBuiltin name then return .builtin else findProgram path name

def tellMissing (name : Text) (e : OsError) : Sh Unit :=
  complain (String.ofList name ++ ": " ++ reasonFor e "not found")

/-! ## Telling what names stand for -/

/-- Tells what a name stands for, and gives whether it stands for something. -/
def describe (path : Option Text) (verbose : Bool) (name : Text) : Sh Nat := do
  let tell (long : String) (short : Text) : Sh Nat := do
    outLine (if verbose then name ++ long.toList else short)
    return 0
  let s ← get
  if Token.keywords.contains (String.ofList name) then tell " is a shell keyword" name
  else match s.aliases.lookup name with
    | some value =>
      if verbose then tell (" is an alias for " ++ String.ofList value) []
      else do
        out "alias ".toList
        showAlias (name, value)
        return 0
    | none => do
      let tracked := path.isNone && (s.known.lookup name).isSome
      let found ←
        if tracked then pure (((s.known.lookup name).map fun k => Found.program k.path).getD
          (.missing .noEntry))
        else if name.contains '/' then do
          if ← ofProgram (Program.exists ⟨toBytes name⟩) then pure (.program name)
          else pure (.missing .noEntry)
        else find true path name
      match found with
      | .function _ => tell " is a shell function" name
      | .builtin => tell (if isSpecial name then " is a special shell builtin" else
          " is a shell builtin") name
      | .program p =>
        tell ((if tracked then " is a tracked alias for " else " is ") ++ String.ofList p) p
      | .missing _ => do
        if verbose then outLine (name ++ ": not found".toList)
        return 127

def commandOptions (args : List Text) : Sh Nat := do
  let (options, args) ← takeOptions "pvV" args
  let letters := options.map (·.1)
  let path := if letters.contains 'p' then some standardPath else none
  match args with
  | [] => return 0
  | name :: _ =>
    if letters.contains 'V' then describe path true name
    else if letters.contains 'v' then describe path false name
    else return 0

def knownShelf (name : Text) : Nat :=
  ((name.headD '\x00').toNat * 16 + (name.map Char.toNat).sum) % 32768 % 31

/-- Looks a name up anew. -/
def hashOne (name : Text) : Sh Nat := do
  modify fun s => { s with known := s.known.filter (·.1 != name) }
  match ← find true none name with
  | .missing e => do
    tellMissing name e
    return 1
  | _ => return 0

def hash (args : List Text) : Sh Nat := do
  let (options, args) ← takeOptions "r" args
  if !options.isEmpty then
    modify fun s => { s with known := [] }
    return 0
  else if args.isEmpty then
    let sorted := (← get).known.mergeSort fun a b => knownShelf a.1 ≤ knownShelf b.1
    sorted.forM fun e => outLine (e.2.path ++ if e.2.stale then ['*'] else [])
    return 0
  else each args hashOne

end Builtin

end Judge.Shell
