import Judge.Machine.Kernel
import Judge.Shell.Eval

/-!
# Shell/Session — the shell as a program

The shell carries out a file, a text among its arguments, or what it reads.
-/

namespace Judge.Shell

/-- How deep commands may be nested, and how often a loop may be taken. -/
def depth : Nat := 10 ^ 9

/-- What the shell is to carry out. -/
inductive Task where
  | file (name : Text) (args : List Text)
  | text (body : Text) (name : Option Text) (args : List Text)
  | input (args : List Text)

/-- Sets the options whose letters are given, and tells whether a text is to be carried out; an `o`
takes a name from the arguments. -/
def startLetters (on : Bool) : Text → List Text → Bool → Sh (List Text × Bool)
  | [], rest, isText => return (rest, isText)
  | 'c' :: more, rest, _ => startLetters on more rest true
  | 'l' :: more, rest, isText => startLetters on more rest isText
  | 'o' :: more, rest, isText => do
    Builtin.setNamed on rest.head?
    startLetters on more rest.tail isText
  | c :: more, rest, isText => do
    Builtin.setLetter on c
    startLetters on more rest isText

/-- Sets the options in front of the arguments, and gives the others, with whether a text is to be
carried out. -/
def startOptions : Nat → List Text → Bool → Sh (List Text × Bool)
  | 0, args, isText => return (args, isText)
  | fuel + 1, args, isText =>
    match args with
    | ['-'] :: rest | ['-', '-'] :: rest => return (rest, isText)
    | ('-' :: letters) :: rest => do
      let (rest, isText) ← startLetters true letters rest isText
      startOptions fuel rest isText
    | ('+' :: letters) :: rest => do
      let (rest, isText) ← startLetters false letters rest isText
      startOptions fuel rest isText
    | _ => return (args, isText)

/-- Reads the arguments of the shell: options first, and then what it is to carry out. -/
def readTask (args : List Text) : Sh Task := do
  let (rest, isText) ← startOptions (args.length + 1) args false
  match rest with
  | [] =>
    if isText then fail "-c requires an argument"
    else
      modify (Builtin.withSetting .stdin true)
      return .input []
  | first :: args =>
    if isText then return .text first args.head? args.tail
    else if ← has .stdin then return .input rest
    else return .file first args

def readScript (fd : Descriptor) : Sh Text := do
  match ← perform (.drain fd []) with
  | .ok bytes => return ofBytes bytes
  | .error _ => return []

def runInput (args : List Text) : Sh Unit := do
  modify fun s => { s with args }
  let _ ← runScript depth (← readScript 0) false false true

def carryOut (t : Task) : Sh Unit := do
  match t with
  | .text body name args => do
    modify fun s => { s with name := name.getD s.name, args }
    let reads ← has .stdin
    let _ ← runText depth body false (!reads)
    if reads then runInput args
  | .input args => runInput args
  | .file name args => do
    match ← perform (.openFile ⟨toBytes name⟩ .read) with
    | .error e =>
      fail ("cannot open " ++ String.ofList name ++ ": " ++ reasonFor e "No such file")
    | .ok fd => do
      let body ← readScript fd
      perform (.close fd)
      modify fun s => { s with name, args }
      let _ ← runScript depth body false false true

/-- The directory that the shell starts in: as the environment tells it, if that leads there. -/
def startDirectory (told : Option Text) : Sh Text := do
  match told with
  | some t =>
    if t.head? == some '/' then
      let here ← perform (.file (.place ⟨[Path.dot]⟩))
      let there ← perform (.file (.place ⟨toBytes t⟩))
      match here, there with
      | .ok here, .ok there => if here == there then return t else Builtin.physical
      | _, _ => Builtin.physical
    else Builtin.physical
  | none => Builtin.physical

def start (args : List Text) : Sh Unit := do
  let s ← get
  Builtin.noteDirectory (← startDirectory (s.value? "PWD".toList))
  carryOut (← readTask args)

/-- **The shell.** -/
def session (boot : Boot) : Program Nat := do
  let pid ← Program.ownPid
  let parent ← Program.perform .parentPid
  let deaf ← Program.perform .ignored
  let s : State := { State.ofEnvironment boot.env parent with
    name := ofBytes (boot.argv.headD []), pid, deaf }
  let (_, s) ← (endWith depth (start (boot.argv.tail.map ofBytes))).run.run s
  return s.status

end Judge.Shell
