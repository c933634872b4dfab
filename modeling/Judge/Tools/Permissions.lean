import Judge.Tools.Option

/-!
# Tools/Permissions — permissions in digits and in letters

Permissions are given in octal digits or as changes to the present ones, such as `u+x,go=r`, and are
shown as letters in three groups.
-/

namespace Judge.Tools

open Program (onFiles perform)

open Shell (Text)

/-! ## Changes -/

/-- What a change sets: the given permissions, or those that a group has. -/
inductive Granted where
  | letters (t : Text)
  | same (whom : Char)
deriving DecidableEq, Repr

/-- A change of permissions: for whom, how (`+`, `-` or `=`), and which. -/
structure ModeChange where
  whom : Text
  how : Char
  granted : Granted
deriving DecidableEq, Repr

/-- New permissions: all of them, or changes. -/
inductive ModeRequest where
  | absolute (mode : Nat)
  | changes (list : List ModeChange)
deriving DecidableEq, Repr

def takeGranted (t : Text) : Granted × Text :=
  let ls := t.takeWhile "rwxXst".toList.contains
  match t with
  | c :: rest =>
    if "ugo".toList.contains c then (.same c, rest) else (.letters ls, t.drop ls.length)
  | [] => (.letters [], [])

def readModeActions (whom : Text) : Nat → Text → List ModeChange → Option (List ModeChange)
  | 0, _, _ => none
  | fuel + 1, t, done =>
    match t with
    | [] => some done.reverse
    | how :: rest =>
      if "+-=".toList.contains how then
        let (granted, rest) := takeGranted rest
        readModeActions whom fuel rest (⟨whom, how, granted⟩ :: done)
      else none

def readModeClause (t : Text) : Option (List ModeChange) :=
  let whom := t.takeWhile "ugoa".toList.contains
  let actions := t.drop whom.length
  if actions.isEmpty then none else readModeActions whom (actions.length + 1) actions []

/-- **Reads new permissions.** -/
def readMode (t : Text) : Option ModeRequest :=
  if startsInDigit t then
    if t.all (Scan.isDigitIn 8) && Scan.readDigits 8 t ≤ 0o7777 then
      some (.absolute (Scan.readDigits 8 t))
    else none
  else ((splitWhere (· == ',') t).mapM readModeClause).map fun cs => .changes cs.flatten

def groupMask (whom : Char) : Nat :=
  match whom with
  | 'u' => 0o4700
  | 'g' => 0o2070
  | 'o' => 0o1007
  | _ => 0o7777

def Granted.bits (g : Granted) (mode : Nat) (executable : Bool) : Nat :=
  match g with
  | .same whom =>
    let three := match whom with
      | 'u' => mode / 64 % 8
      | 'g' => mode / 8 % 8
      | _ => mode % 8
    three * 0o111
  | .letters t => t.foldl (fun bits c => bits ||| match c with
    | 'r' => 0o444
    | 'w' => 0o222
    | 'x' => 0o111
    | 'X' => if executable then 0o111 else 0
    | 's' => 0o6000
    | _ => 0o1000) 0

/-- Permissions after a change; without a group, the mask of the process holds some back. -/
def ModeChange.apply (c : ModeChange) (mask : Nat) (isDir : Bool) (mode : Nat) : Nat :=
  let without (a b : Nat) : Nat := a &&& (0o7777 ^^^ (b &&& 0o7777))
  let affected := c.whom.foldl (fun m w => m ||| groupMask w) 0
  let executable := isDir || mode &&& 0o111 != 0
  let bits := c.granted.bits mode executable &&&
    (if c.whom.isEmpty then without 0o7777 mask else affected)
  match c.how with
  | '+' => mode ||| bits
  | '-' => without mode bits
  | _ => (if c.whom.isEmpty then 0 else without mode affected) ||| bits

def ModeRequest.apply (r : ModeRequest) (mask : Nat) (isDir : Bool) (mode : Nat) : Nat :=
  match r with
  | .absolute m => m
  | .changes cs => cs.foldl (fun mode c => c.apply mask isDir mode) mode

/-! ## Showing -/

def modeLetters (mode : Nat) : Text :=
  let bit (b : Nat) (c : Char) : Char := if mode &&& b != 0 then c else '-'
  let special (x s : Nat) (low high : Char) : Char :=
    match mode &&& x != 0, mode &&& s != 0 with
    | true, true => low
    | false, true => high
    | true, false => 'x'
    | false, false => '-'
  [bit 0o400 'r', bit 0o200 'w', special 0o100 0o4000 's' 'S',
   bit 0o040 'r', bit 0o020 'w', special 0o010 0o2000 's' 'S',
   bit 0o004 'r', bit 0o002 'w', special 0o001 0o1000 't' 'T']

def kindMode : FileKind → Char × Nat
  | .file mode _ => ('-', mode)
  | .dir => ('d', 0o755)
  | .link => ('l', 0o777)
  | .device => ('c', 0o666)
  | .socket => ('s', 0o755)
  | .fifo => ('p', 0o644)

def octalMode (mode : Nat) : Text := padded '0' 4 (Nat.toDigits 8 mode)

/-! ## Changing -/

def currentMask : Program Nat := perform (.mask none)

/-- Everything below some paths, the paths themselves first. -/
def treeOf : Nat → Text → Program (List Text)
  | 0, t => return [t]
  | depth + 1, t => do
    match ← onFiles (.linkKind (path t)) with
    | .ok .dir =>
      match ← onFiles (.list (path t)) with
      | .ok names => do
        let below ← names.mapM fun n => treeOf depth (t ++ '/' :: Shell.ofBytes n)
        return t :: below.flatten
      | .error _ => return [t]
    | _ => return [t]

def changeMode (r : Request) (c : Choices) (m : ModeRequest) (t : Text) : Program Nat := do
  let quiet := c.has "quiet" || c.has "silent"
  match ← onFiles (.kind (path t)) with
  | .error e =>
    if quiet then return 1
    else match ← onFiles (.linkKind (path t)) with
      | .ok _ => r.fail ("cannot operate on dangling symlink " ++ quoted t)
      | .error _ => r.refuse "cannot access " t e
  | .ok kind => do
    let old := (kindMode kind).2
    let new := m.apply (← currentMask) kind.isDir old
    r.asked (onFiles (.setMode (path t) new)) "changing permissions of " t fun () => do
      let shown (mode : Nat) : Text := octalMode mode ++ " (".toList ++ modeLetters mode ++ [')']
      let name := ("mode of " ++ quoted t).toList
      if new ≠ old then
        if c.has "verbose" || c.has "changes" then
          r.finish (name ++ " changed from ".toList ++ shown old ++ " to ".toList ++ shown new ++
            ['\n'])
        else return 0
      else if c.has "verbose" then r.finish (name ++ " retained as ".toList ++ shown old ++ ['\n'])
      else return 0

def isModeOption : Text → Bool
  | '-' :: c :: rest => (c :: rest).all "rwxXstugoa,+=01234567".toList.contains
  | _ => false

def chmod : Tool := fun r =>
  let plain := r.args.takeWhile (· != ['-', '-'])
  let modes := plain.filter isModeOption
  let others := plain.filter fun t => !isModeOption t
  let args := others ++ r.args.drop plain.length
  withOptions ("c,changes ,no-preserve-root ,preserve-root ,quiet R,recursive ,reference= " ++
      "f,silent " ++
      "v,verbose") (fun r c => do
    let given := if modes.isEmpty then c.rest.head? else some ([','].intercalate modes)
    let files := if modes.isEmpty && !c.has "reference" then c.rest.drop 1 else c.rest
    let request ← match c.last? "reference" with
      | some t => do
        match ← onFiles (.kind (path t)) with
        | .ok kind => pure (some (.absolute (kindMode kind).2))
        | .error _ => pure none
      | none => pure (given.bind readMode)
    match given, files with
    | none, _ => r.lacking
    | some t, [] => r.misused ("missing operand after " ++ quoted t)
    | some t, files =>
      match request with
      | none => r.misused ("invalid mode: " ++ quoted t)
      | some m => do
        let all ← if c.has "recursive" then do
            let trees ← files.mapM (treeOf 256)
            pure trees.flatten
          else pure files
        each all (changeMode r c m))
    false 1 { r with args }

end Judge.Tools
