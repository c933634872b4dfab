import Judge.Shell.Builtin.Options
import Judge.Machine.Act

/-!
# Shell/Builtin/Directories — where a shell is and what it may do

The directory of the shell is known by the way that led there.  Permissions of new files and limits
belong to the process, and programs that the shell starts have them too.
-/

namespace Judge.Shell

namespace Builtin

/-! ## The directory -/

/-- A path without its last piece, and with a slash at its end; `least` characters stay. -/
def withoutLast (least : Nat) (backwards : Text) : Text :=
  if backwards.length ≤ least then backwards
  else
    let rest := (backwards.drop 1).dropWhile (· != '/')
    if rest.length < least then backwards.drop (backwards.length - least) else rest

def follow (least : Nat) : List Text → Text → Text
  | [], done => done
  | piece :: rest, done =>
    if piece == ['.'] || piece.isEmpty then follow least rest done
    else if piece == ['.', '.'] then follow least rest (withoutLast least done)
    else follow least rest ('/' :: piece.reverse ++ done)

/-- **The path that `t` leads to** from the directory `here`, each piece taken as it is written; two
slashes at the start stay. -/
def ledTo (here t : Text) : Text :=
  let isDouble (t : Text) : Bool := match t with
    | '/' :: '/' :: '/' :: _ => false
    | '/' :: '/' :: _ => true
    | _ => false
  let absolute := t.head? == some '/'
  let start := if absolute then (if isDouble t then ['/', '/'] else ['/'])
    else if here.getLast? == some '/' then here else here ++ ['/']
  let least := if start[1]? == some '/' then 2 else 1
  let way := follow least (splitWhere (· == '/') t) start.reverse
  (if least < way.length then way.drop 1 else way).reverse

/-- The directory with all links followed; if it is gone, that is told. -/
def physical : Sh Text := do
  match ← perform (.file (.kind ⟨[Path.dot]⟩)) with
  | .ok _ => return ofBytes (Path.ofNames (← perform .cwd)).text
  | .error e => do
    complain ("getcwd() failed: " ++ e.reason)
    return []

def noteDirectory (dir : Text) : Sh Unit := do
  modify fun s => { s with
    dir, known := s.known.map fun e => (e.1, { e.2 with stale := true }) }
  setVariable "PWD".toList (some dir) true

def wantsPhysical (options : List (Char × Text)) : Bool :=
  (options.getLast?.map (·.1)) == some 'P'

def enter (followed : Bool) (t : Text) : Sh Bool := do
  let here := (← get).dir
  let logical := if followed || (here.isEmpty && t.head? != some '/') then none
    else some (ledTo here t)
  match ← perform (.chdir ⟨toBytes (logical.getD t)⟩) with
  | .error _ => return false
  | .ok () => do
    setVariable "OLDPWD".toList (some here) true
    let dir ← match logical with
      | some dir => pure dir
      | none => physical
    noteDirectory dir
    return true

def isRelative (t : Text) : Bool :=
  match t with
  | '.' :: rest =>
    match rest with
    | '.' :: rest => rest.isEmpty || rest.head? == some '/'
    | _ => rest.isEmpty || rest.head? == some '/'
  | _ => false

def searchDirectory (t : Text) : List Text → Program (Option (Text × Bool))
  | [] => return none
  | dir :: rest => do
    let p := if dir.isEmpty then t else dir ++ '/' :: t
    if ← Program.isDir ⟨toBytes p⟩ then return some (p, !dir.isEmpty) else searchDirectory t rest

def cd (args : List Text) : Sh Nat := do
  let (options, args) ← takeOptions "LP" args
  let s ← get
  let back := args.head? == some ['-']
  let goal := (match args with
    | [] => s.value? "HOME".toList
    | t :: _ => if back then s.value? "OLDPWD".toList else some t).getD []
  let (target, found) ←
    if goal.head? == some '/' || isRelative goal then pure (goal, none)
    else do
      let goal := if goal.isEmpty then ['.'] else goal
      match s.value? "CDPATH".toList with
      | none => pure (goal, none)
      | some path => pure (goal, ← ofProgram (searchDirectory goal (splitWhere (· == ':') path)))
  let (p, aloud) := found.getD (target, false)
  unless ← enter (wantsPhysical options) p do fail ("can't cd to " ++ String.ofList target)
  if back || aloud then outLine (← get).dir
  return 0

def pwd (args : List Text) : Sh Nat := do
  let (options, _) ← takeOptions "LP" args
  outLine (← if wantsPhysical options then physical else do pure (← get).dir)
  return 0

/-! ## Permissions of new files -/

def permissionLetters (bits : Nat) : String :=
  let letter (bit : Nat) (c : String) : String := if bits &&& bit != 0 then c else ""
  letter 4 "r" ++ letter 2 "w" ++ letter 1 "x"

def maskLetters (mask : Nat) : String :=
  let allowed := 0o777 ^^^ (mask &&& 0o777)
  "u=" ++ permissionLetters (allowed / 64) ++ ",g=" ++ permissionLetters (allowed / 8) ++ ",o=" ++
    permissionLetters allowed

def classBits : Char → Nat
  | 'a' => 0o111
  | 'u' => 0o100
  | 'g' => 0o010
  | _ => 0o001

def permissionBits (allowed : Nat) : Char → Nat
  | 'r' => 4
  | 'w' => 2
  | 'x' => 1
  | 'u' => allowed / 64
  | 'g' => allowed / 8
  | 'o' => allowed
  | 'X' => if allowed &&& 0o111 != 0 then 1 else 0
  | _ => 0

def unite (bits : Char → Nat) (cs : Text) : Nat := cs.foldl (fun n c => n ||| bits c) 0

/-- The permissions `new` changed as a text of letters says; `classes` are the users that were named
before, and `allowed` the permissions at the start. -/
def changeMode (allowed : Nat) : Nat → Nat → Nat → Text → Option Nat
  | 0, _, new, _ => some new
  | fuel + 1, classes, new, t =>
    let named := t.takeWhile "augo".toList.contains
    let classes := classes ||| unite classBits named
    let classes := if classes = 0 then 0o111 else classes
    match t.drop named.length with
    | [] => some new
    | op :: rest =>
      if !"=+-".toList.contains op then none
      else
        let letters := rest.takeWhile "rwxugoXs".toList.contains
        let bits := (unite (permissionBits allowed) letters &&& 7) * classes
        let new :=
          if op == '-' then new &&& (0o777 ^^^ bits)
          else if op == '=' then bits ||| (new &&& (0o777 ^^^ (classes * 7)))
          else new ||| bits
        match rest.drop letters.length with
        | [] => some new
        | ',' :: rest => if rest.isEmpty then some new else changeMode allowed fuel 0 new rest
        | c :: rest =>
          if "=+-".toList.contains c then changeMode allowed fuel classes new (c :: rest) else none

def umask (args : List Text) : Sh Nat := do
  let (options, args) ← takeOptions "S" args
  let mask : Nat ← perform (.mask none)
  match args with
  | [] => do
    if options.isEmpty then
      let digits := Nat.toDigits 8 mask
      outLine (List.replicate (4 - digits.length) '0' ++ digits)
    else outLine (maskLetters mask).toList
    return 0
  | t :: _ => do
    let new ←
      if (t.head?.map Char.isDigit).getD false then
        if t.all fun c => '0' ≤ c && c ≤ '7' then pure (Scan.readDigits 8 t)
        else fail ("Illegal number: " ++ String.ofList t)
      else
        let allowed := 0o777 ^^^ (mask &&& 0o777)
        match changeMode allowed (t.length + 1) 0 allowed t with
        | some n => pure (0o777 ^^^ (n &&& 0o777))
        | none => fail ("Illegal mode: " ++ String.ofList t)
    let _ ← perform (.mask (some (new &&& 0o777)))
    return 0

/-! ## Limits -/

/-- A limit as it is shown: its name, its unit in bytes, and its letter. -/
structure LimitName where
  name : String
  resource : Resource
  unit : Nat
  letter : Char

def limitNames : List LimitName :=
  [⟨"time(seconds)", .time, 1, 't'⟩, ⟨"file(blocks)", .fileSize, 512, 'f'⟩,
   ⟨"data(kbytes)", .data, 1024, 'd'⟩, ⟨"stack(kbytes)", .stack, 1024, 's'⟩,
   ⟨"coredump(blocks)", .core, 512, 'c'⟩, ⟨"memory(kbytes)", .memory, 1024, 'm'⟩,
   ⟨"locked memory(kbytes)", .lockedMemory, 1024, 'l'⟩, ⟨"process", .processes, 1, 'p'⟩,
   ⟨"nofiles", .files, 1, 'n'⟩, ⟨"vmemory(kbytes)", .space, 1024, 'v'⟩,
   ⟨"locks", .locks, 1, 'w'⟩, ⟨"rtprio", .priority, 1, 'r'⟩]

def limitText (l : Limit) (hard : Bool) (unit : Nat) : Text :=
  match if hard then l.hard else l.soft with
  | some n => (toString (n / unit)).toList
  | none => "unlimited".toList

def limitValue (unit : Nat) (t : Text) : Sh (Option Nat) := do
  if t == "unlimited".toList then return none
  else if t.all Char.isDigit then return some (Scan.readDigits 10 t * unit)
  else fail "bad number"

def showLimits (hard : Bool) : Sh Unit :=
  limitNames.forM fun e => do
    let name := e.name.toList
    let gap := List.replicate (20 - name.length) ' '
    outLine (name ++ gap ++ ' ' :: limitText (← perform (.limit e.resource)) hard e.unit)

def oneLimit (e : LimitName) (soft hard : Bool) (value : Option Text) : Sh Unit := do
  let old ← perform (.limit e.resource)
  match value with
  | none => outLine (limitText old (!soft) e.unit)
  | some t => do
    let n ← limitValue e.unit t
    let new : Limit :=
      { soft := if soft then n else old.soft, hard := if hard then n else old.hard }
    match ← perform (.setLimit e.resource new) with
    | .ok () => pure ()
    | .error e => fail ("error setting limit (" ++ e.reason ++ ")")

def ulimit (args : List Text) : Sh Nat := do
  let (options, args) ← takeOptions "HSatfdscmlpnvwr" args
  let letters := options.map (·.1)
  let how := (letters.filter fun c => c == 'H' || c == 'S').getLast?
  let what := ((letters.filter fun c => !"HSa".toList.contains c).getLast?).getD 'f'
  let all := letters.contains 'a'
  if !args.isEmpty && (all || 1 < args.length) then fail "too many arguments"
  if all then showLimits (how == some 'H')
  else
    match limitNames.find? (·.letter == what) with
    | some e => oneLimit e (how != some 'H') (how != some 'S') args.head?
    | none => pure ()
  return 0

end Builtin

end Judge.Shell
