import Judge.Tools.Names
import Judge.Tools.Permissions

/-!
# Tools/Files — tools that make, remove, copy and move files
-/

namespace Judge.Tools

open Program (close drain isDir onFiles openFile ownPid perform writeAll)

open Shell (Text ofBytes toBytes)

variable (r : Request)

def announce (wanted : Bool) (text : String) : Program Nat :=
  if wanted then r.finish (text ++ "\n").toList else return 0

/-! ## Directories -/

def leadingPaths (t : Text) : List Text :=
  let pieces := splitWhere (· == '/') (withoutSlashes t)
  (List.range pieces.length).filterMap fun i =>
    let front := ['/'].intercalate (pieces.take (i + 1))
    if (pieces.getD i []).isEmpty then none else some front

/-- Makes the directories that lead to a path, and tells of the ones that were made. -/
def makeAll (r : Request) (verbose : Bool) : List Text → Program Nat
  | [] => return 0
  | t :: rest => do
    if ← isDir (path t) then makeAll r verbose rest
    else match ← onFiles (.makeDir (path t)) with
      | .ok () => do
        let _ ← announce r verbose (r.name ++ ": created directory " ++ quoted t)
        makeAll r verbose rest
      | .error e =>
        let e : OsError := if e = .nameTaken && !rest.isEmpty then .notDirectory else e
        r.refuse "cannot create directory " t e

def mkdir : Tool := withOptions "m,mode= p,parents v,verbose Z ,context?" fun r c => do
  let wrong := (c.last? "mode").any fun m => (readMode m).isNone
  if c.rest.isEmpty then r.lacking
  else if wrong then r.fail ("invalid mode " ++ quoted (c.value "mode"))
  else
    let verbose := c.has "verbose"
    each c.rest fun t =>
      if c.has "parents" then makeAll r verbose (leadingPaths t)
      else r.asked (onFiles (.makeDir (path t))) "cannot create directory " t fun () =>
        announce r verbose (r.name ++ ": created directory " ++ quoted t)

/-- Removes directories one after the other, until one cannot be. -/
def removeDirs (r : Request) (c : Choices) : List Text → Program Nat
  | [] => return 0
  | t :: rest => do
    let _ ← announce r (c.has "verbose") (r.name ++ ": removing directory, " ++ quoted t)
    match ← onFiles (.removeDir (path t)) with
    | .ok () => removeDirs r c rest
    | .error e =>
      if c.has "ignore-fail-on-non-empty" && e = .notEmpty then return 0
      else r.refuse "failed to remove " t e

def rmdir : Tool := withOptions "p,parents v,verbose ,ignore-fail-on-non-empty" fun r c => do
  if c.rest.isEmpty then r.lacking
  else each c.rest fun t =>
    removeDirs r c (if c.has "parents" then (leadingPaths t).reverse else [t])

/-! ## Removing -/

def agreed (question : String) : Program Bool := do
  tell (r.name ++ ": " ++ question ++ "? ")
  let answer : Except OsError Bytes ← perform (.readLine 0 [])
  match answer with
  | .ok (b :: _) => return b = 0x79 || b = 0x59
  | _ => return false

def permitted (ask : Bool) (question : String) : Program Bool :=
  if ask then agreed r question else return true

def removeAt (r : Request) (c : Choices) (deep force ask : Bool) : Nat → Text → Program Nat
  | 0, _ => return 0
  | depth + 1, t => do
    let verbose := c.has "verbose"
    let refuse (e : OsError) : Program Nat :=
      if force && (e = .noEntry || e = .notDirectory) then return 0
      else r.refuse "cannot remove " t e
    match ← onFiles (.linkKind (path t)) with
    | .error e => refuse e
    | .ok .dir =>
      if deep then
        match ← onFiles (.list (path t)) with
        | .error e => refuse e
        | .ok names => do
          let codes ← names.mapM fun n =>
            removeAt r c deep force ask depth (childOf t (ofBytes n))
          if !(← permitted r ask ("remove directory " ++ quoted t)) then return worst codes
          else match ← onFiles (.removeDir (path t)) with
            | .ok () => do
              return max (worst codes) (← announce r verbose ("removed directory " ++ quoted t))
            | .error e => if worst codes = 0 then refuse e else return worst codes
      else if c.has "dir" then
        match ← onFiles (.removeDir (path t)) with
        | .ok () => announce r verbose ("removed directory " ++ quoted t)
        | .error e => refuse e
      else refuse .isDirectory
    | .ok kind => do
      let question := "remove " ++ kind.words ++ " " ++ quoted t
      if !(← permitted r ask question) then return 0
      else match ← onFiles (.unlink (path t)) with
        | .ok () => announce r verbose ("removed " ++ quoted t)
        | .error e => refuse e

def rm : Tool := withOptions
    ("d,dir f,force i I ,interactive? ,one-file-system ,no-preserve-root ,preserve-root? r " ++
     "R,recursive " ++
     "v,verbose") fun r c => do
  let deep := c.has "r" || c.has "recursive"
  let last := c.lastOf ["force", "i"]
  let force := last == some "force"
  let ask := last == some "i"
  if c.rest.isEmpty && !c.has "force" then r.lacking
  else each c.rest fun t => do
    let name := lastName t
    if deep && (name == ['.'] || name == ['.', '.']) then
      r.fail ("refusing to remove '.' or '..' directory: skipping " ++ quoted t)
    else if deep && !t.isEmpty && name == ['/'] then do
      r.complain ("it is dangerous to operate recursively on " ++ quoted t)
      r.fail "use --no-preserve-root to override this failsafe"
    else removeAt r c deep force ask 256 t

def unlink : Tool := withOptions "" fun r c => do
  match c.rest with
  | [] => r.lacking
  | [t] => r.asked (onFiles (.unlink (path t))) "cannot unlink " t fun () => return 0
  | _ :: extra :: _ => r.burdened extra

/-! ## Where things go -/

def nameIn (dir source : Text) : Text :=
  let name := lastName source
  if name == ['.'] || name == ['.', '.'] then dir else childOf dir name

/-- The sources and the targets that arguments name: into a directory or to a new name. -/
def destinations (c : Choices) (keepLink : Bool) : Program (Except Nat (List (Text × Text))) := do
  let into (dir : Text) (sources : List Text) : List (Text × Text) :=
    sources.map fun s => (s, nameIn dir s)
  let noDirectory (what : String) (t : Text) : Program Nat := do
    let e : OsError := if ← Program.exists (path t) then .notDirectory else .noEntry
    r.refuse what t e
  let isTarget (t : Text) : Program Bool := do
    if keepLink then
      match ← onFiles (.linkKind (path t)) with
      | .ok k => return k.isDir
      | .error _ => return false
    else isDir (path t)
  match c.last? "target-directory", c.rest with
  | some dir, sources => do
    if sources.isEmpty then return .error (← r.misused "missing file operand")
    else if ← isDir (path dir) then return .ok (into dir sources)
    else return .error (← noDirectory "target directory " dir)
  | none, [] => return .error (← r.misused "missing file operand")
  | none, [one] =>
    return .error (← r.misused ("missing destination file operand after " ++ quoted one))
  | none, several => do
    let target := several.getLast?.getD []
    let sources := several.dropLast
    let plain := c.has "no-target-directory"
    if ← if plain then pure false else isTarget target then return .ok (into target sources)
    else match sources with
      | [s] => return .ok [(s, target)]
      | _ => return .error (← if plain then r.burdened (several.getD 2 [])
          else noDirectory "target " target)

/-- Does something with each source and its target. -/
def toDestinations (c : Choices) (keepLink : Bool) (act : Text → Text → Program Nat) :
    Program Nat := do
  match ← destinations r c keepLink with
  | .error code => return code
  | .ok pairs => each pairs fun (s, t) => act s t

def samePlace (a b : Text) : Program Bool := do
  let p ← onFiles (.place (path a))
  let q ← onFiles (.place (path b))
  match p, q with
  | .ok p, .ok q => return p == q
  | _, _ => return false

def isInside (dir target : Text) : Program Bool := do
  let d ← onFiles (.place (path dir))
  let q ← onFiles (.place (path (dirName target)))
  match d, q with
  | .ok d, .ok q => return d.isPrefixOf q
  | _, _ => return false

/-! ## Copying -/

/-- How things are copied. -/
structure Copying where
  deep : Bool
  follow : Bool
  verbose : Bool
  symbolic : Bool

/-- Copies the content of a file, with its permissions as far as the mask lets them. -/
def copyContent (s t : Text) : Program Nat := do
  let wasThere ← Program.exists (path t)
  match ← openFile (path s) .read with
  | .error e => r.fail ("cannot open " ++ quoted s ++ " for reading: " ++ e.reason)
  | .ok source => do
    let mode ← match ← onFiles (.kind (path s)) with
      | .ok (.file mode _) => pure mode
      | _ => pure 0o666
    match ← openFile (path t) .write with
    | .error e => do
      close source
      r.refuse "cannot create regular file " t e
    | .ok target => do
      let data ← drain source
      close source
      let code ← match data with
        | .error e => r.refuse "error reading " s e
        | .ok data => r.asked (writeAll target data) "error writing " t fun () => pure 0
      close target
      unless wasThere do
        let mask ← currentMask
        let _ ← onFiles (.setMode (path t) (mode &&& (0o777 ^^^ (mask &&& 0o777))))
      return code

/-- Copies a file or a tree, at most `depth` directories deep. -/
def copyAt (r : Request) (k : Copying) : Nat → Text → Text → Program Nat
  | 0, _, _ => return 1
  | depth + 1, s, t => do
    let kind ← if k.follow then onFiles (.kind (path s))
      else onFiles (.linkKind (path s))
    match kind with
    | .error e => r.refuse "cannot stat " s e
    | .ok .dir => do
      if !k.deep then r.fail ("-r not specified; omitting directory " ++ quoted s)
      else if ← isInside s t then
        r.fail ("cannot copy a directory, " ++ quoted s ++ ", into itself, " ++ quoted t)
      else
        let there ← Program.exists (path t)
        if there && !(← isDir (path t)) then
          r.fail ("cannot overwrite non-directory " ++ quoted t ++ " with directory " ++ quoted s)
        else
          let made := if there then pure (.ok ()) else onFiles (.makeDir (path t))
          r.asked made "cannot create directory " t fun () => do
            let _ ← announce r k.verbose (quoted s ++ " -> " ++ quoted t)
            r.asked (onFiles (.list (path s))) "cannot access " s fun names =>
              each names fun n =>
                copyAt r k depth (withoutSlashes s ++ '/' :: ofBytes n)
                  (withoutSlashes t ++ '/' :: ofBytes n)
    | .ok kind => do
      if ← isDir (path t) then
        r.fail ("cannot overwrite directory " ++ quoted t ++ " with non-directory")
      else if ← samePlace s t then
        r.fail (quoted s ++ " and " ++ quoted t ++ " are the same file")
      else
        let told : Program Nat := announce r k.verbose (quoted s ++ " -> " ++ quoted t)
        let linked (target : Path) : Program Nat := do
          let _ ← onFiles (.unlink (path t))
          r.asked (onFiles (.symlink target (path t))) "cannot create symbolic link " t fun () =>
            told
        match kind with
        | .link => r.asked (onFiles (.readLink (path s))) "cannot read symbolic link " s linked
        | .fifo =>
          if k.deep then
            r.asked (perform (.makeFifo (path t))) "cannot create fifo " t fun () => told
          else do
            let code ← copyContent r s t
            return max code (← told)
        | _ =>
          if k.symbolic then linked (path s)
          else
            match ← onFiles (.linkKind (path t)), ← onFiles (.kind (path t)) with
            | .ok .link, .error _ =>
              r.fail ("not writing through dangling symlink " ++ quoted t)
            | _, _ => do
              let code ← copyContent r s t
              return max code (← if code = 0 then told else pure 0)

def keepsTarget (c : Choices) (t : Text) (moving : Bool) : Program (Option Nat) := do
  if !(← Program.exists (path t)) then return none
  else match c.lastOf ["force", "interactive", "no-clobber"] with
    | some "no-clobber" =>
      if moving then return some (← r.fail ("not replacing " ++ quoted t))
      else do
        r.complain ("warning: behavior of -n is non-portable and may change in future; " ++
          "use --update=none instead")
        return some 0
    | some "interactive" =>
      if ← agreed r ("overwrite " ++ quoted t) then return none else return some 1
    | _ => return none

/-- Gives what is at a target another name, if the options ask for it. -/
def backUp (c : Choices) (t : Text) : Program Unit := do
  if c.has "b" || c.has "backup" then
    if ← Program.exists (path t) then
      let suffix := (c.last? "suffix").getD ['~']
      let _ ← onFiles (.rename (path t) (path (t ++ suffix)))

def cp : Tool := withOptions
    ("a,archive ,attributes-only b ,backup? ,copy-contents d f,force i,interactive H l,link " ++
     "L,dereference n,no-clobber P,no-dereference p ,preserve? ,no-preserve= ,parents " ++
     "R,recursive r " ++
     ",reflink? ,remove-destination ,sparse= ,strip-trailing-slashes s,symbolic-link S,suffix= " ++
     "t,target-directory= T,no-target-directory u ,update? v,verbose x,one-file-system Z")
    fun r c =>
  let deep := c.has "recursive" || c.has "r" || c.has "archive"
  let follow := match c.lastOf ["dereference", "no-dereference", "archive", "d"] with
    | some "dereference" => true
    | some _ => false
    | none => !deep
  let k : Copying := ⟨deep, follow, c.has "verbose", c.has "symbolic-link"⟩
  toDestinations r c false fun s t => do
    match ← keepsTarget r c t false with
    | some code => return code
    | none =>
      if c.has "u" && (← Program.exists (path t)) then return 0
      else
        backUp c t
        copyAt r k 256 s t

/-! ## Moving -/

def moveAt (c : Choices) (s t : Text) : Program Nat := do
  r.asked (onFiles (.linkKind (path s))) "cannot stat " s fun kind => do
    let there ← onFiles (.linkKind (path t))
    let targetDir := match there with
      | .ok k => k.isDir
      | .error _ => false
    if kind.isDir && (← isInside s t) then
      r.fail ("cannot move " ++ quoted s ++ " to a subdirectory of itself, " ++ quoted t)
    else if (withoutSlashes s == withoutSlashes t && there.toOption.isSome) ||
        (!(kind == .link) && (there.toOption.any fun k => !(k == .link)) && (← samePlace s t)) then
      r.fail (quoted s ++ " and " ++ quoted t ++ " are the same file")
    else match kind.isDir, there.toOption.isSome, targetDir with
      | true, true, false =>
        r.fail ("cannot overwrite non-directory " ++ quoted t ++ " with directory " ++ quoted s)
      | false, true, true =>
        r.fail ("cannot overwrite directory " ++ quoted t ++ " with non-directory")
      | _, _, _ =>
        match ← keepsTarget r c t true with
        | some code => return code
        | none =>
          if c.has "u" && there.toOption.isSome then return 0
          else
            backUp c t
            match ← onFiles (.rename (path s) (path t)) with
            | .ok () => announce r (c.has "verbose") ("renamed " ++ quoted s ++ " -> " ++ quoted t)
            | .error e =>
              if e = .notEmpty || e = .nameTaken then
                r.refuse "cannot overwrite " t e
              else r.fail ("cannot move " ++ quoted s ++ " to " ++ quoted t ++ ": " ++ e.reason)

def mv : Tool := withOptions
    ("b ,backup? f,force i,interactive n,no-clobber ,no-copy ,strip-trailing-slashes S,suffix= " ++
     "t,target-directory= T,no-target-directory u ,update? v,verbose Z") fun r c =>
  toDestinations r c false (moveAt r c)

/-! ## Links -/

/-- Makes a second name for a file: a link to it, or a copy of it. -/
def linkAt (c : Choices) (s t : Text) : Program Nat := do
  let symbolic := c.has "symbolic"
  let kind := if symbolic then "symbolic" else "hard"
  let failed (e : OsError) : Program Nat :=
    let arrow := if symbolic && s.isEmpty then " -> ''" else
      if !symbolic && e != .nameTaken then " => " ++ quoted s else ""
    r.fail ("failed to create " ++ kind ++ " link " ++ quoted t ++ arrow ++ ": " ++ e.reason)
  let source ← if c.has "logical" then onFiles (.kind (path s))
    else onFiles (.linkKind (path s))
  match symbolic, source with
  | false, .error e => r.refuse "failed to access " s e
  | false, .ok .dir => r.fail (named s ++ ": hard link not allowed for directory")
  | _, _ => do
    let there ← onFiles (.linkKind (path t))
    let force := c.has "force"
    match there with
    | .ok .dir =>
      if force then r.fail (named t ++ ": cannot overwrite directory") else failed .nameTaken
    | _ => do
      if force && there.toOption.isSome && (← samePlace s t) && s == t then
        r.fail (quoted s ++ " and " ++ quoted t ++ " are the same file")
      else
        backUp c t
        if force then
          let _ ← onFiles (.unlink (path t))
        let target ← if c.has "relative" then do
            let real ← resolvePath .nothing true s
            let dir ← resolvePath .nothing true (dirName t)
            match real, dir with
            | .ok p, .ok d => pure (path (relativeTo d.names p.names))
            | _, _ => pure (path s)
          else pure (path s)
        let made ← if symbolic then onFiles (.symlink target (path t))
          else match source with
            | .ok .link =>
              match ← onFiles (.readLink (path s)) with
              | .ok p => onFiles (.symlink p (path t))
              | .error e => pure (.error e)
            | _ =>
              match ← onFiles (.linkKind (path t)) with
              | .ok _ => pure (.error .nameTaken)
              | .error _ => onFiles (.copy (path s) (path t))
        match made with
        | .ok () =>
          announce r (c.has "verbose")
            (quoted t ++ (if symbolic then " -> " else " => ") ++ quoted s)
        | .error e => failed e

def ln : Tool := withOptions
    ("b ,backup? d F ,directory f,force i,interactive L,logical n,no-dereference P,physical " ++
     "r,relative s,symbolic S,suffix= t,target-directory= T,no-target-directory v,verbose")
    fun r c =>
  match c.last? "target-directory", c.rest with
  | none, [s] => linkAt r c s (lastName s)
  | _, _ => toDestinations r c (c.has "no-dereference") (linkAt r c)

def link : Tool := withOptions "" fun r c => do
  match c.rest with
  | [] => r.lacking
  | [one] => r.misused ("missing operand after " ++ quoted one)
  | [s, t] =>
    let failed (e : OsError) : Program Nat :=
      r.fail ("cannot create link " ++ quoted t ++ " to " ++ quoted s ++ ": " ++ e.reason)
    match ← onFiles (.linkKind (path t)) with
    | .ok _ => failed .nameTaken
    | .error _ =>
      match ← onFiles (.copy (path s) (path t)) with
      | .ok () => return 0
      | .error e => failed e
  | _ :: _ :: extra :: _ => r.burdened extra

/-! ## Making files -/

def touch : Tool := withOptions
    "a c,no-create d,date= f h,no-dereference m r,reference= t= ,time=" fun r c => do
  let isStamp (t : Text) : Bool := 8 ≤ t.length && t.all fun ch => ch.isDigit || ch == '.'
  let wrongStamp := (c.last? "t").any fun t => !isStamp t
  let wrongDate := (c.last? "date").any fun t => !t.any Char.isDigit && t != "now".toList
  if c.rest.isEmpty then r.misused "missing file operand"
  else if wrongStamp then r.fail ("invalid date format " ++ quoted (c.value "t"))
  else if wrongDate then r.fail ("invalid date format " ++ quoted (c.value "date"))
  else
    let reference := match c.last? "reference" with
      | some t => onFiles (.kind (path t))
      | none => pure (.ok .dir)
    r.asked reference "failed to get attributes of " (c.value "reference") fun _ =>
      each c.rest fun t => do
        let there ← if c.has "no-dereference" then do
            match ← onFiles (.linkKind (path t)) with
            | .ok _ => pure true
            | .error _ => pure false
          else Program.exists (path t)
        if there || c.has "no-create" || t == ['-'] then return 0
        else match ← openFile (path t) .append with
          | .ok fd => do
            close fd
            return 0
          | .error e =>
            if t.getLast? == some '/' then
              r.refuse "setting times of " t .noEntry
            else r.refuse "cannot touch " t e

def makePipe (t : Text) : Program Nat := do
  match ← perform (.makeFifo (path t)) with
  | .ok () => return 0
  | .error e =>
    let what := if r.name == "mkfifo" then "cannot create fifo " ++ quoted t else named t
    r.fail (what ++ ": " ++ e.reason)

def mkfifo : Tool := withOptions "m,mode= Z ,context?" fun r c => do
  if c.rest.isEmpty then r.lacking
  else if (c.last? "mode").any fun m => (readMode m).isNone then r.fail "invalid mode"
  else each c.rest (makePipe r)

def mknod : Tool := withOptions "m,mode= Z ,context?" fun r c => do
  match c.rest with
  | [] => r.lacking
  | [one] => r.misused ("missing operand after " ++ quoted one)
  | [t, ['p']] => makePipe r t
  | _ :: ['p'] :: extra :: _ => r.burdened extra
  | [_, kind] => do
    r.complain ("missing operand after " ++ quoted kind)
    tell ("Special files require major and minor device numbers.\n" ++ r.hint)
    return 1
  | t :: _ => r.refuseAt t OsError.notPermitted

def freshLetters : Nat → Nat → Text
  | 0, _ => []
  | k + 1, n => Char.ofNat ('a'.toNat + n % 26) :: freshLetters k (n / 26)

/-- The template of a new name, with so many places at its end before the suffix. -/
structure Template where
  front : Text
  places : Nat
  suffix : Text

def Template.read (t : Text) (suffix : Option Text) : Option Template :=
  let (body, suffix) := match suffix with
    | some s => (t, s)
    | none =>
      let after := (t.reverse.takeWhile (· != 'X')).reverse
      (t.take (t.length - after.length), after)
  let places := (body.reverse.takeWhile (· == 'X')).length
  if places < 3 then none else some ⟨body.take (body.length - places), places, suffix⟩

/-- Makes something with a new name, which it tries to find so often. -/
def makeFresh (make : Path → Program (Except OsError Unit)) (t : Template) :
    Nat → Nat → Program (Except OsError Text)
  | 0, _ => return .error .nameTaken
  | fuel + 1, n => do
    let name := t.front ++ freshLetters t.places n ++ t.suffix
    match ← make (path name) with
    | .ok () => return .ok name
    | .error e => if e = .nameTaken then makeFresh make t fuel (n + 1) else return .error e

def mktemp : Tool := withOptions
    "d,directory p= ,tmpdir? q,quiet ,suffix= t u,dry-run V" fun r c => do
  let dir := ((r.env.lookup (utf8 "TMPDIR")).map ofBytes).getD "/tmp".toList
  let dir := if dir.isEmpty then "/tmp".toList else dir
  let asked := (c.lastOf ["p", "tmpdir"]).bind c.last?
  match c.rest.drop 1 with
  | _ :: _ => r.misused "too many templates"
  | [] =>
    let given := c.rest.headD "tmp.XXXXXXXXXX".toList
    let base : Option Text := match asked with
      | some d => some (if d.isEmpty then dir else d)
      | none => if c.rest.isEmpty || c.has "t" then some dir else none
    match Template.read given (c.last? "suffix") with
    | none => r.fail ("too few X's in template " ++ quoted given)
    | some t => do
      let front := match base with
        | some d => childOf d []
        | none => []
      let t := { t with front := front ++ t.front }
      let make (p : Path) : Program (Except OsError Unit) := do
        match ← onFiles (.linkKind p) with
        | .ok _ => return .error .nameTaken
        | .error _ =>
          if c.has "dry-run" then return .ok ()
          else if c.has "directory" then onFiles (.makeDir p)
          else match ← onFiles (.write p []) with
            | .ok () => onFiles (.setMode p 0o600)
            | .error e => return .error e
      let pid ← ownPid
      match ← makeFresh make t 10000 (pid * 7919) with
      | .ok name => r.finish (name ++ ['\n'])
      | .error e =>
        if c.has "quiet" then return 1
        else
          let shown := front ++ given ++ c.value "suffix"
          r.fail ("failed to create " ++ (if c.has "directory" then "directory" else "file") ++
            " via template " ++ quoted shown ++ ": " ++ e.reason)

end Judge.Tools
