import Judge.Tools.Copying

/-!
# Tools/Following — the end of a file, and what is added to it

The end of a file is shown, and may then be followed: what is added to the file later is shown as
well, until there is nobody to show it to or nothing to be followed any more.  A file is followed by
its descriptor, wherever its name goes, or by its name, whatever file has it.
-/

namespace Judge.Tools

open Program (close drain openFile ownPid perform)

open Shell (Text toBytes)

def tailOf (e : Extent) (ending : UInt8) (data : Bytes) : Bytes :=
  if e.bytes then
    data.drop (if e.otherEnd then e.count - 1 else data.length - e.count)
  else
    let lines := cutBehind ending data
    (lines.drop (if e.otherEnd then e.count - 1 else lines.length - e.count)).flatten

/-- The first option of `tail` written as `-5`, `+5`, `-5c` or `-5f`. -/
def obsoleteTail (args : List Text) : List Text :=
  match args with
  | (sign :: c :: more) :: rest =>
    if (sign == '-' || sign == '+') && c.isDigit && rest.length ≤ 1 then
      let digits := c :: more.takeWhile Char.isDigit
      let letters := more.drop (digits.length - 1)
      let follows := letters.getLast? == some 'f'
      let count := if sign == '+' then '+' :: digits else digits
      let rest := if follows then ['-', 'f'] :: rest else rest
      match if follows then letters.dropLast else letters with
      | [] | ['l'] => ('-' :: 'n' :: count) :: rest
      | ['c'] => ('-' :: 'c' :: count) :: rest
      | ['b'] => ('-' :: 'c' :: count ++ ['b']) :: rest
      | _ => args
    else args
  | _ => args

/-! ## Files that are followed -/

/-- A file that is followed, and its descriptor unless it is not there. -/
structure Followed where
  name : Text
  fd : Option Descriptor

/-- How files are followed. -/
structure Pursuit where
  byName : Bool
  retry : Bool
  headed : Bool
  pid : Option Pid

def glance : Span := Span.ofMillis 10

def Followed.reopen (f : Followed) (r : Request) (news : String) : Program (Option Followed) := do
  match ← openFile (path f.name) .read with
  | .ok fd => do
    r.complain (quoted f.name ++ " has " ++ news ++ ";  following new file")
    return some { f with fd := some fd }
  | .error _ => return none

/-- A followed file as it is now: one that was cut is read from its start, and one that was removed
may be another one by now. -/
def Followed.renew (f : Followed) (r : Request) (p : Pursuit) : Program Followed := do
  match f.fd with
  | none =>
    if p.retry then return (← f.reopen r "appeared").getD f else return f
  | some fd =>
    match ← perform (.look fd) with
    | .ok (.file place offset size _) =>
      if p.byName && place.isNone then do
        close fd
        match ← f.reopen r "been replaced" with
        | some f => return f
        | none => do
          r.complain (quoted f.name ++ " has become inaccessible: " ++ OsError.noEntry.reason)
          return { f with fd := none }
      else if size < offset then do
        r.complain (named f.name ++ ": file truncated")
        let _ ← perform (.seek fd (-(offset : Int)))
        return f
      else return f
    | _ => return f

def Followed.showMore (f : Followed) (r : Request) (p : Pursuit) (shown : Text) : Program Text := do
  match f.fd with
  | none => return shown
  | some fd =>
    match ← drain fd with
    | .error _ => return shown
    | .ok data =>
      if data.isEmpty then return shown
      else do
        if p.headed && f.name != shown then
          let _ ← r.print (toBytes (heading f.name false))
        let _ ← r.print data
        return f.name

def isAlive (pid : Pid) : Program Bool := do
  match ← perform (.kill pid 0) with
  | .ok () => return true
  | .error e => return e != .noProcess

/-- **Follows files**, and ends with an exit code: `code` unless none are left. -/
def follow (r : Request) (p : Pursuit) (code : Nat) : Nat → Text → List Followed → Program Nat
  | 0, _, _ => return code
  | fuel + 1, shown, files => do
    let alive ← match p.pid with
      | some pid => isAlive pid
      | none => pure true
    let files ← files.mapM fun f => f.renew r p
    let shown ← files.foldlM (fun shown f => f.showMore r p shown) shown
    match ← perform (.look 1) with
    | .ok (.pipe true) => do
      let own ← ownPid
      let _ ← perform (.kill own Signal.pipe)
      return 1
    | _ =>
      if !alive then return code
      else if !p.retry && files.all (·.fd.isNone) then r.fail "no files remaining"
      else do
        Program.sleep glance
        follow r p code fuel shown files

/-! ## The tool -/

def isFollowing (c : Choices) : Bool := c.has "f" || c.has "F" || c.has "follow"

/-- Shows the end of a file, which is left open; gives the exit code, whether no heading has been
needed so far, and the file to be followed. -/
def showEnd (r : Request) (c : Choices) (e : Extent) (t : Text) (first : Bool) :
    Program (Nat × Bool × Followed) := do
  let ending : UInt8 := if c.has "zero-terminated" then 0 else 0x0A
  match ← openInput t with
  | .error e => return (← r.fail (longTelling t (.closed e)), first, ⟨t, none⟩)
  | .ok fd => do
    if isHeaded c then
      let _ ← r.print (toBytes (heading t first))
    match ← drain fd with
    | .error e => do
      closeInput fd
      r.complain (longTelling t (.unread e))
      if isFollowing c then
        r.complain (named t ++
          ": cannot follow end of this type of file; giving up on this name")
      return (1, false, ⟨t, none⟩)
    | .ok data => do
      let _ ← r.print (tailOf e ending data)
      return (0, false, ⟨t, some fd⟩)

def isPiped (f : Followed) : Program Bool := do
  if f.name == ['-'] then
    match ← perform (.look 0) with
    | .ok (.pipe _) => return true
    | _ => return false
  else return false

def showEnds (r : Request) (c : Choices) (e : Extent) :
    Bool → List Text → Program (Nat × List Followed)
  | _, [] => return (0, [])
  | first, t :: rest => do
    let (code, first, f) ← showEnd r c e t first
    let (others, fs) ← showEnds r c e first rest
    return (max code others, f :: fs)

def showAndFollow (r : Request) (c : Choices) (e : Extent) : Program Nat := do
  match ← perform (.look 1) with
  | .error e => r.fail ("standard output: " ++ e.reason)
  | .ok _ => do
    let (code, files) ← showEnds r c e true (orInput c.rest)
    let byName := c.has "F" || c.last? "follow" == some "name".toList
    let p : Pursuit :=
      { byName, retry := c.has "F" || (byName && c.has "retry"), headed := isHeaded c
        pid := (c.last? "pid").bind nat? }
    let followed ← files.filterM fun f => return !(← isPiped f)
    if followed.isEmpty then return code
    else follow r p code patience ((files.getLast?.map (·.name)).getD []) followed

def tail : Tool := fun r =>
  withOptions ("c,bytes= f ,follow? F n,lines= q,quiet ,silent s,sleep-interval= v,verbose " ++
      "z,zero-terminated ,pid= ,retry ,max-unchanged-stats=")
    (fun r c => do
      match extentOf c '+' with
      | .error e => r.fail e
      | .ok e =>
        if isFollowing c then showAndFollow r c e
        else do
          let (code, files) ← showEnds r c e true (orInput c.rest)
          files.forM fun f => (f.fd.map closeInput).getD (return ())
          return code)
    false 1 { r with args := obsoleteTail r.args }

end Judge.Tools
