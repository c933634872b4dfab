import Judge.Shell.Expansion

/-!
# Shell/Redirect — changes of open files

A redirection is settled first, which expands its word, and then made.  What it changes is kept, so
that it can be brought back.
-/

namespace Judge.Shell

def exitWith {α : Type} (code : Nat) : Sh α :=
  ofProgram (.call (.exit code) fun (e : Empty) => e.elim)

/-- A redirection whose word was expanded; a text is expanded when it is made. -/
inductive Change where
  | file (fd : Descriptor) (mode : RedirectMode) (path : Text)
  | copy (fd : Descriptor) (source : Option Descriptor)
  | text (fd : Descriptor) (body : Word)

variable (capture : List Command → Sh Text)

def settleRedirection : Redirection → Sh Change
  | .file fd mode target => do return .file fd mode (← expandText capture target)
  | .text fd body => return .text fd body
  | .copy fd source => do
    match ← expandText capture source with
    | ['-'] => return .copy fd none
    | [c] =>
      if c.isDigit then return .copy fd (some (c.toNat - '0'.toNat))
      else wrongDescriptor
    | _ => wrongDescriptor
where
  /-- Fails because a word names no descriptor; the place is where the script was read up to. -/
  wrongDescriptor : Sh Change := do
    modify fun s => { s with line := s.reached }
    fail "Syntax error: Bad fd number"

/-- Settles the redirections of a command in a line. -/
def settleAll (line : Nat) (redirections : List Redirection) : Sh (List Change) := do
  modify fun s => { s with line }
  redirections.mapM (settleRedirection capture)

/-- A descriptor as it was before a redirection. -/
structure Saved where
  fd : Descriptor
  copy : Option Descriptor

def keptFrom : Descriptor := 10

def moveTo (source fd : Descriptor) : Sh Unit := do
  if source != fd then
    let _ ← perform (.duplicate source fd)
    perform (.close source)

def keepDescriptor (fd : Descriptor) (saved : List Saved) : Sh (List Saved) := do
  if saved.any (·.fd == fd) then return saved
  else match ← perform (.duplicateFrom fd keptFrom) with
    | .ok copy => return ⟨fd, some copy⟩ :: saved
    | .error _ => return ⟨fd, none⟩ :: saved

def restoreDescriptors (saved : List Saved) : Sh Unit :=
  saved.forM fun s => match s.copy with
    | some copy => moveTo copy s.fd
    | none => perform (.close s.fd)

def forgetDescriptors (saved : List Saved) : Sh Unit :=
  saved.forM fun s => s.copy.forM fun copy => perform (.close copy)

def maxDirectText : Nat := 4096

/-- The end of a pipe that a text can be read from; a long one is written by another process. -/
def textDescriptor (t : Text) : Sh Descriptor := do
  let (outlet, inlet) ← perform .pipe
  if t.length ≤ maxDirectText then
    let _ ← printTo inlet t
  else
    match ← perform .fork with
    | none => do
      perform (.close outlet)
      let _ ← printTo inlet t
      exitWith 0
    | some _ => pure ()
  perform (.close inlet)
  return outlet

def openTarget (mode : RedirectMode) (path : Text) : Sh Descriptor := do
  let p : Path := ⟨toBytes path⟩
  let refuse {α : Type} (e : OsError) : Sh α :=
    if mode = .input then
      fail ("cannot open " ++ String.ofList path ++ ": " ++ reasonFor e "No such file")
    else
      fail ("cannot create " ++ String.ofList path ++ ": " ++ reasonFor e "Directory nonexistent")
  let how : OpenMode := match mode with
    | .input => .read
    | .append => .append
    | .both => .update
    | _ => .write
  if mode = .output && (← has .noclobber) then
    match ← perform (.file (.kind p)) with
    | .ok k => if k.isFile then refuse .nameTaken
    | .error _ => pure ()
  match ← perform (.openFile p how) with
  | .ok fd => return fd
  | .error e => refuse e

/-- Makes one redirection, and gives what was kept with the descriptors that are kept already. -/
def makeChange (saved : List Saved) (c : Change) : Sh (List Saved) := do
  let lead (fd opened : Descriptor) : Sh (List Saved) := do
    if opened == fd then
      return if saved.any (·.fd == fd) then saved else ⟨fd, none⟩ :: saved
    else
      let saved ← keepDescriptor fd saved
      moveTo opened fd
      return saved
  match c with
  | .file fd mode path => do lead fd (← openTarget mode path)
  | .text fd body => do lead fd (← textDescriptor (← expandPlain capture body))
  | .copy fd none => do
    let saved ← keepDescriptor fd saved
    perform (.close fd)
    return saved
  | .copy fd (some source) => do
    if source == fd then return saved
    else
      let saved ← keepDescriptor fd saved
      match ← perform (.duplicate source fd) with
      | .ok () => return saved
      | .error e => fail (toString source ++ ": " ++ e.reason)

/-- **Makes redirections** up to the first that fails; gives what was kept, and whether all went
well. -/
def makeChanges (capture : List Command → Sh Text) : List Change → List Saved →
    Sh (List Saved × Bool)
  | [], saved => return (saved, true)
  | c :: rest, saved => do
    match ← attempt (makeChange capture saved c) with
    | .ok saved => makeChanges capture rest saved
    | .error .error => return (saved, false)
    | .error e => throw e

def makeForGood (cs : List Change) : Sh Unit := do
  let (saved, good) ← makeChanges capture cs []
  forgetDescriptors saved
  unless good do throw .error

end Judge.Shell
