import Judge.Machine.Act

/-!
# Files/Item — setting up files

An `Item` is a file, a directory or a link to be put somewhere, or something to be taken away.
Directories that are missing above it are made.
-/

namespace Judge

/-- Something to be put at a path. -/
inductive Item where
  | file (content : Bytes) (executable : Bool)
  | dir
  | link (target : Path)
  | nothing
deriving DecidableEq, Repr

namespace Item

def script (body : String) : Bytes := utf8 ("#!/bin/sh\n" ++ body ++ "\n")

/-- Puts the item at a path whose directory is there. -/
def put (p : Path) : Item → Program Unit
  | .file content executable => do
    let _ ← Program.store p content
    let _ ← Program.onFiles (.setMode p (if executable then programMode else plainMode))
  | .dir => do
    let _ ← Program.makeDirAll p
  | .link target => do
    let _ ← Program.onFiles (.unlink p)
    let _ ← Program.onFiles (.symlink target p)
  | .nothing => do
    let _ ← Program.onFiles (.unlink p)
    let _ ← Program.onFiles (.removeTree p)

/-- **Puts the item at a path**, with the directories that are missing above it. -/
def install (p : Path) (i : Item) : Program Unit := do
  match i, p.parent? with
  | .nothing, _ => pure ()
  | _, some above => do
    let _ ← Program.makeDirAll above
  | _, none => pure ()
  i.put p

end Item

end Judge
