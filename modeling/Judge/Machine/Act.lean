import Judge.Machine.Program
import Judge.Error

/-!
# Machine/Act — programs of the judge

What the judge does is a program that ends with a value or with an error of judging.  The operations
here are the single steps that it is made of.
-/

namespace Judge

/-- A program of the judge, which may fail. -/
abbrev Act (α : Type) := ExceptT JudgeError Program α

namespace Act

variable {α : Type}

/-- A program that does not fail. -/
def ofProgram (p : Program α) : Act α := ExceptT.lift p

/-- A program of the system, with its refusals told by `tell`. -/
def orElse (p : Program (Except OsError α)) (tell : OsError → JudgeError) : Act α :=
  ExceptT.mk do
    match ← p with
    | .ok a => return .ok a
    | .error e => return .error (tell e)

/-- Fails as the system does. -/
def ofSystem (p : Program (Except OsError α)) : Act α := orElse p fun e => .io (.os e)

/-- Fails or not, without a call. -/
def ofExcept (r : Except JudgeError α) : Act α := ExceptT.mk (return r)

def say (text : String) : Act Unit := ofProgram (Program.printLine text)

/-- A program of the system one of whose refusals, `spared`, is no failure. -/
def sparing (spared : OsError) (p : Program (Except OsError Unit)) (tell : OsError → JudgeError) :
    Act Unit := do
  match ← ofProgram p with
  | .ok () => return ()
  | .error e => if e = spared then return () else throw (tell e)

/-- Sends a signal; that the process is gone is no failure. -/
def signal (pid : Int) (s : Signal) : Act Unit := sparing .noProcess (Program.kill pid s) .system

end Act

namespace Program

/-- Whether a path leads to a regular file. -/
def isFile (p : Path) : Program Bool := do
  match ← onFiles (.kind p) with
  | .ok k => return k.isFile
  | .error _ => return false

/-- Whether it leads to a directory. -/
def isDir (p : Path) : Program Bool := do
  match ← onFiles (.kind p) with
  | .ok k => return k.isDir
  | .error _ => return false

variable (p : Path)

/-- Whether it leads to anything. -/
def «exists» : Program Bool := do
  match ← onFiles (.kind p) with
  | .ok _ => return true
  | .error _ => return false

/-- What is in a file. -/
def fetch : Program (Except OsError Bytes) := onFiles (.read p)

/-- Puts data into a file. -/
def store (data : Bytes) : Program (Except OsError Unit) := onFiles (.write p data)

/-- Makes the directory at `p`, unless there is one. -/
def ensureDir : Program (Except OsError Unit) := do
  match ← onFiles (.makeDir p) with
  | .ok () => return .ok ()
  | .error e => if ← isDir p then return .ok () else return .error e

/-- Makes the directory at `p` and those above it that are missing, at most `fuel` of them. -/
def makeDirs : Nat → Path → Program (Except OsError Unit)
  | 0, p => if p.text.isEmpty then return .ok () else ensureDir p
  | fuel + 1, p =>
    if p.text.isEmpty then return .ok ()
    else do
      match ← onFiles (.makeDir p) with
      | .ok () => return .ok ()
      | .error e =>
        if e = .noEntry then
          match p.parent? with
          | none => return .error e
          | some above =>
            match ← makeDirs fuel above with
            | .error e => return .error e
            | .ok () => ensureDir p
        else if ← isDir p then return .ok ()
        else return .error e

/-- Makes the directory at `p` and those above it that are missing. -/
def makeDirAll : Program (Except OsError Unit) := makeDirs p.components.length p

end Program

end Judge
