import Judge.Machine.Program

/-!
# Machine/Kernel — a machine that programs run on

The machine holds a tree of files, processes, open files and pipes, and a clock.  It answers the
calls of one process at a time; a call that has to wait is tried again later.  All of it is plain
data, and `Machine.drive` runs a program to its end together with every process that it starts.
-/

namespace Judge

/-- What a new program is told. -/
structure Boot where
  argv : List Bytes
  env : Environment
deriving DecidableEq, Repr

/-- The programs by their names. -/
abbrev Loader := Bytes → Boot → Option (Program Nat)

/-- What an open file leads to. -/
inductive Target where
  | file (place : Place)
  | loose (content : Bytes)
  | dir
  | device (d : Device)
  | screen
  | errors
  | text (content : Bytes)
  | outlet (pipe : Nat)
  | inlet (pipe : Nat)
  | duplex (pipe : Nat)
deriving DecidableEq, Repr

/-- An open file, which several descriptors may share. -/
structure OpenFile where
  target : Target
  offset : Nat := 0
  append : Bool := false
  readable : Bool := true
  writable : Bool := true
deriving DecidableEq, Repr

/-- A pipe: what was written and not read, the last piece first, and how often its ends were opened
by name. -/
structure Pipe where
  pieces : List Bytes := []
  size : Nat := 0
  readers : Nat := 0
  writers : Nat := 0
deriving DecidableEq, Repr

namespace Pipe

/-- How much a pipe holds. -/
def capacity : Nat := 65536

/-- What was not read yet. -/
def content (p : Pipe) : Bytes :=
  match p.pieces with
  | [piece] => piece
  | pieces => pieces.reverse.flatten

/-- The pipe with other content. -/
def hold (p : Pipe) (data : Bytes) (size : Nat) : Pipe :=
  if size = 0 then { p with pieces := [], size := 0 } else { p with pieces := [data], size }

/-- The pipe after a write. -/
def push (p : Pipe) (data : Bytes) : Pipe :=
  { p with pieces := data :: p.pieces, size := p.size + data.length }

end Pipe

/-- How far a process is. -/
inductive Stage where
  | running (p : Program Nat)
  | main
  | ended (status : WaitStatus)

/-- A process. -/
structure Process where
  pid : Pid
  parent : Pid
  group : Pid
  argv : List Bytes
  cwd : Place
  files : List (Descriptor × Nat)
  passing : List Descriptor := []
  stage : Stage
  ignored : List Signal := []
  watched : List Signal := []
  pending : List Signal := []
  stopped : Bool := false
  held : List Signal := []
  mask : Nat := 0o022
  limits : List (Resource × Limit) := []
  time : Nat := 0
  childTime : Nat := 0
  /-- Whether it is given the children of descendants that end. -/
  adopts : Bool := false
  endedAt : Nat := 0

namespace Process

variable (p : Process)

def hasEnded : Bool :=
  match p.stage with
  | .ended _ => true
  | _ => false

/-- The number of an open file. -/
def fileAt? (fd : Descriptor) : Option Nat := p.files.lookup fd

/-- Without a descriptor. -/
def drop (fd : Descriptor) : Process :=
  { p with files := p.files.filter (·.1 != fd), passing := p.passing.filter (· != fd) }

/-- With a descriptor for an open file. -/
def bind (fd : Descriptor) (id : Nat) : Process :=
  { p.drop fd with files := (fd, id) :: p.files.filter (·.1 != fd) }

/-- Without what a new program does not get. -/
def shed : Process := p.passing.foldl drop p

/-- The least free descriptor from `least` on. -/
def free (least : Descriptor) : Descriptor :=
  ((List.range (p.files.length + 1)).map (least + ·)).find? (fun fd => (p.fileAt? fd).isNone)
    |>.getD least

end Process

/-- A machine. -/
structure Machine where
  tree : FileTree := {}
  clock : Nat := 0
  processes : List Process := []
  opened : List (Nat × OpenFile) := []
  pipes : List (Nat × Pipe) := []
  fresh : Nat := 1000
  screen : List Bytes := []
  errors : List Bytes := []
  peers : List (Place × List PeerStep) := []
  said : List Bytes := []

namespace Machine

/-! ## Parts -/

variable (m : Machine)

def output : Bytes := m.screen.reverse.flatten

def errorOutput : Bytes := m.errors.reverse.flatten

def process? (pid : Pid) : Option Process := m.processes.find? (·.pid == pid)

/-- How a process has ended. -/
def status? (pid : Pid) : Option WaitStatus :=
  match m.process? pid with
  | some p =>
    match p.stage with
    | .ended status => some status
    | _ => none
  | none => none

def modify (pid : Pid) (f : Process → Process) : Machine :=
  { m with processes := m.processes.map fun p => if p.pid == pid then f p else p }

/-- The open file behind a descriptor of a process, with its number. -/
def fileOf (p : Process) (fd : Descriptor) : Except OsError (Nat × OpenFile) :=
  match (p.fileAt? fd).bind fun id => (m.opened.lookup id).map (id, ·) with
  | some found => .ok found
  | none => .error .badDescriptor

/-- The answer to a call; one that is refused changes nothing. -/
def answer {α : Type} : Except OsError (α × Machine) → Except OsError α × Machine
  | .ok (a, after) => (.ok a, after)
  | .error e => (.error e, m)

def setFile (id : Nat) (file : OpenFile) : Machine :=
  { m with opened := m.opened.map fun e => if e.1 == id then (id, file) else e }

def pipeAt (id : Nat) : Pipe := (m.pipes.lookup id).getD {}

def setPipe (id : Nat) (pipe : Pipe) : Machine :=
  { m with pipes := m.pipes.map fun e => if e.1 == id then (id, pipe) else e }

/-- What the open files lead to. -/
def heldTargets : List Target :=
  (m.processes.flatMap fun p => p.files.filterMap fun e => m.opened.lookup e.2).map (·.target)

/-- Whether a pipe can still be filled. -/
def hasWriter (pipe : Nat) : Bool :=
  m.heldTargets.any fun t => t == .inlet pipe || t == .duplex pipe

def hasReader (pipe : Nat) : Bool :=
  m.heldTargets.any fun t => t == .outlet pipe || t == .duplex pipe

def newFile (file : OpenFile) : Nat × Machine :=
  (m.fresh, { m with opened := (m.fresh, file) :: m.opened, fresh := m.fresh + 1 })

/-- A new pipe with both ends. -/
def newPipe : (Nat × Nat) × Machine :=
  let pipe := m.fresh
  let m := { m with pipes := (pipe, {}) :: m.pipes, fresh := m.fresh + 1 }
  let outlet := m.newFile { target := .outlet pipe }
  let inlet := outlet.2.newFile { target := .inlet pipe }
  ((outlet.1, inlet.1), inlet.2)

/-- The machine without the open files and pipes that nobody holds. -/
def sweep : Machine :=
  let held := m.processes.flatMap fun p => p.files.map (·.2)
  let opened := m.opened.filter fun e => held.contains e.1
  let pipes := m.pipes.filter fun e =>
    opened.any fun o => [.outlet e.1, .inlet e.1, .duplex e.1].contains o.2.target
  { m with opened, pipes }

/-! ## The end of a process -/

/-- The process that children of an ended process go to: the one that asked for them. -/
def reaper : Pid := ((m.processes.find? (·.adopts)).map (·.pid)).getD 1

def finish (pid : Pid) (status : WaitStatus) : Machine :=
  let reaper := m.reaper
  let processes := m.processes.map fun p =>
    if p.pid == pid then
      { p with stage := .ended status, files := [], pending := [], endedAt := m.clock }
    else if p.parent == pid then { p with parent := reaper }
    else p
  sweep { m with processes }

/-- Signals that do nothing by themselves. -/
def harmless : List Signal := [17, 18, 23, 28]

/-- The signal that always stops. -/
def stop : Signal := 19

/-- The signal to go on. -/
def goOnSignal : Signal := 18

/-- Signals that stop if they are not caught. -/
def stopping : List Signal := [20, 21, 22]

variable (p : Process)

/-- What a signal does to a process at work. -/
def deliver (s : Signal) : Machine :=
  if s == stop then m.modify p.pid fun p => { p with stopped := true }
  else if p.ignored.contains s then m
  else if p.watched.contains s then
    m.modify p.pid fun p => { p with pending := p.pending ++ [s] }
  else if stopping.contains s then m.modify p.pid fun p => { p with stopped := true }
  else if harmless.contains s then m
  else m.finish p.pid (.signaled s)

/-- **Sends a signal** to a process. -/
def signal (s : Signal) : Machine :=
  if p.hasEnded || s == 0 then m
  else match p.stage with
    | .main => m
    | _ =>
      if s == Signal.kill then m.finish p.pid (.signaled s)
      else if p.stopped then
        if s == goOnSignal then
          let m := m.modify p.pid fun p => { p with stopped := false, held := [] }
          (p.held ++ [s]).foldl (fun m s => match m.process? p.pid with
            | some p => if p.hasEnded then m else m.deliver p s
            | none => m) m
        else m.modify p.pid fun p => { p with held := p.held ++ [s] }
      else m.deliver p s

/-- Whom a number stands for. -/
def addressed (sender : Process) (pid : Int) : List Process :=
  if 0 < pid then m.processes.filter fun p => (p.pid : Int) == pid
  else if pid == 0 then m.processes.filter (·.group == sender.group)
  else if pid == -1 then m.processes.filter (·.pid != sender.pid)
  else m.processes.filter fun p => (p.group : Int) == -pid

/-- Takes a process away that was waited for. -/
def reap (parent : Pid) (p : Process) : Machine :=
  let m := { m with processes := m.processes.filter (·.pid != p.pid) }
  m.modify parent fun q => { q with childTime := q.childTime + p.time + p.childTime }

/-! ## Open files -/

/-- The descriptor that a path names. -/
def descriptorOf? (p : Path) : Option Descriptor :=
  match Utf8.decode? p.text with
  | none => none
  | some cs =>
    let s := String.ofList cs
    if s = "/dev/stdin" then some 0
    else if s = "/dev/stdout" then some 1
    else if s = "/dev/stderr" then some 2
    else if "/dev/fd/".toList.isPrefixOf cs then (String.ofList (cs.drop 8)).toNat?
    else none

/-- The permissions of a new file, where a process takes away those in `mask`. -/
def newMode (mask : Nat) : Nat := 0o666 &&& (0o777 ^^^ (mask &&& 0o777))

/-- The tree when a file is about to be opened. -/
def prepare (t : FileTree) (cwd : Place) (mask : Nat) (p : Path) :
    OpenMode → Except OsError (Place × FileTree)
  | .read => do return ((← t.find cwd p).1, t)
  | .write => do
    let (place, t) ← t.touch cwd p (newMode mask)
    return (place, ← t.write cwd p [])
  | _ => t.touch cwd p (newMode mask)

/-- The end of a pipe that is opened. -/
def fifoEnd (pipe : Nat) : OpenMode → Target
  | .read => .outlet pipe
  | .update => .duplex pipe
  | _ => .inlet pipe

/-- Counts an opening of a pipe. -/
def noteOpening (pipe : Nat) (mode : OpenMode) : Machine :=
  let pile := m.pipeAt pipe
  let pile := { pile with
    readers := pile.readers + if mode = .read || mode = .update then 1 else 0
    writers := pile.writers + if mode = .read then 0 else 1 }
  { m with pipes := (pipe, pile) :: m.pipes.filter (·.1 != pipe) }

/-- What is opened at a place. -/
def targetAt (place : Place) (mode : OpenMode) : Except OsError (Target × Machine) :=
  match m.tree.get? place with
  | some (.file _ _) => .ok (.file place, m)
  | some .dir => .ok (.dir, m)
  | some (.device d) => .ok (.device d, m)
  | some (.link _) => .error .tooManyLinks
  | some .socket => .error .noDevice
  | some (.fifo pipe) => .ok (fifoEnd pipe mode, m.noteOpening pipe mode)
  | none => .ok (.dir, m)

/-- **Opens a file** for a process. -/
def openFor (path : Path) (mode : OpenMode) : Except OsError (Nat × Machine) := do
  match descriptorOf? path with
  | some fd =>
    match p.fileAt? fd with
    | some id => .ok (id, m)
    | none => .error .noEntry
  | none =>
    let (place, t) ← prepare m.tree p.cwd p.mask path mode
    let (target, m) ← { m with tree := t }.targetAt place mode
    .ok (m.newFile
      { target, append := decide (mode = OpenMode.append)
        readable := decide (mode = .read ∨ mode = .update), writable := decide (mode ≠ .read) })

variable (cwd : Place)

/-- The call that waits for the other end of a pipe with a name, if that is what is opened. -/
def meeting? (path : Path) (mode : OpenMode) : Option Call :=
  match m.tree.find cwd path, mode with
  | .ok (_, .fifo _), .update => none
  | .ok (_, .fifo pipe), .read => some (.meet pipe false (m.pipeAt pipe).writers)
  | .ok (_, .fifo pipe), _ => some (.meet pipe true (m.pipeAt pipe).readers)
  | _, _ => none

/-- What is in a pipe: `none` when it may still come, and nothing at the end. -/
def pipeContent (pipe : Nat) : Option Bytes :=
  let p := m.pipeAt pipe
  if p.size != 0 then some p.content
  else if m.hasWriter pipe then none
  else some []

/-- What an endless device gives at once. -/
def zeros : Bytes := List.replicate 65536 0

/-- What can be read now: `none` when nothing has come yet, and nothing at the end. -/
def available (file : OpenFile) : Except OsError (Option Bytes) :=
  if !file.readable then .error .badDescriptor
  else match file.target with
  | .file place =>
    match m.tree.get? place with
    | some (.file content _) => .ok (some (content.drop file.offset))
    | _ => .ok (some [])
  | .loose content | .text content => .ok (some (content.drop file.offset))
  | .dir => .error .isDirectory
  | .device .null => .ok (some [])
  | .device _ => .ok (some zeros)
  | .screen | .errors => .ok (some [])
  | .inlet _ => .error .badDescriptor
  | .outlet pipe | .duplex pipe => .ok (m.pipeContent pipe)

/-- What a process can read now at a descriptor, and from which open file. -/
def inputAt (p : Process) (fd : Descriptor) :
    Except OsError (Nat × OpenFile × Option Bytes) := do
  let (id, file) ← m.fileOf p fd
  return (id, file, ← m.available file)

/-- Takes data out of a pipe. -/
def drawFrom (pipe : Nat) (data : Bytes) (n : Nat) : Machine :=
  let p := m.pipeAt pipe
  m.setPipe pipe (p.hold (data.drop n) (p.size - n))

/-- The machine after a read. -/
def consume (id : Nat) (file : OpenFile) (data : Bytes) (n : Nat) : Machine :=
  match file.target with
  | .outlet pipe | .duplex pipe => m.drawFrom pipe data n
  | _ => m.setFile id { file with offset := file.offset + n }

/-- Content with data at an offset. -/
def overwrite (content : Bytes) (offset : Nat) (data : Bytes) : Bytes :=
  content.take offset ++ List.replicate (offset - content.length) 0 ++ data ++
    content.drop (offset + data.length)

/-- How many processes there may be. -/
def processLimit : Nat := 128615

/-- Where writing begins. -/
def writeOffset (file : OpenFile) (content : Bytes) : Nat :=
  if file.append then content.length else file.offset

/-- The limits at first. -/
def standardLimit : Resource → Limit
  | .stack => { soft := some (8192 * 1024) }
  | .core => { soft := some 0 }
  | .lockedMemory => { soft := some (8192 * 1024), hard := some (8192 * 1024) }
  | .processes => { soft := some processLimit, hard := some processLimit }
  | .files => { soft := some 20000, hard := some 20000 }
  | .priority => { soft := some 0, hard := some 0 }
  | _ => {}

/-- A limit of a process. -/
def limitOf (r : Resource) : Limit := (p.limits.lookup r).getD (standardLimit r)

/-- The part of data that a limit lets through. -/
def room? (offset : Nat) (data : Bytes) : Option Bytes :=
  match (limitOf p .fileSize).soft with
  | none => some data
  | some most => if data.isEmpty || offset < most then some (data.take (most - offset)) else none

/-- Writes to a pipe, if there is room. -/
def writeToPipe (pipe : Nat) (data : Bytes) : Option (Except OsError Nat × Machine) :=
  if !m.hasReader pipe then some (.error .brokenPipe, m.signal p Signal.pipe)
  else
    let pile := m.pipeAt pipe
    let room := Pipe.capacity - pile.size
    if data.isEmpty then some (.ok 0, m)
    else if room = 0 then none
    else
      let part := data.take room
      some (.ok part.length, m.setPipe pipe (pile.push part))

/-- **Writes** to an open file. -/
def writeTo (id : Nat) (file : OpenFile) (data : Bytes) : Option (Except OsError Nat × Machine) :=
  if !file.writable then some (.error .badDescriptor, m)
  else match file.target with
  | .file place =>
    match m.tree.get? place with
    | some (.file content mode) =>
      let offset := writeOffset file content
      match room? p offset data with
      | none => some (.error .fileTooLarge, m.signal p 25)
      | some data =>
        let t := m.tree.put place (.file (overwrite content offset data) mode)
        some (.ok data.length,
          { m with tree := t }.setFile id { file with offset := offset + data.length })
    | _ => some (.ok data.length, m)
  | .loose content =>
    let offset := writeOffset file content
    some (.ok data.length, m.setFile id
      { file with
        target := .loose (overwrite content offset data), offset := offset + data.length })
  | .dir => some (.error .badDescriptor, m)
  | .device .full => some (.error .noSpace, m)
  | .device _ => some (.ok data.length, m)
  | .text _ => some (.error .badDescriptor, m)
  | .screen => some (.ok data.length, { m with screen := data :: m.screen })
  | .errors => some (.ok data.length, { m with errors := data :: m.errors })
  | .outlet _ => some (.error .badDescriptor, m)
  | .inlet pipe | .duplex pipe => m.writeToPipe p pipe data

/-- What an open file stands on. -/
def footing (file : OpenFile) : Footing :=
  match file.target with
  | .file place =>
    match m.tree.get? place with
    | some (.file content mode) => .file (some place) file.offset content.length mode
    | _ => .file none file.offset 0 plainMode
  | .loose content => .file none file.offset content.length plainMode
  | .dir => .dir
  | .device _ => .device
  | .inlet pipe => .pipe (!m.hasReader pipe)
  | _ => .pipe false

/-- The kind of what a descriptor leads to. -/
def descriptorKind? (path : Path) : Option (Except OsError FileKind) :=
  (descriptorOf? path).map fun fd =>
    match m.fileOf p fd with
    | .error _ => .error .noEntry
    | .ok (_, file) => .ok <| match m.footing file with
      | .file _ _ size mode => .file mode size
      | .dir => .dir
      | .pipe _ => .fifo
      | .device => .device

/-- Moves in an open file. -/
def seekIn (id : Nat) (file : OpenFile) (delta : Int) : Except OsError (Nat × Machine) :=
  match m.footing file with
  | .pipe _ => .error .illegalSeek
  | .file .. =>
    let new := (file.offset : Int) + delta
    if new < 0 then .error .invalid
    else .ok (new.toNat, m.setFile id { file with offset := new.toNat })
  | _ => .ok (0, m)

/-- Gives an open file another size. -/
def resize (id : Nat) (file : OpenFile) (size : Nat) : Except OsError Machine :=
  let fit (content : Bytes) : Bytes :=
    content.take size ++ List.replicate (size - content.length) 0
  match file.target with
  | .file place =>
    match m.tree.get? place with
    | some (.file content mode) =>
      .ok { m with tree := m.tree.put place (.file (fit content) mode) }
    | _ => .ok m
  | .loose content => .ok (m.setFile id { file with target := .loose (fit content) })
  | _ => .error .invalid

/-! ## Files by path -/

/-- Where the table of processes is. -/
def tablePlace : Place := [utf8 "proc"]

/-- The name of a process in the table. -/
def commandName : Bytes :=
  let base := (Path.mk (p.argv.headD [])).fileName?.getD []
  base.take 15

/-- Its state there. -/
def stateLetter : String :=
  if p.hasEnded then "Z" else if p.stopped then "T" else "S"

/-- The rows of a process. -/
def tableEntries : List (Place × Entry) :=
  let dir := utf8 (toString p.pid)
  let stat := utf8 (toString p.pid ++ " (") ++ commandName p ++
    utf8 (") " ++ stateLetter p ++ " " ++ toString p.parent ++ " " ++ toString p.group ++ " 0\n")
  let cmdline := if p.hasEnded then [] else p.argv.flatMap fun a => a ++ [0]
  [([dir], .dir), ([dir, utf8 "stat"], .file stat 0o444),
    ([dir, utf8 "cmdline"], .file cmdline 0o444)]

/-- Brings the table up to date. -/
def writeTable : Machine :=
  let t := (m.tree.erase tablePlace).put tablePlace .dir
  { m with tree := t.graft tablePlace (m.processes.flatMap tableEntries) }

/-- The path that an operation looks at, if the table of processes may answer it. -/
def watchedPath? : FileCall → Option Path
  | .read p | .kind p | .linkKind p | .list p => some p
  | _ => none

/-- Whether a call looks at the table. -/
def looksAtTable (c : FileCall) : Bool :=
  match watchedPath? c with
  | some p => (utf8 "/proc").isPrefixOf p.text
  | none => false

/-- The open file after the tree has changed: files that are gone are kept by those who have them
open, and a file that was moved is followed. -/
def rebind (before after : FileTree) (moved : Option (Place × Place)) (file : OpenFile) :
    OpenFile :=
  match file.target with
  | .file place =>
    let loosened := match before.get? place with
      | some (.file content _) => { file with target := .loose content }
      | _ => { file with target := .loose [] }
    match moved with
    | some (source, target) =>
      if place = source then { file with target := .file target }
      else if place = target then loosened
      else file
    | none => if (after.get? place).isSome then file else loosened
  | _ => file

/-- From where to where a file is moved. -/
def movedPlaces? : FileCall → Option (Place × Place)
  | .rename p q =>
    match m.tree.locate cwd p .ignore, m.tree.locate cwd q .ignore with
    | .ok source, .ok target => some (source.place, target.place)
    | _, _ => none
  | _ => none

/-- Whether something may be gone after it. -/
def takesAway : FileCall → Bool
  | .unlink _ | .removeTree _ | .rename .. => true
  | _ => false

/-- **Answers a call about files.** -/
def onFiles (c : FileCall) : c.Reply × Machine :=
  let m := if looksAtTable c then m.writeTable else m
  let r := m.tree.serve cwd c
  let opened :=
    if takesAway c && r.2 != m.tree then
      m.opened.map fun e => (e.1, rebind m.tree r.2 (m.movedPlaces? cwd c) e.2)
    else m.opened
  (r.1, { m with tree := r.2, opened })

/-! ## Becoming a program -/

/-- The mark at the start of a program that the machine comes with; its name follows. -/
def mark : Bytes := 0x7F :: utf8 "ELF"

/-- How much of a script is looked at. -/
def headSize : Nat := 256

/-- The words of the first line of a script: the interpreter and perhaps one argument.  Only the
first bytes of the file are looked at, as if zeros came after its end; the name has to end there,
and the argument is cut. -/
def interpreter? (content : Bytes) : Option (Bytes × Option Bytes) :=
  if !(utf8 "#!").isPrefixOf content then none
  else
    let isGap (b : UInt8) : Bool := b == 0x20 || b == 0x09
    let isEnd (b : UInt8) : Bool := isGap b || b == 0
    let head := content.take headSize
    let head := (head ++ List.replicate (headSize - head.length) 0).drop 2
    let line :=
      if head.contains 0x0A then head.takeWhile (· != 0x0A)
      else if (head.dropWhile isGap).any isEnd then head.dropLast
      else []
    let words := trimWhere isGap line
    let name := words.takeWhile (!isEnd ·)
    if words.isEmpty then none
    else match words.drop name.length with
      | [] | 0 :: _ => some (name, none)
      | rest => some (name, some ((rest.dropWhile isGap).takeWhile (· != 0)))

/-- A program that was found: its name and what it is told. -/
structure Image where
  name : Bytes
  boot : Boot

/-- What becomes of executing the file at `path`; scripts lead to their interpreters, at most
`depth` of them. -/
def image (t : FileTree) (cwd : Place) :
    Nat → Path → List Bytes → Environment → Except OsError Image
  | 0, _, _, _ => .error .tooManyLinks
  | depth + 1, path, argv, env =>
    match t.find cwd path with
    | .error e => .error e
    | .ok (_, .file content mode) =>
      match interpreter? content with
      | some (name, arg) =>
        if !isExecutable mode || name.isEmpty then .error .denied
        else image t cwd depth ⟨name⟩ (name :: arg.toList ++ path.text :: argv.tail) env
      | none =>
        if !isExecutable mode then .error .denied
        else if mark.isPrefixOf content then .ok ⟨content.drop mark.length, ⟨argv, env⟩⟩
        else .error .notProgram
    | .ok _ => .error .denied

/-- The files that a program may lead through: a script and five interpreters. -/
def maxImages : Nat := 6

/-- The same; `lenient` takes other files for scripts. -/
def imageAt (t : FileTree) (cwd : Place) (lenient : Bool) (path : Path) (argv : List Bytes)
    (env : Environment) : Except OsError Image :=
  match image t cwd maxImages path argv env with
  | .ok i => .ok i
  | .error e =>
    if lenient && e = .notProgram then
      let shell := Path.ofString "/bin/sh"
      image t cwd maxImages shell (shell.text :: path.text :: argv.tail) env
    else .error e

/-- The first of the files that can be executed; `error` is what the search has come to. -/
def firstImage (t : FileTree) (cwd : Place) (lenient : Bool) (argv : List Bytes)
    (env : Environment) : OsError → List Path → Except OsError Image
  | error, [] => .error error
  | error, path :: rest =>
    match imageAt t cwd lenient path argv env with
    | .ok i => .ok i
    | .error e =>
      if e = .denied then firstImage t cwd lenient argv env e rest
      else if e = .noEntry || e = .notDirectory then
        firstImage t cwd lenient argv env (if error = .denied then error else e) rest
      else .error e

/-- What becomes of a name or a path. -/
def lookUp (t : FileTree) (cwd : Place) (lenient : Bool) (program : Path) (argv : List Bytes)
    (env : Environment) : Except OsError Image :=
  if program.text.isEmpty then .error .noEntry
  else if program.text.contains Path.slash then imageAt t cwd lenient program argv env
  else firstImage t cwd lenient argv env .noEntry (Environment.candidates env program.text)

/-- What starting a program takes, in microseconds. -/
def execCost : Nat := 500

variable (loader : Loader)

/-- The program of an image. -/
def load (i : Image) : Except OsError (Program Nat) :=
  match loader i.name i.boot with
  | some p => .ok (.call (.spend execCost) fun _ => .call (.sleep ⟨execCost * 1000⟩) fun _ => p)
  | none => .error .notProgram

/-! ## Starting a process -/

/-- The process with another limit. -/
def withLimit (r : Resource) (l : Limit) : Except OsError Process :=
  if !Limit.le l.soft l.hard then .error .invalid
  else if !Limit.le l.hard (limitOf p r).hard then .error .notPermitted
  else .ok { p with limits := (r, l) :: p.limits.filter (·.1 != r) }

/-- The open file for one stream of a new process, and the starter's end of it. -/
def wire (fd : Descriptor) (reads : Bool) : Wiring → Option Nat × Option Nat × Machine
  | .inherit => (p.fileAt? fd, none, m)
  | .given own => (p.fileAt? own, none, m)
  | .null =>
    let r := m.newFile { target := .device .null }
    (some r.1, none, r.2)
  | .pipe =>
    let r := m.newPipe
    if reads then (some r.1.1, some r.1.2, r.2) else (some r.1.2, some r.1.1, r.2)

/-- Gives the starter its end. -/
def hold : Option Nat → Process × Option Descriptor
  | none => (p, none)
  | some id =>
    let fd := p.free 3
    (p.bind fd id, some fd)

/-- The descriptors that a start uses up. -/
def givenAway (l : Launch) : List Descriptor :=
  [l.stdin, l.stdout, l.stderr].filterMap fun w => match w with
    | .given fd => some fd
    | _ => none

def closeAll (pid : Pid) (fds : List Descriptor) : Machine :=
  if fds.isEmpty then m
  else sweep (m.modify pid fun p => fds.foldl Process.drop p)

/-- The texts of a launch. -/
def launchTexts (l : Launch) : List Bytes :=
  l.program.text :: l.dir.text :: l.argv ++ l.env.flatMap fun e => [e.1, e.2]

/-- What a launch starts, and where. -/
def launchImage (m : Machine) (p : Process) (l : Launch) :
    Except OsError (Image × Program Nat × Place) := do
  if (launchTexts l).any (·.contains 0) then throw .nulInData
  let (place, e) ← m.tree.find p.cwd l.dir
  unless e.isDir do throw .notDirectory
  if (l.maxProcesses.map (decide <| processLimit < ·)).getD false then throw .notPermitted
  let i ← lookUp m.tree place l.lenient l.program l.argv l.env
  let program ← load loader i
  return (i, program, place)

/-- **Starts a process.** -/
def start (m : Machine) (p : Process) (l : Launch) : Except OsError Started × Machine :=
  match launchImage loader m p l with
  | .error e => (.error e, m.closeAll p.pid (givenAway l))
  | .ok (i, program, place) =>
    let (in0, out0, m) := m.wire p 0 true l.stdin
    let (in1, out1, m) := m.wire p 1 false l.stdout
    let (in2, out2, m) := m.wire p 2 false l.stderr
    let files := [(0, in0), (1, in1), (2, in2)].filterMap fun e => e.2.map fun id => (e.1, id)
    let pid := m.fresh
    let child : Process :=
      { pid, parent := p.pid, group := if l.ownGroup then pid else p.group
        argv := i.boot.argv, cwd := place, files, stage := .running program
        mask := p.mask
        limits := match l.maxProcesses with
          | some n => (.processes, { soft := some n, hard := some n }) :: p.limits
          | none => p.limits }
    let (p, fd0) := hold p out0
    let (p, fd1) := hold p out1
    let (p, fd2) := hold p out2
    let m := { m with fresh := m.fresh + 1, processes := m.processes ++ [child] }
    let m := m.modify p.pid fun _ => p
    (.ok ⟨pid, fd0, fd1, fd2⟩, m.closeAll p.pid (givenAway l))

/-! ## Answering a call -/

/-- How a child has ended, if it has. -/
def pollChild (pid : Pid) : Except OsError (Option (WaitStatus × Machine)) :=
  match m.processes.find? fun q => q.pid == pid && q.parent == p.pid with
  | none => .error .noChild
  | some q =>
    match q.stage with
    | .ended status => .ok (some (status, m.reap p.pid q))
    | _ => .ok none

/-- Looks for one of several children that has ended, the first if there is more than one. -/
def pollChildren (pids : List Pid) : Except OsError (Option ((Pid × WaitStatus) × Machine)) :=
  let children := m.processes.filter fun q => pids.contains q.pid && q.parent == p.pid
  let ended (pid : Pid) : Option ((Pid × WaitStatus) × Machine) :=
    match m.pollChild p pid with
    | .ok (some (status, m)) => some ((pid, status), m)
    | _ => none
  if children.isEmpty then .error .noChild
  else if children.any (·.hasEnded) then .ok (pids.findSome? ended)
  else .ok none

/-- How long it takes until the end of a process is known, in nanoseconds. -/
def newsDelay : Nat := 100000

/-- Looks for those of several children that ended long enough ago. -/
def hearOf (pids : List Pid) : List (Pid × WaitStatus) × Machine :=
  let known := m.processes.filter fun q =>
    q.hasEnded && pids.contains q.pid && decide (q.endedAt + newsDelay ≤ m.clock)
  known.foldl (fun (found, m) q =>
    match m.pollChild p q.pid with
    | .ok (some (status, m)) => (found ++ [(q.pid, status)], m)
    | _ => (found, m)) ([], m)

/-- How long a path of a socket may be. -/
def maxSocketPath : Nat := 107

/-- Who listens at a path.  A path that starts with a NUL byte is a name outside of the tree, where
nobody listens. -/
def dial (path : Path) : Except IoError (List PeerStep) :=
  match path.text with
  | [] => .error (.os .invalid)
  | 0 :: name =>
    if maxSocketPath < name.length then
      .error (.described "abstract socket name must be shorter than SUN_LEN")
    else .error (.os .refused)
  | text =>
    if text.contains 0 then .error (.described "paths must not contain interior null bytes")
    else if maxSocketPath < text.length then
      .error (.described "path must be shorter than SUN_LEN")
    else match m.tree.find cwd path with
      | .error e => .error (.os e)
      | .ok (place, .socket) =>
        match m.peers.lookup place with
        | some steps => .ok steps
        | none => .error (.os .refused)
      | .ok _ => .error (.os .refused)

def makeFifo (path : Path) : Except OsError Unit × Machine :=
  m.answer do
    return ((), { m with tree := ← m.tree.create cwd path (.fifo m.fresh), fresh := m.fresh + 1 })

/-- **Answers a call** of the process `p`; `none` when it has to wait. -/
def serve (m : Machine) (p : Process) : (c : Call) → Option (c.Reply × Machine)
  | .file (.kind path) => some (match m.descriptorKind? p path with
    | some kind => (kind, m)
    | none => m.onFiles p.cwd (.kind path))
  | .file c => some (m.onFiles p.cwd c)
  | .openFile path mode => some <| m.answer do
      let (id, m) ← m.openFor p path mode
      let fd := p.free 0
      return (fd, m.modify p.pid fun p => p.bind fd id)
  | .close fd => some ((), m.closeAll p.pid [fd])
  | .look fd => some <| m.answer do return (m.footing (← m.fileOf p fd).2, m)
  | .seek fd delta => some <| m.answer do
      let (id, file) ← m.fileOf p fd
      m.seekIn id file delta
  | .resize fd size => some <| m.answer do
      let (id, file) ← m.fileOf p fd
      return ((), ← m.resize id file size)
  | .duplicate fd target => some <| m.answer do
      let (id, _) ← m.fileOf p fd
      return ((), sweep (m.modify p.pid fun p => p.bind target id))
  | .duplicateFrom fd least => some <| m.answer do
      let (id, _) ← m.fileOf p fd
      let new := p.free least
      return (new, m.modify p.pid fun p => { p.bind new id with passing := new :: p.passing })
  | .pipe =>
    let r := m.newPipe
    let outlet := p.free 0
    let p' := p.bind outlet r.1.1
    let inlet := p'.free 0
    some ((outlet, inlet), r.2.modify p.pid fun _ => p'.bind inlet r.1.2)
  | .makeFifo path => some (m.makeFifo p.cwd path)
  | .meet pipe writing seen =>
    let pile := m.pipeAt pipe
    let met :=
      if writing then m.hasReader pipe || decide (seen < pile.readers)
      else m.hasWriter pipe || decide (seen < pile.writers)
    if met then some ((), m) else none
  | .read fd limit =>
    match m.inputAt p fd with
    | .error e => some (.error e, m)
    | .ok (_, _, none) => none
    | .ok (id, file, some data) =>
      let part := data.take limit
      some (.ok part, m.consume id file data part.length)
  | .drain .. | .readLine .. => none
  | .write fd data =>
    match m.fileOf p fd with
    | .error e => some (.error e, m)
    | .ok (id, file) => m.writeTo p id file data
  | .start l => some (m.start loader p l)
  | .fork => some (some 0, m)
  | .exec .. => some (.notPermitted, m)
  | .exit _ => none
  | .wait pid =>
    match m.pollChild p pid with
    | .error e => some (.error e, m)
    | .ok found => found.map fun (status, m) => (.ok status, m)
  | .waitAny pids alert =>
    match m.pollChildren p pids with
    | .error e => some (.error e, m)
    | .ok (some (ended, m)) => some (.ok ended, m)
    | .ok none => if alert && !p.pending.isEmpty then some (.error .interrupted, m) else none
  | .poll pid =>
    match m.pollChild p pid with
    | .ok (some (status, m)) => some (some status, m)
    | _ => some (none, m)
  | .news pids => some (m.hearOf p pids)
  | .kill pid s =>
    let found := m.addressed p pid
    if found.isEmpty then some (.error .noProcess, m)
    else some (.ok (), found.foldl (fun m q => m.signal q s) m)
  | .noticed => some (p.pending, m.modify p.pid fun p => { p with pending := [] })
  | .onSignal s what => some ((), m.modify p.pid fun p =>
      { p with
        ignored := if what = .ignore then s :: p.ignored else p.ignored.filter (· != s)
        watched := if what = .notice then s :: p.watched else p.watched.filter (· != s) })
  | .ignored => some (p.ignored, m)
  | .mask new =>
    some (p.mask, m.modify p.pid fun p => { p with mask := new.getD p.mask })
  | .limit r => some (limitOf p r, m)
  | .setLimit r l => some <| m.answer do
      let p ← withLimit p r l
      return ((), m.modify p.pid fun _ => p)
  | .ownPid => some (p.pid, m)
  | .parentPid => some (p.parent, m)
  | .leadGroup => some ((), m.modify p.pid fun p => { p with group := p.pid })
  | .sleep _ => none
  | .sleepUntil t => if t ≤ m.clock then some ((), m) else none
  | .clock => some (m.clock, m)
  | .spend micros =>
    some ((), { m with clock := m.clock + micros * 1000 }.modify p.pid fun p =>
      { p with time := p.time + micros })
  | .childTime => some (.ok p.childTime, m)
  | .adopt => some (.ok (), m.modify p.pid fun p => { p with adopts := true })
  | .chdir path => some <| m.answer do
      let (place, e) ← m.tree.find p.cwd path
      unless e.isDir do throw .notDirectory
      return ((), m.modify p.pid fun p => { p with cwd := place })
  | .cwd => some (p.cwd, m)
  | .dial path => some (m.dial p.cwd path, m)
  | .hangUp said => some ((), { m with said := said :: m.said })

/-! ## Moving on -/

/-- What comes of trying to go on with a program. -/
inductive Move (α : Type) where
  | go (p : Program α) (m : Machine)
  | blocked

/-- The length of a line, and whether it ends. -/
def lineLength (data : Bytes) : Nat × Bool :=
  match data.findIdx? (· == 0x0A) with
  | some n => (n + 1, true)
  | none => (data.length, false)

/-- **One call** of a program. -/
def move {α : Type} (loader : Loader) (m : Machine) (p : Process) : Program α → Move α
  | .done a => .go (.done a) m
  | .call (.sleep span) next =>
    .go (.call (.sleepUntil (m.clock + span.nanos)) fun u => next u) m
  | .call (.drain fd done) next =>
    match m.inputAt p fd with
    | .error e => .go (next (.error e)) m
    | .ok (_, _, none) => .blocked
    | .ok (id, file, some data) =>
      if data.isEmpty then .go (next (.ok done)) m
      else .go (.call (.drain fd (done ++ data)) fun r => next r)
        (m.consume id file data data.length)
  | .call (.readLine fd done) next =>
    match m.inputAt p fd with
    | .error e => .go (next (.error e)) m
    | .ok (_, _, none) => .blocked
    | .ok (id, file, some data) =>
      if data.isEmpty then .go (next (.ok done)) m
      else
        let (n, ends) := lineLength data
        let done := done ++ data.take n
        let m := m.consume id file data n
        if ends then .go (next (.ok done)) m
        else .go (.call (.readLine fd done) fun r => next r) m
  | .call (.openFile path mode) next =>
    match serve loader m p (.openFile path mode) with
    | none => .blocked
    | some (r, after) =>
      match m.meeting? p.cwd path mode with
      | some (.meet pipe writing seen) =>
        .go (.call (.meet pipe writing seen) fun _ => next r) after
      | _ => .go (next r) after
  | .call c next =>
    match serve loader m p c with
    | some (r, m) => .go (next r) m
    | none => .blocked

/-- A process goes on with a program. -/
def goOn (pid : Pid) (program : Program Nat) : Machine :=
  m.modify pid fun p => match p.stage with
    | .running _ => { p with stage := .running program }
    | _ => p

/-- **One step of a process.** -/
def step (m : Machine) (p : Process) : Option Machine :=
  if p.stopped && !p.hasEnded then none
  else match p.stage with
  | .running (.done code) | .running (.call (.exit code) _) =>
    some (m.finish p.pid (.exited (code % 256)))
  | .running (.call .fork next) =>
    let pid := m.fresh
    let child : Process :=
      { p with pid, parent := p.pid, stage := .running (next none), pending := [],
               held := [], time := 0, childTime := 0 }
    let m := { m with fresh := m.fresh + 1, processes := m.processes ++ [child] }
    some (m.goOn p.pid (next (some pid)))
  | .running (.call (.exec path argv env) next) =>
    match imageAt m.tree p.cwd true path argv env with
    | .error e => some (m.goOn p.pid (next e))
    | .ok i =>
      match load loader i with
      | .error e => some (m.goOn p.pid (next e))
      | .ok program => some (sweep (m.modify p.pid fun p =>
          { p.shed with argv := i.boot.argv, stage := .running program, watched := [] }))
  | .running program =>
    match move loader m p program with
    | .go program m => some (m.goOn p.pid program)
    | .blocked => none
  | _ => none

/-- At most so many steps of a process. -/
def turn (loader : Loader) (pid : Pid) : Nat → Bool → Machine → Machine × Bool
  | 0, moved, m => (m, moved)
  | n + 1, moved, m =>
    match (m.process? pid).bind (step loader m) with
    | some m => turn loader pid n true m
    | none => (m, moved)

/-- The steps of a turn. -/
def quantum : Nat := 64

/-- A turn for everybody. -/
def round (m : Machine) : Machine × Bool :=
  (m.processes.map (·.pid)).foldl
    (fun acc pid =>
      let r := turn loader pid quantum false acc.1
      (r.1, acc.2 || r.2))
    (m, false)

/-- At most `n` rounds, up to the point where nobody can go on, and whether there was a step. -/
def rounds (loader : Loader) : Nat → Bool → Machine → Machine × Bool
  | 0, moved, m => (m, moved)
  | n + 1, moved, m =>
    let r := round loader m
    if r.2 then rounds loader n true r.1 else (r.1, moved)

/-- The rounds at a time. -/
def patience : Nat := 256

/-- When a sleep ends. -/
def deadline? {α : Type} : Program α → Option Nat
  | .call (.sleepUntil t) _ => some t
  | _ => none

/-- When the others wake up. -/
def deadlines : List Nat :=
  m.processes.filterMap fun p => match p.stage with
    | .running program => if p.stopped then none else deadline? program
    | _ => none

/-- Time passes up to the first deadline. -/
def advance (deadline : Option Nat) : Option Machine :=
  match (deadline.toList ++ m.deadlines).min? with
  | some t => some { m with clock := max m.clock t }
  | none => none

/-- Whether a program is about to look at the table of processes, for which the others go on
first. -/
def looksAround {α : Type} : Program α → Bool
  | .call (.file c) _ => looksAtTable c
  | _ => false

/-- Runs the program of the process `pid` in at most `fuel` steps; when it has to wait, the others
go on, and when nobody can, time does. -/
def driveFrom {α : Type} (loader : Loader) (pid : Pid) :
    Nat → Program α → Machine → Option α × Machine
  | 0, _, m => (none, m)
  | _ + 1, .done a, m => (some a, m)
  | fuel + 1, program, m =>
    let m := if looksAround program then (rounds loader patience false m).1 else m
    match m.process? pid with
    | none => (none, m)
    | some p =>
      match move loader m p program with
      | .go program m => driveFrom loader pid fuel program m
      | .blocked =>
        let r := rounds loader patience false m
        if r.2 then driveFrom loader pid fuel program r.1
        else match r.1.advance (deadline? program) with
          | some m => driveFrom loader pid fuel program m
          | none => (none, r.1)

/-- Steps without end, in practice. -/
def driveFuel : Nat := 10 ^ 12

/-- A process for a program from outside. -/
def enter (argv : List Bytes) (stdin : Bytes) : Pid × Machine :=
  let pid := m.fresh
  let m := { m with fresh := m.fresh + 1 }
  let (id0, m) := m.newFile { target := if stdin.isEmpty then .device .null else .text stdin }
  let (id1, m) := m.newFile { target := .screen }
  let (id2, m) := m.newFile { target := .errors }
  let p : Process :=
    { pid, parent := 1, group := pid, argv, cwd
      files := [(0, id0), (1, id1), (2, id2)], stage := .main }
  (pid, { m with processes := m.processes ++ [p] })

/-- **Runs a program** on the machine, from the directory `cwd`, to its end. -/
def drive {α : Type} (loader : Loader) (m : Machine) (cwd : Place) (argv : List Bytes)
    (stdin : Bytes) (program : Program α) : Option α × Machine :=
  let r := m.enter cwd argv stdin
  let done := driveFrom loader r.1 driveFuel program r.2
  (done.1, sweep { done.2 with processes := done.2.processes.filter (·.pid != r.1) })

end Machine

end Judge
