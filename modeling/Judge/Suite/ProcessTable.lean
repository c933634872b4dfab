import Judge.Machine.Act
import Judge.Text.Cut
import Judge.Text.Quoted
import Judge.Number.Integer

/-!
# Suite/ProcessTable — who is whose child

The process table is a directory with one directory for each process, named by its number.  Its file
`stat` tells the state and the parent, after a name in parentheses that may hold any bytes; its file
`cmdline` holds the arguments, each ended by a zero byte.
-/

namespace Judge

/-- A row of the process table. -/
structure ProcessEntry where
  pid : Int
  parent : Int
  state : Char
  cmdline : List String
deriving DecidableEq, Repr

namespace ProcessEntry

/-- Whether the process has ended and was not waited for. -/
def isZombie (e : ProcessEntry) : Bool := e.state == 'Z'

/-- How a process is told of. -/
def text (e : ProcessEntry) : String :=
  "(" ++ toString e.pid ++ ", " ++ shownList e.cmdline ++ ")"

end ProcessEntry

namespace ProcessTable

/-- Where the system tells of processes. -/
def root : Path := .ofString "/proc"

/-- What stands after the last closing parenthesis and the byte that follows it. -/
def afterName? (stat : Bytes) : Option Bytes :=
  let tail := (stat.reverse.takeWhile (· != 0x29)).reverse
  if tail.length = stat.length || tail.isEmpty then none else some (tail.drop 1)

/-- What ends a field: a blank of ASCII. -/
def fieldBreak (c : Char) : Bool := isBlankByte (UInt8.ofNat c.toNat) && c.toNat < 128

/-- **State and parent** from the text of a `stat` file. -/
def parseStat? (stat : Bytes) : Option (Char × Int) := do
  let rest ← afterName? stat
  let text ← Utf8.decode? rest
  match runsWhere fieldBreak text with
  | (state :: _) :: parent :: _ =>
    match Integer.readSigned32 parent with
    | .ok parent => some (state, parent)
    | .error _ => none
  | _ => none

/-- The words of a command line, of which each ends in a zero. -/
def parseCmdline (raw : Bytes) : List String :=
  ((splitWhere (· == 0) raw).filter (!·.isEmpty)).map Utf8.text

/-- Where the system tells of one process. -/
def dirOf (root : Path) (pid : Int) : Path := root.child (toString pid)

/-- The arguments of a process, none when they cannot be read. -/
def readCmdline (dir : Path) : Program (List String) := do
  match ← Program.fetch (dir.child "cmdline") with
  | .ok raw => return parseCmdline raw
  | .error _ => return []

/-- Reads what is told of one process. -/
def readEntry (root : Path) (pid : Int) : Act ProcessEntry := do
  let dir := dirOf root pid
  let stat ← Act.ofSystem (Program.fetch (dir.child "stat"))
  match parseStat? stat with
  | none => throw (.internal ("malformed " ++ dir.display ++ "/stat"))
  | some (state, parent) =>
    let cmdline ← Act.ofProgram (readCmdline dir)
    return { pid := pid, parent := parent, state := state, cmdline := cmdline }

/-- The number that a name in the table stands for. -/
def pidOfName? (name : Bytes) : Option Int :=
  match Utf8.decode? name with
  | none => none
  | some cs => (Integer.readSigned32 cs).toOption

/-- The rows of the processes with the given numbers that are children of `parent`; those that
cannot be read are left out. -/
def childrenAmong (root : Path) (parent : Int) : List Int → Program (List ProcessEntry)
  | [] => return []
  | pid :: rest => do
    let entry ← (readEntry root pid).run
    let others ← childrenAmong root parent rest
    match entry with
    | .ok e => return if e.parent = parent then e :: others else others
    | .error _ => return others

/-- Processes in the order of their numbers. -/
def sortEntries (entries : List ProcessEntry) : List ProcessEntry :=
  entries.mergeSort fun e f => decide (e.pid ≤ f.pid)

/-- **The children of a process**, sorted by number. -/
def childrenOf (root : Path) (parent : Int) : Act (List ProcessEntry) := do
  let names ← Act.ofSystem (Program.onFiles (.list root))
  let found ← Act.ofProgram (childrenAmong root parent (names.filterMap pidOfName?))
  return sortEntries found

/-- The first living child of a process, for which the table is looked at up to `attempts` times. -/
def waitForChild (root : Path) (parent : Int) (delay : Span) : Nat → Act Int
  | 0 => throw (.internal ("No child process of " ++ toString parent ++ " found"))
  | attempts + 1 => do
    let children ← childrenOf root parent
    match children.find? (!·.isZombie) with
    | some child => return child.pid
    | none =>
      Act.ofProgram (Program.sleep delay)
      waitForChild root parent delay attempts

end ProcessTable

end Judge
