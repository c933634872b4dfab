import Judge.Conversation.Connection

/-!
# Conversation/Schedule — many connections at once

The connections of a script take their steps in any order that their latches allow;
`Conversation.step?` is one step of one of them, and a conversation ends when the first of them
fails or all are finished.  `Conversation.run` is the order in which a single thread takes the
steps: the connection whose clock is behind goes first, and among equals the one that has waited
longest.
-/

namespace Judge

/-- One line of the log: the connection and what it says. -/
structure LogLine where
  name : String
  message : String
deriving DecidableEq, Repr

namespace LogLine

/-- A line as it stands in the log. -/
def text (l : LogLine) : String := l.name ++ ": " ++ l.message ++ "\n"

end LogLine

/-- Several connections under way. -/
structure Conversation (σ : Type) where
  tasks : List (Task σ)
  latches : List Latch
  /-- What was said so far, the last line first. -/
  log : List LogLine := []

namespace Conversation

variable {σ : Type}

/-- A conversation before its first step. -/
def start (script : Script) (channel : ConnectionScript → σ) : Conversation σ :=
  { tasks := script.connections.map fun c => Task.start c (channel c), latches := script.latches }

variable (v : Conversation σ)

/-- The conversation after the task at `index` changed. -/
def update (index : Nat) (name : String) (a : Task.Advance σ) : Conversation σ :=
  { tasks := v.tasks.set index a.task
    latches := a.latches
    log := a.log.foldl (fun log message => ⟨name, message⟩ :: log) v.log }

variable (ch : Channel σ)

/-- **One step of the task at `index`**, if it can take one. -/
def step? (v : Conversation σ) (index : Nat) : Option (Conversation σ) :=
  match v.tasks[index]? with
  | none => none
  | some t => (t.advance ch v.latches).map (v.update index t.name)

/-- The first failure. -/
def failure? (v : Conversation σ) : Option InteractError := v.tasks.findSome? Task.failure?

/-! ## The order of a single thread -/

/-- Whether a task lets others go first after it came to this point. -/
def yields (t : Task σ) : Bool :=
  match t.phase with
  | .opened _ | .blocked _ | .concluding (.recv _) _ | .concluding .done _
  | .concluding (.sleep _) _ => true
  | _ => false

/-- The task to go next and its clock: of those that can take a step, the one whose clock is behind;
`order` gives the positions of the tasks, the one that has waited longest first. -/
def choose (v : Conversation σ) (order : List Nat) : Option (Nat × Nat) :=
  let ready := order.filterMap fun index =>
    match v.tasks[index]? with
    | none => none
    | some t => if t.ready v.latches then some (index, ch.clock t.channel) else none
  ready.foldl
    (fun (best : Option (Nat × Nat)) entry =>
      match best with
      | none => some entry
      | some b => if entry.2 < b.2 then some entry else some b)
    none

/-- The conversation with the clock of the task at `index` not behind `now`. -/
def catchUp (v : Conversation σ) (now index : Nat) : Conversation σ :=
  { v with tasks := v.tasks.modify index fun t =>
      { t with channel := ch.waitUntil now t.channel } }

/-- The order after the task at `index` has taken a step. -/
def reorder (order : List Nat) (index : Nat) : List Nat :=
  let others := order.filter (· != index)
  match v.tasks[index]? with
  | some t => if yields t then others ++ [index] else index :: others
  | none => others

/-- Takes at most `fuel` steps. -/
def runFrom (ch : Channel σ) : Nat → Nat → List Nat → Conversation σ →
    Except InteractError Unit × Conversation σ
  | 0, _, _, v => (.error (.crash "conversation does not end"), v)
  | fuel + 1, now, order, v =>
    match choose ch v order with
    | none =>
      if v.tasks.all Task.isFinished then (.ok (), v)
      else (.error (.crash "conversation is stuck"), v)
    | some (index, clock) =>
      let now := max now clock
      let v := catchUp ch v now index
      match v.step? ch index with
      | none => (.error (.crash "conversation is stuck"), v)
      | some v =>
        match v.failure? with
        | some e => (.error e, v)
        | none => runFrom ch fuel now (reorder v order index) v

/-- A bound on the steps that a conversation takes: no command takes more than eight. -/
def stepBound : Nat :=
  8 * (v.tasks.map fun t => t.queue.length + 1).sum + 8

/-- **Runs a conversation** to its end. -/
def run (v : Conversation σ) : Except InteractError Unit × Conversation σ :=
  runFrom ch v.stepBound 0 (List.range v.tasks.length) v

/-- The log, in order. -/
def lines : List LogLine := v.log.reverse

/-- The log as it is written to its file. -/
def logText : Bytes := v.lines.flatMap fun l => utf8 l.text

end Conversation

end Judge
