import Judge.Conversation.Script
import Judge.Error

/-!
# Conversation/Connection — one side of a conversation

A `Channel` is what a connection can do to its socket; behind it stands a peer that may do anything.
A `Task` is a connection under way.  `Task.advance` takes one step of it:

    idle ──▸ opening ──▸ opened ──▸ operating ──▸ concluding ──▸ idle … finished
                 └──────────────────────────────────────┴──▸ failed

A command is announced when it begins; the first one that needs the socket opens it; the operation
runs; and only then its outcome is judged.  A task that arrives at a latch, or waits for it, is
blocked until the latch is released.
-/

namespace Judge

/-! ## How a conversation can fail -/

/-- How a conversation can fail. -/
inductive InteractError where
  /-- The peer said something that the script does not expect. -/
  | wrongAnswer (message : String)
  | presentation (message : String)
  /-- The script is wrong, or the conversation contradicts itself. -/
  | crash (message : String)
deriving DecidableEq, Repr

namespace InteractError

/-- What is told of a failure. -/
def text : InteractError → String
  | .wrongAnswer message | .presentation message | .crash message => message

/-- What an interactor ends with. -/
def exitCode : InteractError → Nat
  | .wrongAnswer _ => 1
  | .presentation _ => 2
  | .crash _ => 6

end InteractError

/-! ## Channels -/

/-- **What a connection can do to its socket.**  Every operation has an outcome and leads to a new
state; a read of no bytes at all is the end of what the peer says. -/
structure Channel (σ : Type) where
  connect : Transport → σ → Except IoError Unit × σ
  write : Bytes → σ → Except IoError Unit × σ
  read : Nat → σ → Except IoError Bytes × σ
  stopWrite : σ → Except IoError Unit × σ
  stopRead : σ → Except IoError Unit × σ
  pause : Span → σ → σ
  /-- The time at which the last operation ended. -/
  clock : σ → Nat
  waitUntil : Nat → σ → σ

/-- Reads until `n` bytes have come, or nothing more comes. -/
def Channel.readAll {σ : Type} (ch : Channel σ) : Nat → Bytes → Nat → σ → Except IoError Bytes × σ
  | 0, acc, _, s | _ + 1, acc, 0, s => (.ok acc, s)
  | fuel + 1, acc, n + 1, s =>
    match ch.read (n + 1) s with
    | (.error e, s) => (.error e, s)
    | (.ok [], s) => (.ok acc, s)
    | (.ok (b :: bs), s) =>
      ch.readAll fuel (acc ++ (b :: bs).take (n + 1)) (n + 1 - (b :: bs).length) s

/-! ## Tasks -/

/-- Where a task stands. -/
inductive Phase where
  | idle
  | opening (command : Command)
  | opened (command : Command)
  | operating (command : Command)
  /-- After the operation, with the bytes it read. -/
  | concluding (command : Command) (outcome : Except IoError Bytes)
  | blocked (latch : Nat)
  | finished
  | failed (error : InteractError)

/-- A connection under way. -/
structure Task (σ : Type) where
  name : String
  transport : Transport
  queue : List Command
  phase : Phase := .idle
  opened : Bool := false
  writerClosed : Bool := false
  readerClosed : Bool := false
  channel : σ

namespace Task

variable {σ : Type}

/-- A connection before its first command. -/
def start (script : ConnectionScript) (channel : σ) : Task σ :=
  { name := script.name, transport := script.transport, queue := script.commands,
    channel }

variable (t : Task σ)

/-- A message under the name of the connection. -/
def describe (message : String) : String := t.name ++ ": " ++ message

/-- The failure behind a failed operation. -/
def transportError (e : IoError) : InteractError :=
  .presentation (t.describe e.text)

/-- Whether a command needs an open socket. -/
def usesSocket : Command → Bool
  | .connect => true
  | .send _ => !t.writerClosed
  | .recv _ => !t.readerClosed
  | .stopWrite => !t.writerClosed
  | .stopRead => !t.readerClosed
  | .done => !t.writerClosed || !t.readerClosed
  | _ => false

/-- The bytes read to find out whether the peer has said everything. -/
def tailProbe : Nat := 10

variable (ch : Channel σ)

/-- Closes the writing side, unless it is closed. -/
def closeWriter (t : Task σ) : Except IoError Unit × Task σ :=
  if t.writerClosed then (.ok (), t)
  else match ch.stopWrite t.channel with
    | (.ok (), s) => (.ok (), { t with channel := s, writerClosed := true })
    | (.error e, s) => (.error e, { t with channel := s })

/-- Closes the reading side, unless it is closed. -/
def closeReader (t : Task σ) : Except IoError Unit × Task σ :=
  if t.readerClosed then (.ok (), t)
  else match ch.stopRead t.channel with
    | (.ok (), s) => (.ok (), { t with channel := s, readerClosed := true })
    | (.error e, s) => (.error e, { t with channel := s })

/-- **Carries out a command** on the channel. -/
def operate (t : Task σ) : Command → Except IoError Bytes × Task σ
  | .sleep span => (.ok [], { t with channel := ch.pause span t.channel })
  | .send data =>
    if t.writerClosed || data.isEmpty then (.ok [], t)
    else match ch.write data t.channel with
      | (.ok (), s) => (.ok [], { t with channel := s })
      | (.error e, s) => (.error e, { t with channel := s })
  | .recv expected =>
    if t.readerClosed then (.ok [], t)
    else
      let r := ch.readAll expected.length [] expected.length t.channel
      (r.1, { t with channel := r.2 })
  | .stopWrite => let r := closeWriter ch t; (r.1.map fun _ => [], r.2)
  | .stopRead => let r := closeReader ch t; (r.1.map fun _ => [], r.2)
  | .done =>
    match closeWriter ch t with
    | (.error e, t) => (.error e, t)
    | (.ok (), t) =>
      if t.readerClosed then (.ok [], t)
      else
        let r := ch.read tailProbe t.channel
        (r.1, { t with channel := r.2 })
  | _ => (.ok [], t)

/-- What the outcome of an operation means: the lines for the log, and whether the task fails. -/
def judge : Command → Except IoError Bytes → List String × Option InteractError
  | .send _, .ok _ =>
    if t.writerClosed then
      let message := "Cannot send(), writer is closed"
      ([message], some (.wrongAnswer (t.describe message)))
    else ([], none)
  | .recv expected, .ok received =>
    if t.readerClosed then
      let message := "Cannot recv(), reader is closed"
      ([message], some (.wrongAnswer (t.describe message)))
    else
      let line := "received: " ++ shownBytes received
      if received.length < expected.length then
        ([line], some (.presentation (t.describe ("Unexpected EOF (expected " ++
          toString expected.length ++ " bytes, got " ++ toString received.length ++ ")"))))
      else if received ≠ expected then
        ([line], some (.wrongAnswer (t.describe ("Incorrect data (expected " ++
          shownBytes expected ++ ", received " ++ shownBytes received ++ ")"))))
      else ([line], none)
  | .done, .ok tail =>
    if t.readerClosed then ([], none)
    else
      let line := "tail: " ++ shownBytes tail
      if tail.isEmpty then ([line], none)
      else ([line], some (.wrongAnswer (t.describe ("Garbage data (" ++ shownBytes tail ++
        ") where EOF was expected"))))
  | _, .error e => ([], some (t.transportError e))
  | _, .ok _ => ([], none)

/-- What one step of a task changes: the task, the latches, and the lines it adds to the log. -/
structure Advance (σ : Type) where
  task : Task σ
  latches : List Latch
  log : List String := []

/-- Takes up a command, which is announced. -/
def begin (latches : List Latch) (t : Task σ) (c : Command) : Advance σ :=
  let line := ["method: " ++ c.text]
  match c with
  | .wait latch => ⟨{ t with phase := .blocked latch }, latches, line⟩
  | .arrive latch =>
    match latches[latch]? with
    | none => ⟨{ t with phase := .blocked latch }, latches, line⟩
    | some l =>
      match l.arrive? with
      | none => ⟨{ t with phase := .failed (.crash l.unexpected) }, latches, line⟩
      | some l' => ⟨{ t with phase := .blocked latch }, latches.set latch l', line⟩
  | c =>
    let phase := if !t.opened && t.usesSocket c then .opening c else .operating c
    ⟨{ t with phase }, latches, line⟩

/-- The task once a command was judged. -/
def conclude (c : Command) (failure : Option InteractError) : Task σ :=
  match failure with
  | some e => { t with phase := .failed e }
  | none => { t with phase := if c = .done then .finished else .idle }

/-- **One step of a task**, if it can take one. -/
def advance (latches : List Latch) (t : Task σ) : Option (Advance σ) :=
  match t.phase with
  | .finished | .failed _ => none
  | .blocked latch =>
    match latches[latch]? with
    | some l => if l.released then some ⟨{ t with phase := .idle }, latches, []⟩ else none
    | none => none
  | .idle =>
    match t.queue with
    | [] => some ⟨{ t with phase := .finished }, latches, []⟩
    | c :: queue => some (begin latches { t with queue } c)
  | .opening c =>
    match ch.connect t.transport t.channel with
    | (.ok (), s) =>
      some ⟨{ t with channel := s, opened := true, phase := .opened c }, latches,
        ["starting connection"]⟩
    | (.error e, s) =>
      some ⟨{ t with channel := s, phase := .failed (t.transportError e) }, latches,
        ["starting connection"]⟩
  | .opened c => some ⟨{ t with phase := .operating c }, latches, ["started connection"]⟩
  | .operating c =>
    let r := operate ch t c
    some ⟨{ r.2 with phase := .concluding c r.1 }, latches, []⟩
  | .concluding c outcome =>
    let j := judge t c outcome
    some ⟨conclude t c j.2, latches, j.1⟩

/-- Whether a task can take a step. -/
def ready (latches : List Latch) (t : Task σ) : Bool :=
  match t.phase with
  | .finished | .failed _ => false
  | .blocked latch => ((latches[latch]?).map Latch.released).getD false
  | _ => true

theorem isSome_advance (latches : List Latch) (t : Task σ) :
    (t.advance ch latches).isSome = t.ready latches := by
  unfold advance ready
  cases hp : t.phase with
  | finished | failed e => rfl
  | blocked latch =>
    cases hl : latches[latch]? with
    | none => simp [hl]
    | some l => cases hr : l.released <;> simp [hl, hr]
  | idle => cases t.queue <;> rfl
  | opening c =>
    dsimp only
    split <;> rfl
  | opened c | operating c | concluding c outcome => rfl

/-- Whether all commands are over. -/
def isFinished : Bool :=
  match t.phase with
  | .finished => true
  | _ => false

/-- The failure of a task, if it has failed. -/
def failure? : Option InteractError :=
  match t.phase with
  | .failed e => some e
  | _ => none

end Task

end Judge
