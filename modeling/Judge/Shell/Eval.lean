import Judge.Shell.Builtin
import Judge.Shell.Redirect

/-!
# Shell/Eval — carrying out commands

Commands are carried out: builtin ones and functions in the shell itself, programs and subshells in
processes of their own.  Everything takes fuel, which bounds how deep commands are nested and how
often a loop is taken.
-/

namespace Judge.Shell

/-! ## Simple commands -/

def commandCost : Nat := 1

/-- What is known of a simple command while its words are expanded. -/
structure Plan where
  stripped : List Text := []
  fields : List Text := []
  rest : List Word := []
  found : Found := .builtin
  /-- Whether the first builtin command is one whose errors end the shell. -/
  special : Option Bool := none
  functions : Bool := true
  path : Option Text := none

namespace Plan

def name (p : Plan) : Text := p.fields.headD []

def isFatal (p : Plan) : Bool := p.special == some true

def isPassing (p : Plan) : Bool := !p.fields.isEmpty && !p.isFatal

def isExec (p : Plan) : Bool :=
  p.name == "exec".toList && match p.found with
    | .builtin => true
    | _ => false

def words (p : Plan) : List Text := p.stripped.reverse ++ p.fields

end Plan

/-- The outcome of looking at the options of `command`. -/
inductive Stripping where
  | stays
  | takes (words : Nat)

def rethrow {α : Type} : Except Raise α → Sh α
  | .ok a => return a
  | .error e => throw e

def State.mayVanish (s : State) : Bool := s.traps.all fun e => e.2.isEmpty

/-- Goes on as a new process: traps are forgotten, and there are no jobs. -/
def enterChild : Sh Unit := do
  let s ← get
  s.traps.forM fun e =>
    if e.1 != 0 && !e.2.isEmpty then perform (.onSignal e.1 .default) else pure ()
  set { s with
    traps := s.traps.filter fun e => e.2.isEmpty, jobs := [], told := none, pending := [] }

/-- Goes on in the background; the first process of a job reads nothing. -/
def enterBackground (first : Bool) : Sh Unit := do
  perform (.onSignal Signal.int .ignore)
  perform (.onSignal 3 .ignore)
  modify fun s => { s with deaf := Signal.int :: 3 :: s.deaf }
  if first then
    perform (.close 0)
    let _ ← perform (.openFile (.ofString "/dev/null") .read)

def executeFirst (argv : List Bytes) (env : Environment) : OsError → List Text → Sh OsError
  | e, [] => return e
  | e, p :: rest => do
    let found : OsError ← perform (.exec ⟨toBytes p⟩ argv env)
    executeFirst argv env (if found = .noEntry || found = .notDirectory then e else found) rest

/-- **Becomes a program**; when that fails the shell ends. -/
def become (files : List Text) (argv : List Text) : Sh Unit := do
  let e ← executeFirst (argv.map toBytes) (← get).environment .noEntry files
  Builtin.tellMissing (argv.headD []) e
  setStatus (if [OsError.noEntry, .notDirectory, .tooManyLinks, .nameTooLong].contains e then 127
    else 126)
  throw .done

/-- Prints what a builtin command has put together, and tells whether that worked. -/
def flushOutput : Sh Bool := do
  let s ← get
  if s.output.isEmpty then return true
  else
    set { s with output := [] }
    printTo 1 s.output.reverse.flatten

def maxFunctions : Nat := 1000

/-- The texts that may be carried out inside of each other, before there is no more room. -/
def maxTexts : Nat := 6000

/-- What a loop does after its body: whether it is taken again. -/
def nextTurn : Sh Bool := do
  let s ← get
  match s.skip with
  | .nothing => return true
  | .loops levels again =>
    if levels ≤ 1 then
      set { s with skip := .nothing }
      return again
    else
      set { s with skip := .loops (levels - 1) again }
      return false
  | .function _ => return false

/-- Takes a loop, which leaves its status. -/
def inLoop (body : Sh Nat) : Sh Unit := do
  modify fun s => { s with loops := s.loops + 1 }
  let status ← body
  modify fun s => { s with loops := s.loops - 1, status }

def inOrder (signals : List Signal) : List Signal :=
  (List.range Builtin.signalCount).filter signals.contains

mutual

def captureOutput : Nat → List Command → Sh Text
  | 0, _ => return []
  | fuel + 1, body => do
    if body.isEmpty then return []
    else
      let _ ← Builtin.takeNumber
      let (outlet, inlet) ← perform .pipe
      match ← perform .fork with
      | none => do
        enterChild
        perform (.close outlet)
        moveTo inlet 1
        endWith fuel (evalList fuel true false body)
        return []
      | some pid => do
        perform (.close inlet)
        let data ← perform (.drain outlet [])
        perform (.close outlet)
        let status ← Builtin.await [pid]
        modify fun s => { s with captured := status }
        let t := match data with
          | .ok bytes => (ofBytes bytes).filter (· != '\x00')
          | .error _ => []
        return trimRightWhere (· == '\n') t

def endWith : Nat → Sh Unit → Sh Unit
  | 0, _ => exitWith 2
  | fuel + 1, body => do
    let r ← attempt body
    modify fun s => { s with
      status := match r with
        | .error .exit => s.told.getD s.status
        | _ => s.status
      told := none, skip := .nothing, loops := 0, tracing := false }
    let s ← get
    match s.traps.lookup 0 with
    | some action => do
      set { s with traps := s.traps.filter (·.1 != 0), told := some s.status }
      let r ← attempt (runText fuel action false false)
      let after ← get
      exitWith (match r with
        | .error .error | .error .done => after.status
        | _ => after.told.getD s.status)
    | none => exitWith s.status

/-- Carries out work in a process of its own, and waits for its end. -/
def runApart : Nat → Sh Unit → Sh Unit
  | 0, _ => return ()
  | fuel + 1, work => do
    let _ ← Builtin.takeNumber
    match ← perform .fork with
    | none =>
      enterChild
      endWith fuel work
    | some pid => setStatus (← Builtin.await [pid])

def runTraps : Nat → Nat → List Signal → Sh Unit
  | 0, _, _ => return ()
  | fuel + 1, status, signals =>
    match signals with
    | [] => return ()
    | sig :: rest => do
      let s ← get
      if s.skip != .nothing then set { s with pending := sig :: rest ++ s.pending }
      else
        match s.traps.lookup sig with
        | none => runTraps fuel status rest
        | some action => do
          let _ ← runText fuel action false false
          if (← get).skip != .function true then setStatus status
          runTraps fuel status rest

def checkTraps : Nat → Sh Unit
  | 0 => return ()
  | fuel + 1 => do
    if (← get).traps.isEmpty then return ()
    else
      let new : List Signal ← perform .noticed
      let s ← get
      let signals := inOrder (s.pending ++ new)
      unless signals.isEmpty do
        let status := s.told.getD s.status
        set { s with pending := [], told := some status }
        runTraps fuel status signals
        modify fun after => { after with told := s.told }

/-- **Carries out a text**, and gives the status of its last command; with `tested` its failures are
looked at by what stands around, and with `tail` the process ends after it. -/
def runText (fuel : Nat) (t : Text) (tested tail : Bool) : Sh Nat :=
  match fuel with
  | 0 => return 0
  | fuel + 1 => runScript fuel t tested tail false

def runScript (fuel : Nat) (t : Text) (tested tail shown : Bool) : Sh Nat :=
  match fuel with
  | 0 => return 0
  | fuel + 1 => do
    let s ← get
    if maxTexts < s.texts then
      let own : Pid ← perform .ownPid
      let _ ← perform (.kill own 11)
      return 0
    else
      set { s with texts := s.texts + 1 }
      let r ← attempt (runLines fuel tested tail shown ⟨t, 1⟩ 0)
      modify fun after => { after with reached := s.reached, texts := s.texts }
      rethrow r

/-- Carries out the lines of a script; `status` is that of the line before. -/
def runLines (fuel : Nat) (tested tail shown : Bool) (k : Cursor) (status : Nat) : Sh Nat :=
  match fuel with
  | 0 => return status
  | fuel + 1 => do
    let read := readLine (← get).aliases fuel k
    if shown && (← has .verbose) then
      let left := match read with
        | .ok line => line.after.text.length
        | .error _ => 0
      let _ ← printTo 2 (k.text.take (k.text.length - left))
    match read with
    | .error e => do
      modify fun s => { s with line := e.line }
      fail e.message
    | .ok line => do
      modify fun s => { s with reached := line.after.line }
      match line.commands with
      | none => return status
      | some commands => do
        evalList fuel (tail && line.ends) tested commands
        let s ← get
        let status := if commands.isEmpty then status else s.status
        if s.skip == .nothing then runLines fuel tested tail shown line.after status
        else return status

/-- Carries out commands one after the other.  With `tail` the process ends after the last one; with
`tested` a failure is looked at by what stands around. -/
def evalList (fuel : Nat) (tail tested : Bool) (cs : List Command) : Sh Unit :=
  match fuel with
  | 0 => return ()
  | fuel + 1 =>
    match cs with
    | [] => if tail then throw .done else return ()
    | [c] => eval fuel tail tested c
    | c :: rest => do
      eval fuel false tested c
      if (← get).skip == .nothing then evalList fuel tail tested rest
      else if tail then throw .done

def eval (fuel : Nat) (tail tested : Bool) (c : Command) : Sh Unit :=
  match fuel with
  | 0 => return ()
  | fuel + 1 => do
    unless ← has .noexec do
      checkTraps fuel
      let checked ← evalCommand fuel tail tested c
      let failed := (← get).status != 0
      checkTraps fuel
      if checked && !tested && failed && (← has .errexit) then throw .done
    if tail then throw .done

/-- Carries out one command, and tells whether a failure of it may end the shell. -/
def evalCommand (fuel : Nat) (tail tested : Bool) (c : Command) : Sh Bool :=
  match fuel with
  | 0 => return false
  | fuel + 1 =>
    match c with
    | .simple line assignments words redirections => do
      evalSimple fuel tail tested line assignments words redirections
      return true
    | .pipeline background stages => do
      let _ ← Builtin.takeNumber
      let pids ← startStages fuel tested background true none stages
      if background then
        Builtin.addJob pids
        setStatus 0
      else setStatus (← Builtin.await pids)
      return true
    | .negated c => do
      eval fuel false true c
      modify fun s =>
        if s.skip == .nothing then { s with status := if s.status == 0 then 1 else 0 } else s
      return false
    | .both a b => do
      eval fuel false true a
      let s ← get
      if s.skip == .nothing && s.status == 0 then eval fuel tail tested b
      return false
    | .either a b => do
      eval fuel false true a
      let s ← get
      if s.skip == .nothing && s.status != 0 then eval fuel tail tested b
      return false
    | .background line c redirections => do
      let changes ← settleAll (captureOutput fuel) line redirections
      match ← perform .fork with
      | none =>
        enterChild
        enterBackground true
        endWith fuel do
          makeForGood (captureOutput fuel) changes
          eval fuel true false c
      | some pid =>
        Builtin.addJob [pid]
        setStatus 0
      return true
    | .subshell line body redirections => do
      let changes ← settleAll (captureOutput fuel) line redirections
      let work : Sh Unit := do
        makeForGood (captureOutput fuel) changes
        evalList fuel true tested body
      if tail && (← get).mayVanish then work else runApart fuel work
      return true
    | .group body => do
      evalList fuel tail tested body
      return false
    | .choice branches otherwise => do
      evalBranches fuel tail tested branches otherwise
      return false
    | .loop negate condition body => do
      inLoop (evalLoop fuel tested negate condition body 0)
      return false
    | .each line name words body => do
      modify fun s => { s with line }
      let values ← words.mapM (expandFields (captureOutput fuel))
      inLoop (evalEach fuel tested name values.flatten body 0)
      return false
    | .select line word clauses => do
      modify fun s => { s with line }
      let t ← expandText (captureOutput fuel) word
      evalClauses fuel tail tested t clauses
      return false
    | .define line name body => do
      modify fun s => { s with
        functions := (name, ⟨line, body⟩) :: s.functions.filter (·.1 != name), status := 0 }
      return false
    | .redirected line c redirections => do
      let changes ← settleAll (captureOutput fuel) line redirections
      let (saved, good) ← makeChanges (captureOutput fuel) changes []
      if good then
        let r ← attempt (eval fuel false tested c)
        restoreDescriptors saved
        rethrow r
      else
        restoreDescriptors saved
        setStatus 2
      return false

/-- Carries out the first branch whose condition holds. -/
def evalBranches (fuel : Nat) (tail tested : Bool)
    (branches : List (List Command × List Command)) (otherwise : List Command) : Sh Unit :=
  match fuel with
  | 0 => return ()
  | fuel + 1 =>
    match branches with
    | [] => if otherwise.isEmpty then setStatus 0 else evalList fuel tail tested otherwise
    | (condition, body) :: rest => do
      evalList fuel false true condition
      let s ← get
      if s.skip == .nothing then
        if s.status == 0 then evalList fuel tail tested body
        else evalBranches fuel tail tested rest otherwise

def evalLoop (fuel : Nat) (tested negate : Bool) (condition body : List Command) (status : Nat) :
    Sh Nat :=
  match fuel with
  | 0 => return status
  | fuel + 1 => do
    evalList fuel false true condition
    let s ← get
    let status ← if s.skip != .nothing then
        pure (if s.skip == .function true then s.status else status)
      else if (s.status == 0) != negate then do
        evalList fuel false tested body
        pure (← get).status
      else return status
    if ← nextTurn then evalLoop fuel tested negate condition body status else return status

/-- Carries out commands once for each value, and gives their status. -/
def evalEach (fuel : Nat) (tested : Bool) (name : Text) (values : List Text) (body : List Command)
    (status : Nat) : Sh Nat :=
  match fuel with
  | 0 => return status
  | fuel + 1 =>
    match values with
    | [] => return status
    | v :: rest => do
      assignVariable name v
      evalList fuel false tested body
      let status := (← get).status
      if ← nextTurn then evalEach fuel tested name rest body status else return status

/-- Carries out the first clause with a pattern that matches. -/
def evalClauses (fuel : Nat) (tail tested : Bool) (t : Text)
    (clauses : List (List Word × List Command)) : Sh Unit :=
  match fuel with
  | 0 => return ()
  | fuel + 1 =>
    match clauses with
    | [] => setStatus 0
    | (patterns, body) :: rest => do
      if ← anyFits fuel t patterns then
        if body.isEmpty then setStatus 0 else evalList fuel tail tested body
      else evalClauses fuel tail tested t rest

def anyFits : Nat → Text → List Word → Sh Bool
  | 0, _, _ => return false
  | fuel + 1, t, patterns =>
    match patterns with
    | [] => return false
    | p :: rest => do
      if fitsPattern (← expandPattern (captureOutput fuel) p) t then return true
      else anyFits fuel t rest

/-- Starts the stages of a pipeline; `input` is where the next one reads from. -/
def startStages (fuel : Nat) (tested background first : Bool) (input : Option Descriptor)
    (stages : List Command) : Sh (List Pid) :=
  match fuel with
  | 0 => return []
  | fuel + 1 =>
    match stages with
    | [] => return []
    | c :: rest => do
      lookAhead c
      let ends ← if rest.isEmpty then pure none
        else do
          let (outlet, inlet) ← perform .pipe
          pure (some (outlet, inlet))
      match ← perform .fork with
      | none => do
        enterChild
        if background then enterBackground first
        ends.forM fun (outlet, _) => perform (.close outlet)
        input.forM (moveTo · 0)
        ends.forM fun (_, inlet) => moveTo inlet 1
        endWith fuel (eval fuel true tested c)
        return []
      | some pid => do
        input.forM fun fd => perform (.close fd)
        ends.forM fun (_, inlet) => perform (.close inlet)
        let others ← startStages fuel tested background false (ends.map (·.1)) rest
        return pid :: others

/-- Looks up the program of a command before the process that carries it out is there. -/
def lookAhead (c : Command) : Sh Unit := do
  match c with
  | .simple _ _ ([.literal name false] :: _) _ =>
    if isName name then
      let _ ← Builtin.find true none name
  | _ => pure ()

/-- Expands words up to the first that stands for an argument. -/
def fillFields : Nat → List Word → Sh (List Text × List Word)
  | 0, _ => return ([], [])
  | fuel + 1, words =>
    match words with
    | [] => return ([], [])
    | w :: rest => do
      let fields ← expandFields (captureOutput fuel) w
      if fields.isEmpty then fillFields fuel rest else return (fields, rest)

def fillPlan : Nat → Nat → Plan → Sh Plan
  | 0, _, p => return p
  | fuel + 1, n, p => do
    if n < p.fields.length || p.rest.isEmpty then return p
    else
      let (fields, rest) ← fillFields fuel p.rest
      fillPlan fuel n { p with fields := p.fields ++ fields, rest }

def readStripping : Nat → Nat → Plan → Sh (Stripping × Plan)
  | 0, _, p => return (.stays, p)
  | fuel + 1, n, p => do
    let p ← fillPlan fuel n p
    match p.fields[n]? with
    | none => return (.stays, p)
    | some ['-', '-'] => do
      let p ← fillPlan fuel (n + 1) p
      return (if n + 1 < p.fields.length then .takes (n + 1) else .stays, p)
    | some ('-' :: c :: letters) =>
      if (c :: letters).all (· == 'p') then
        readStripping fuel (n + 1) { p with path := some standardPath }
      else return (.stays, p)
    | some _ => return (.takes n, p)

def settlePlan : Nat → Plan → Sh Plan
  | 0, p => return p
  | fuel + 1, p => do
    let found ← Builtin.find p.functions none p.name
    let p := { p with found }
    match found with
    | .builtin => do
      let p := { p with special := p.special.or (some (Builtin.isSpecial p.name)) }
      if p.name == "command".toList then
        let (s, p) ← readStripping fuel 1 p
        match s with
        | .stays => return p
        | .takes n =>
          settlePlan fuel { p with
            stripped := (p.fields.take n).reverse ++ p.stripped
            fields := p.fields.drop n, functions := false }
      else return p
    | _ => return p

def makePlan : Nat → List Word → Sh Plan
  | 0, _ => return {}
  | fuel + 1, words => do
    let p ← fillPlan fuel 0 { rest := words }
    if p.fields.isEmpty then return p
    else
      let p ← settlePlan fuel p
      let assigns := match p.found with
        | .builtin => Builtin.takesAssignments p.name
        | _ => false
      let expand := if assigns then expandAssignment (captureOutput fuel)
        else expandFields (captureOutput fuel)
      let others ← p.rest.mapM expand
      return { p with fields := p.fields ++ others.flatten, rest := [] }

/-- Sets the variables in front of a command, and gives what is shown of that. -/
def assignAll : Nat → Plan → List (Text × Word) → Sh (List Text)
  | 0, _, _ => return []
  | fuel + 1, p, assignments =>
    match assignments with
    | [] => return []
    | (name, word) :: rest => do
      let value ← expandText (captureOutput fuel) word true
      if p.isPassing then hideVariable name (some value) true
      else setVariable name (some value) (p.isExec && 1 < p.fields.length)
      let others ← assignAll fuel p rest
      return (name ++ '=' :: value) :: others

/-- Shows a command that is about to be carried out, if that is wanted. -/
def trace : Nat → Descriptor → List Text → Sh Unit
  | 0, _, _ => return ()
  | fuel + 1, fd, words => do
    let s ← get
    if s.settings.contains .xtrace && !s.tracing then
      set { s with tracing := true }
      let front ← expandHeading fuel ((s.value? "PS4".toList).getD [])
      modify fun s => { s with tracing := false }
      let _ ← printTo fd (front ++ [' '].intercalate words ++ ['\n'])

def expandHeading : Nat → Text → Sh Text
  | 0, t => return t
  | fuel + 1, t => do
    match readText (← get).aliases fuel t with
    | .ok w => expandPlain (captureOutput fuel) w
    | .error _ => return t

def evalSimple (fuel : Nat) (tail tested : Bool) (line : Nat) (assignments : List (Text × Word))
    (words : List Word) (redirections : List Redirection) : Sh Unit :=
  match fuel with
  | 0 => return ()
  | fuel + 1 => do
    perform (.spend commandCost)
    modify fun s => { s with line, captured := 0 }
    let p ← makePlan fuel words
    let depth := (← get).frames.length
    if p.isPassing then modify fun s => { s with frames := [] :: s.frames }
    let changes ← redirections.mapM (settleRedirection (captureOutput fuel))
    let (saved, good) ← makeChanges (captureOutput fuel) changes []
    if good then
      let r ← attempt do
        let assigned ← assignAll fuel p assignments
        let errors := ((saved.find? (·.fd == 2)).bind (·.copy)).getD 2
        trace fuel errors (assigned ++ p.words)
        runPlan fuel tail tested p
      match r with
      | .ok () =>
        if p.isExec then forgetDescriptors saved else restoreDescriptors saved
        unwind depth
      | .error e =>
        restoreDescriptors saved
        throw e
    else
      restoreDescriptors saved
      setStatus 2
      if p.isFatal then throw .error
      unwind depth

def runPlan (fuel : Nat) (tail tested : Bool) (p : Plan) : Sh Unit :=
  match fuel with
  | 0 => return ()
  | fuel + 1 =>
    match p.fields with
    | [] => do
      modify fun s => { s with status := s.captured }
      Builtin.lookAround
    | name :: args => do
      let found ← match p.found with
        | .builtin => pure .builtin
        | _ => Builtin.find p.functions p.path name
      match found with
      | .builtin => do
        match ← attempt (runBuiltin fuel tested name args) with
        | .ok () => Builtin.lookAround
        | .error .error => if p.isFatal then throw .error else Builtin.lookAround
        | .error e => throw e
      | .function f => do
        callFunction fuel tested f args
        Builtin.lookAround
      | .missing e => do
        Builtin.tellMissing name e
        setStatus 127
      | .program file => do
        let path := p.path.getD (← get).path
        let files := (Builtin.candidates path name).dropWhile (· != file)
        let work := become files p.fields
        if tail && (← get).mayVanish then work else runApart fuel work

def runBuiltin : Nat → Bool → Text → List Text → Sh Unit
  | 0, _, _, _ => return ()
  | fuel + 1, tested, name, args => do
    let outer := (← get).command
    modify fun s => { s with command := some name }
    let r ← attempt (builtinStatus fuel tested (String.ofList name) args)
    let written ← flushOutput
    match r with
    | .ok status =>
      unless written do complain (String.ofList name ++ ": I/O error")
      modify fun s => { s with
        command := outer, status := if written then status else status ||| 1 }
    | .error e =>
      modify fun s => { s with command := outer }
      throw e

def builtinStatus : Nat → Bool → String → List Text → Sh Nat
  | 0, _, _, _ => return 0
  | fuel + 1, tested, name, args =>
    match name with
    | "eval" =>
      if args.isEmpty then return 0 else runText fuel ([' '].intercalate args) tested false
    | "exec" => do
      unless args.isEmpty do
        become (Builtin.candidates (← get).path (args.headD [])) args
      return 0
    | "." => do
      let (_, args) ← Builtin.takeOptions "" args
      match args with
      | [] => return 0
      | file :: _ => do
        let path ← sourceFile file
        let data ← match ← perform (.openFile ⟨toBytes path⟩ .read) with
          | .ok fd => do
            let data ← perform (.drain fd [])
            perform (.close fd)
            pure (data.toOption.getD [])
          | .error e =>
            fail ("cannot open " ++ String.ofList path ++ ": " ++ reasonFor e "No such file")
        modify fun s => { s with command := some path }
        let status ← runScript fuel (ofBytes data) false false true
        modify fun s => match s.skip with
          | .function _ => { s with skip := .nothing }
          | _ => s
        return status
    | _ => Builtin.run name args

def sourceFile (name : Text) : Sh Text := do
  if name.contains '/' then return name
  else
    let files := Builtin.candidates (← get).path name
    match ← ofProgram (files.findM? fun p => Program.isFile ⟨toBytes p⟩) with
    | some p => return p
    | none => fail (String.ofList name ++ ": not found")

def callFunction : Nat → Bool → Function → List Text → Sh Unit
  | 0, _, _, _ => return ()
  | fuel + 1, tested, f, args => do
    let outer ← get
    if maxFunctions ≤ outer.calls then
      fail ("Maximum function recursion depth (" ++ toString maxFunctions ++ ") reached")
    set { outer with
      args, loops := 0, optionIndex := 1, optionOffset := none, calls := outer.calls + 1 }
    let r ← attempt (eval fuel false tested f.body)
    modify fun s => { s with
      args := outer.args, loops := outer.loops, optionIndex := outer.optionIndex
      optionOffset := outer.optionOffset, calls := outer.calls
      skip := match s.skip with
        | .function _ => .nothing
        | other => other }
    rethrow r

end

end Judge.Shell
