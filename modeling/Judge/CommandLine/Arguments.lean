import Judge.Text.Cut

/-!
# CommandLine/Arguments — options and positional arguments

A program declares the options it knows and the positional arguments it takes (`Interface`);
`Interface.read` sorts the words of a command line accordingly.  The words are looked at one after
the other, and the first that is out of place, or that asks for help or for the version, decides.
-/

namespace Judge

/-- What follows an option. -/
inductive Arity where
  | flag
  /-- One value; the option is given at most once. -/
  | one
  /-- One or more values; the option may be given again. -/
  | many
deriving DecidableEq, Repr

/-- An option. -/
structure OptionRule where
  name : String
  arity : Arity
  accepts : String → Bool := fun _ => true

/-- The arguments of a program. -/
structure Interface where
  options : List OptionRule := []
  positionals : List (String → Bool) := []
  required : Nat := 0

/-- Why a command line is not carried out. -/
inductive Refusal where
  | usage
  | help
  | version
deriving DecidableEq, Repr

/-- The sorted words of a command line. -/
structure Arguments where
  /-- The options in the order given, with their values. -/
  given : List (String × List String) := []
  positionals : List String := []
deriving DecidableEq, Repr

namespace Arguments

/-- Whether an option was given. -/
def has (a : Arguments) (name : String) : Bool := a.given.any (·.1 == name)

/-- All values that were given for an option. -/
def values (a : Arguments) (name : String) : List String :=
  (a.given.filter (·.1 == name)).flatMap (·.2)

/-- The first value of an option. -/
def value? (a : Arguments) (name : String) : Option String := (a.values name).head?

end Arguments

namespace Interface

/-- Whether a word can be the value of the option before it. -/
def isValue (word : String) : Bool :=
  match word.toList with
  | '-' :: _ :: _ => false
  | _ => true

/-- The name of an option, and the value behind an equals sign. -/
def cutOption (word : List Char) : String × Option String :=
  match cutAt ['='] word with
  | some (name, value) => (String.ofList name, some (String.ofList value))
  | none => (String.ofList word, none)

/-- The words that follow an option and are its values, and the other words. -/
def takeValues (arity : Arity) (rest : List String) : List String × List String :=
  match arity with
  | .flag => ([], rest)
  | .one => if (rest.head?.map isValue).getD false then (rest.take 1, rest.drop 1) else ([], rest)
  | .many => (rest.takeWhile isValue, rest.dropWhile isValue)

theorem length_takeValues_le (arity : Arity) (rest : List String) :
    (takeValues arity rest).2.length ≤ rest.length := by
  cases arity with
  | flag => simp [takeValues]
  | one =>
    simp only [takeValues]
    split <;> simp
  | many => exact (List.dropWhile_sublist isValue).length_le

/-- Takes in an option, which may be wrong here. -/
def addOption (r : OptionRule) (values : List String) (a : Arguments) : Except Refusal Arguments :=
  let repeated := decide (r.arity ≠ Arity.many) && a.has r.name
  let missing := decide (r.arity ≠ Arity.flag) && values.isEmpty
  if repeated || missing || !values.all r.accepts then .error .usage
  else .ok { a with given := a.given ++ [(r.name, values)] }

/-- Takes in an argument that is no option, if there is a place for it. -/
def addPositional (i : Interface) (word : String) (a : Arguments) : Except Refusal Arguments :=
  match i.positionals[a.positionals.length]? with
  | some accepts =>
    if accepts word then .ok { a with positionals := a.positionals ++ [word] } else .error .usage
  | none => .error .usage

/-- Takes in arguments of which none is an option. -/
def addPositionals (i : Interface) : List String → Arguments → Except Refusal Arguments
  | [], a => .ok a
  | w :: rest, a =>
    match i.addPositional w a with
    | .error e => .error e
    | .ok a => i.addPositionals rest a

/-- **Sorts the words of a command line** into options and other arguments. -/
def sort (i : Interface) : List String → Arguments → Except Refusal Arguments
  | [], a => .ok a
  | w :: rest, a =>
    match w.toList with
    | ['-', '-'] => i.addPositionals rest a
    | '-' :: '-' :: word =>
      let (name, attached) := cutOption word
      if attached.isNone && name = "help" then .error .help
      else if attached.isNone && name = "version" then .error .version
      else match i.options.find? (·.name = name) with
        | none => .error .usage
        | some r =>
          match attached with
          | some v =>
            if r.arity = .flag then .error .usage
            else match addOption r [v] a with
              | .error e => .error e
              | .ok a => i.sort rest a
          | none =>
            match addOption r (takeValues r.arity rest).1 a with
            | .error e => .error e
            | .ok a => i.sort (takeValues r.arity rest).2 a
    | '-' :: 'h' :: _ => .error .help
    | '-' :: 'V' :: _ => .error .version
    | '-' :: _ :: _ => .error .usage
    | _ =>
      match i.addPositional w a with
      | .error e => .error e
      | .ok a => i.sort rest a
termination_by words => words.length
decreasing_by
  · simp
  · have := length_takeValues_le r.arity rest
    simp; omega
  · simp

/-- **Reads a command line**, without the name of the program. -/
def read (i : Interface) (words : List String) : Except Refusal Arguments :=
  match i.sort words {} with
  | .error e => .error e
  | .ok a => if a.positionals.length < i.required then .error .usage else .ok a

end Interface

end Judge
