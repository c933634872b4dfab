import Judge.Command.Words
import Judge.Metadata
import Judge.Path.Relative
import Judge.Settings
import Judge.TestCase

/-!
# Command/Invocation — how a candidate is started

The run command and the parameters of a test become the words of one command line.  The line that is
printed, the program that is started and the arguments it sees all come from these words.
-/

namespace Judge

/-- A started candidate: what is executed, with which arguments and variables, and the command line
that is printed. -/
structure Invocation where
  input : Path
  reference : Path
  info : Path
  runDir : Path
  /-- The program that is executed; a bare name is looked up. -/
  executable : Path
  /-- The arguments, the name first. -/
  argv : List String
  env : Vars
  display : String
deriving DecidableEq, Repr

namespace Invocation

/-- The error behind a relative path that cannot be formed. -/
def ofRelativeError : Path.RelativeError → JudgeError
  | .notText path => .config (path.display ++ " is not valid UTF-8")
  | .unrelated base path =>
    .internal (base.display ++ " and " ++ path.display ++ " share no common ancestor")

/-- The way from the run directory to a target. -/
def seenFrom (cwd runDir target : Path) : Except JudgeError String :=
  match runDir.relative (Path.absolute cwd target) with
  | .ok text => .ok text
  | .error e => .error (ofRelativeError e)

/-- Puts a value in the place of a token, wherever it stands. -/
def replaceToken (text token value : String) : String :=
  String.ofList (replaceAll token.toList value.toList text.toList)

/-- The word that stands for the parameters of a test. -/
def paramsToken : String := "params"

/-- The word that stands for the path of the test without its extension. -/
def testNameToken : String := "test_name"

/-- Tabs and line feeds of a parameter, which may be written `\t` and `\n`. -/
def expandEscapes (word : String) : String :=
  replaceToken (replaceToken word "\\t" "\t") "\\n" "\n"

/-- What one word of the run command becomes. -/
def expandWord (cwd runDir problemDir : Path) (params : List String) (word : String) :
    Except JudgeError (List String) :=
  if "./".toList.isPrefixOf word.toList then
    (seenFrom cwd runDir (problemDir.join (.ofString word))).map ([·])
  else if word = paramsToken then .ok params
  else .ok [word]

/-- The words of the command line: parameters stand where the run command has their word, or else at
the end. -/
def expandWords (cwd runDir problemDir : Path) (cmd params : List String) :
    Except JudgeError (List String) := do
  let params := params.map expandEscapes
  let words ← cmd.mapM (expandWord cwd runDir problemDir params)
  let spliced := cmd.contains paramsToken
  return words.flatten ++ (if spliced then [] else params)

/-- The program that the first word names: with a slash in it a path below the run directory, and
without one a name that is looked up. -/
def resolveExecutable (runDir : Path) (word : String) : Path :=
  let path := Path.ofString word
  if word.toList.contains '/' && !path.isAbsolute then runDir.join path else path

/-- The last part of a path, by which a program is called. -/
def programName (word : String) : String :=
  (((Path.ofString word).fileName?).map Utf8.text).getD word

/-- Splits a text as a shell does; what cannot be split is an error. -/
def splitWords (text : String) : Except JudgeError (List String) :=
  match Words.splitText text with
  | .ok words => .ok words
  | .error message => .error (.config message)

/-- The words that run the rest of the line as another user. -/
def asUser (user : Option String) (words : List String) : List String :=
  match user with
  | some user => ["sudo", "-E", "-u", user] ++ words
  | none => words

/-- The words that the candidate is given, the name of its program first. -/
def arguments (dropFirst : Bool) : List String → Except JudgeError (List String)
  | [] => .error (.config "Run command is empty")
  | word :: rest =>
    if dropFirst then
      if rest.isEmpty then .error (.config "drop_first_param leaves an empty command line")
      else .ok rest
    else .ok (programName word :: rest)

/-- The inherited variables and those of the test. -/
def environment (inherited : Vars) (m : Metadata) (problemDir : String) : Vars :=
  let own := if m.enableSubst then
      m.environ.mapValues fun v => replaceToken v problemDirPlaceholder problemDir
    else m.environ
  (if m.nukeEnviron then Vars.empty else inherited).overlay own

/-- The words of the command line of a candidate, without a change of user. -/
def ownWords (cwd : Path) (options : Options) (m : Metadata) (case : TestCase) (runDir : Path) :
    Except JudgeError (List String) := do
  let problemDir := Path.absolute cwd options.problemDir
  let inputSeen ← seenFrom cwd runDir case.input
  let params := replaceToken (m.params.getD "") options.inputFilename inputSeen
  let params :=
    if m.enableSubst then replaceToken params problemDirPlaceholder problemDir.display else params
  let testPath := options.testsDir.display ++ "/" ++ case.name
  let cmd := replaceToken (replaceToken options.runCmd options.inputFilename inputSeen)
    testNameToken testPath
  let cmdWords ← splitWords cmd
  let paramWords ← splitWords params
  expandWords cwd runDir problemDir cmdWords paramWords

/-- **The invocation of a test** in the run directory `runDir`. -/
def build (cwd : Path) (inherited : Vars) (options : Options) (m : Metadata) (case : TestCase)
    (runDir : Path) : Except JudgeError Invocation := do
  let own ← ownWords cwd options m case runDir
  let words := asUser options.user own
  let argv ← arguments m.dropFirstParam words
  return {
    input := case.input, reference := case.reference, info := case.info, runDir
    executable := resolveExecutable runDir (words.headD "")
    argv
    env := environment inherited m (Path.absolute cwd options.problemDir).display
    display := Words.joinText words }

end Invocation

end Judge
