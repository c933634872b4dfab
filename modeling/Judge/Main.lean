import Judge.Machine.Standard

/-!
# Main — the command line

The directory that the program is started in is taken over into the standard machine, the command
line is carried out there, and what has changed in the directory is written back.  Under a name that
ends in `interactor` the program is the interactor, and the judge under every other name.
-/

namespace Judge

namespace CommandLine

def variableNames : List String :=
  [Surroundings.pipelineVar, Surroundings.epsVar, Surroundings.timeLimitVar, "PATH", "HOME"]

def environment : IO Environment :=
  variableNames.filterMapM fun name => do
    return (← IO.getEnv name).map fun value => (utf8 name, utf8 value)

/-- Whether a file can be executed: it is a script. -/
def isScript (content : Bytes) : Bool := (utf8 "#!").isPrefixOf content

partial def takeOver (place : Place) (entries : Array IO.FS.DirEntry) (t : FileTree) :
    IO FileTree := do
  let mut t := t
  for e in entries do
    let there := place ++ [utf8 e.fileName]
    if ← e.path.isDir then
      t ← takeOver there (← e.path.readDir) (t.put there .dir)
    else
      let content := (← IO.FS.readBinFile e.path).toList
      t := t.put there (.file content (if isScript content then programMode else plainMode))
  return t

/-- Writes back what has changed from `before` to `after` below the directory at `place`. -/
def writeBack (place : Place) (before after : FileTree) : IO Unit := do
  let name (rest : Place) : String := Utf8.text (Path.joinPieces rest)
  for (rest, e) in before.below place do
    match e, after.get? (place ++ rest) with
    | .file .., some (.file ..) => pure ()
    | .file .., _ => IO.FS.removeFile (name rest)
    | _, _ => pure ()
  for (rest, e) in after.below place do
    match e with
    | .dir => IO.FS.createDirAll (name rest)
    | .file content _ =>
      if before.get? (place ++ rest) != some e then
        IO.FS.writeBinFile (name rest) ⟨content.toArray⟩
    | _ => pure ()

/-- Carries out a command line on the standard machine, and gives the exit code. -/
def carryOut (program : Boot → Program Nat) (name : String) (args : List String) (stdin : Bytes) :
    IO UInt32 := do
  let dir ← IO.currentDir
  let place : Place := (dir.components.filter (· != "")).map utf8
  let m := Machine.standard
  let parents := (List.range place.length).map fun n => place.take (n + 1)
  let t := parents.foldl (fun t p => t.put p .dir) m.tree
  let before ← takeOver place (← dir.readDir) t
  let boot : Boot := { argv := (name :: args).map utf8, env := ← environment }
  let (code, after) :=
    Machine.drive Machine.standardLoader { m with tree := before } place boot.argv stdin
      (program boot)
  (← IO.getStdout).write ⟨after.output.toArray⟩
  (← IO.getStderr).write ⟨after.errorOutput.toArray⟩
  writeBack place before after.tree
  return UInt32.ofNat (code.getD 1)

end CommandLine

end Judge

/-- The two programs, told apart by the name under which they are started. -/
def main (args : List String) : IO UInt32 := do
  let name := (← IO.appPath).fileName.getD ""
  if "interactor".toList.isSuffixOf name.toList then
    let stdin ← (← IO.getStdin).readBinToEnd
    Judge.CommandLine.carryOut Judge.Interactor.program name args stdin.toList
  else Judge.CommandLine.carryOut Judge.SuiteCommand.program name args []
