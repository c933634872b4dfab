import Judge.Proofs.Basic
import Judge.Proofs.Quoting
import Judge.Suite.Sandbox

/-!
# Proofs/Invocations — the line that is printed is the command that is executed

An invocation shows its command line quoted, and the program and its arguments are taken from the
words behind it (`build_eq_ok`).  Since quoting is undone by splitting, the printed line determines
both.
-/

namespace Judge.Invocation

variable {cwd runDir : Path} {inherited : Vars} {options : Options} {m : Metadata}
  {case : TestCase} {v : Invocation}

/-- **All of an invocation comes from one list of words.** -/
theorem build_eq_ok (h : build cwd inherited options m case runDir = .ok v) :
    ∃ own argv, ownWords cwd options m case runDir = .ok own ∧
      arguments m.dropFirstParam (asUser options.user own) = .ok argv ∧
      v = {
        input := case.input, reference := case.reference, info := case.info, runDir, argv
        executable := resolveExecutable runDir ((asUser options.user own).headD "")
        env := environment inherited m (Path.absolute cwd options.problemDir).display
        display := Words.joinText (asUser options.user own) } := by
  obtain ⟨own, hown, h⟩ := ok_of_bind h
  obtain ⟨argv, hargv, h⟩ := ok_of_bind h
  cases h
  exact ⟨own, argv, hown, hargv, rfl⟩

/-- The files of the test. -/
def awkwardCase : TestCase where
  name := "001"
  input := .ofString "/p/tests/001.dat"
  reference := .ofString "/p/tests/001.ans"
  info := .ofString "/p/tests/001.inf"
  fixtureDir := .ofString "/p/tests/001.dir"

end Judge.Invocation
