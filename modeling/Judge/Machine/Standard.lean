import Judge.CommandLine.Interactor
import Judge.CommandLine.Suite
import Judge.Tools.Standard

/-!
# Machine/Standard — the machine that suites are judged on

A machine with a shell, the common tools, and the two programs of this library.
-/

namespace Judge.Machine

/-- The name of the suite runner. -/
def judgeName : Bytes := utf8 "judgebox"

/-- The name of the interactor. -/
def interactorName : Bytes := utf8 "judgebox-interactor"

/-- **The programs of every machine.** -/
def standardLoader : Loader := fun name boot =>
  if name = judgeName then some (SuiteCommand.program boot)
  else if name = interactorName then some (Interactor.program boot)
  else Tools.load? name boot

/-- **The standard machine.** -/
def standard : Machine :=
  let bin : Place := [utf8 "usr", utf8 "local", utf8 "bin"]
  let t := Tools.furnish {}
  let t := t.put (bin ++ [judgeName]) (.file (mark ++ judgeName) programMode)
  { tree := t.put (bin ++ [interactorName]) (.file (mark ++ interactorName) programMode) }

/-- A peer listens at a place. -/
def listen (m : Machine) (place : Place) (steps : List PeerStep) : Machine :=
  { m with tree := m.tree.put place .socket, peers := (place, steps) :: m.peers }

end Judge.Machine
