import Judge.Assoc

/-!
# Vars — variables of an environment

A list of assignments in which each variable occurs once; a later assignment replaces the earlier.
-/

namespace Judge

/-- Assignments of values to variables. -/
structure Vars where
  entries : List (String × String)
deriving DecidableEq, Repr, Inhabited

namespace Vars

def empty : Vars := ⟨[]⟩

def get? (v : Vars) (key : String) : Option String := v.entries.lookup key

def set (v : Vars) (key value : String) : Vars := ⟨Assoc.put v.entries key value⟩

/-- The assignments without the variable `key`. -/
def erase (v : Vars) (key : String) : Vars := ⟨v.entries.filter (·.1 != key)⟩

def overlay (v w : Vars) : Vars := w.entries.foldl (fun acc e => acc.set e.1 e.2) v

def mapValues (f : String → String) (v : Vars) : Vars := ⟨v.entries.map fun e => (e.1, f e.2)⟩

/-- The assignments of a list, later ones on top. -/
def ofList (entries : List (String × String)) : Vars := empty.overlay ⟨entries⟩

@[simp] theorem get?_empty (key : String) : empty.get? key = none := rfl

@[simp] theorem get?_set (v : Vars) (key value other : String) :
    (v.set key value).get? other = if other = key then some value else v.get? other :=
  Assoc.lookup_put v.entries key value other

end Vars

end Judge
