/-!
# Number/Basic — powers and sums

`n ^ k` and `List.sum` find their operations through instances, and a library of algebra offers
instances of its own.  Those below come first, so a definition is the same term whether or not such
a library is imported beside it.
-/

namespace Judge

@[default_instance 10001]
instance (priority := 1100) plainPow {α : Type} [NatPow α] : Pow α Nat := instPowNat

instance (priority := 1100) plainZero : Zero Nat := ⟨0⟩

end Judge
