import SurfaceTree.Proofs.Canonical.Node

namespace SurfaceTree

namespace Node

/-- A node each of whose lists and mappings, at any depth, has a length that one word can hold. -/
def Addressable {R : Type} [Reference R] (k : Kind) (n : Node R k) : Prop := (key k n).Addressable

instance {R : Type} [Reference R] (k : Kind) (n : Node R k) : Decidable (Addressable k n) :=
  inferInstanceAs (Decidable (key k n).Addressable)

end Node

end SurfaceTree
