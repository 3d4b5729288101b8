import SurfaceTree.Canonical.Tree
import SurfaceTree.Canonical.Words
import SurfaceTree.Codec.Decode
import SurfaceTree.Codec.Encode
import SurfaceTree.Printing.Tree

namespace SurfaceTree

/-- What a tree has to know of its references. -/
class Reference (R : Type) where
  /-- The name referred to. -/
  name : R → Name
  key : R → Key
  compare : R → R → Ordering
  words : R → List UInt64
  toElement : R → Element
  decode : Element → Except DecodeError R
  doc : Lookups → R → Doc

/-- Before resolution a reference is the bare name. -/
instance : Reference Name where
  name := id
  key := Name.key
  compare := Name.compare
  words := Name.words
  toElement := Name.toElement
  decode := Name.decode
  doc := Name.doc

/-- After resolution a reference is a name and the scope that binds it. -/
instance : Reference Symbol where
  name := Symbol.name
  key := Symbol.key
  compare := Symbol.compare
  words := Symbol.words
  toElement := Symbol.toElement
  decode := Symbol.decode
  doc := Symbol.doc

/-- Before or after the resolution of names. -/
inductive Phase where
  | parsed
  | resolved
deriving DecidableEq

/-- The references of a phase. -/
@[reducible] def Phase.Ref : Phase → Type
  | parsed => Name
  | resolved => Symbol

/-- References of either phase are all that trees ask of references. -/
instance : (p : Phase) → Reference p.Ref
  | .parsed => inferInstanceAs (Reference Name)
  | .resolved => inferInstanceAs (Reference Symbol)

end SurfaceTree
