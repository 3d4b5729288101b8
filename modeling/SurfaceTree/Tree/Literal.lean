import SurfaceTree.Name.Basic
import SurfaceTree.Span

namespace SurfaceTree

/-- The value of a literal. A float is kept as its bits, so that every value has an identity, and a
string as the name it is registered under. -/
inductive LiteralValue where
  | int (value : Int64)
  | float (bits : UInt64)
  | str (name : Name)
  | char (value : Char)
deriving DecidableEq

/-- The bits of a float. The other values have none. -/
def LiteralValue.floatBits? : LiteralValue → Option UInt64
  | .float bits => some bits
  | _ => none

/-- A literal and where it stands. -/
structure Literal where
  pos : Span
  value : LiteralValue
deriving DecidableEq

/-- The number of a lexical scope. -/
structure ScopeId where
  number : UInt32
deriving DecidableEq

/-- A resolved reference: a name, and the scope it was found in. -/
structure Symbol where
  scope : ScopeId
  name : Name
deriving DecidableEq

end SurfaceTree
