import SurfaceTree.Keyword
import SurfaceTree.Tree.Fields

namespace SurfaceTree

/-- A pattern and the body it selects. -/
structure Case (E R : Type) where
  pos : Span
  pattern : Pattern E R
  body : E

/-- A pattern and the value it is bound to, if one is given. -/
structure Definition (E R : Type) where
  pos : Span
  pattern : Pattern E R
  init : Option E

structure Import (E : Type) where
  pos : Span
  visibility : Visibility
  target : E

/-- Discharges a fact with a body. -/
structure Proof (E R : Type) where
  pos : Span
  fact : R
  body : E

/-- A fact. Its name is the key it is bound under. -/
structure Truth (E : Type) where
  pos : Span
  kind : TruthKind
  visibility : Visibility
  prop : E
  proof : Option E

/-- Introduces an entity, such as a module or a class. -/
structure Builder (E R : Type) where
  pos : Span
  kind : BuilderKind
  visibility : Visibility
  params : Fields E R
  supers : List E
  body : E

/-- How tightly an operator binds compared with another one. -/
structure Precedence (E : Type) where
  relation : Relation
  operator : E

/-- How an operator is written. -/
structure Operator (E : Type) where
  pos : Span
  fixity : Fixity
  precedence : List (Precedence E)

/-- One item of a block. -/
inductive Item (E R : Type) where
  | statement (value : E)
  | declaration (definition : Definition E R)

namespace Item

variable {E R : Type}

def tag : Item E R → Nat
  | statement _ => 0
  | declaration _ => 1

/-- What encodings call the variants, by tag. -/
def variantNames : List String := ["statement", "declaration"]

/-- Where the item stands, given where expressions stand. -/
def span (expr : E → Span) : Item E R → Span
  | statement value => expr value
  | declaration d => d.pos

end Item

end SurfaceTree
