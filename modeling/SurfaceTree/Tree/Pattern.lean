import SurfaceTree.Name.Map
import SurfaceTree.Tree.Literal

namespace SurfaceTree

/-- What a match or a definition binds. -/
inductive Pattern (E R : Type) where
  /-- `p | q | ...` -/
  | alternatives (pos : Span) (choices : List (Pattern E R))
  /-- `C p` -/
  | construct (pos : Span) (head : R) (argument : Pattern E R)
  /-- `{ a = p, b = q }`; a strict one refuses fields it does not name. -/
  | split (pos : Span) (fields : NameMap (Pattern E R)) (strict : Bool)
  /-- `p : t` -/
  | typed (pos : Span) (pattern : Pattern E R) (type : E)
  /-- `x @ p` -/
  | named (pos : Span) (name : Name) (pattern : Pattern E R)
  /-- `x` -/
  | bind (pos : Span) (name : Name)
  /-- A literal that has to be met exactly. -/
  | literal (literal : Literal)

namespace Pattern

variable {E R E' R' : Type}

/-- Where the pattern stands. A literal has the position of its value. -/
def span : Pattern E R → Span
  | alternatives pos _ | construct pos _ _ | split pos _ _ | typed pos _ _ | named pos _ _
  | bind pos _ => pos
  | literal l => l.pos

/-- The place of the variant in canonical order. -/
def tag : Pattern E R → Nat
  | alternatives .. => 0
  | construct .. => 1
  | split .. => 2
  | typed .. => 3
  | named .. => 4
  | bind .. => 5
  | literal .. => 6

/-- What encodings call the variants, by tag. -/
def variantNames : List String :=
  ["option", "deconstruct", "split", "typed", "as", "name", "exact"]

mutual
/-- The names bound, from left to right. Alternatives all bind the same names, so the first one
speaks for them. -/
def binders : Pattern E R → List Name
  | alternatives _ choices => bindersOfFirst choices
  | construct _ _ argument => binders argument
  | split _ fields _ => bindersOfRow fields.row
  | typed _ pattern _ => binders pattern
  | named _ name pattern => name :: binders pattern
  | bind _ name => [name]
  | literal _ => []

def bindersOfFirst : List (Pattern E R) → List Name
  | [] => []
  | first :: _ => binders first

def bindersOfRow : {keys : List Name} → Row (Pattern E R) keys → List Name
  | _, .nil => []
  | _, .cons _ pattern rest => binders pattern ++ bindersOfRow rest
end

end Pattern

end SurfaceTree
