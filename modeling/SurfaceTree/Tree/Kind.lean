import SurfaceTree.Tree.Expr
import SurfaceTree.Traversal.Leaves

namespace SurfaceTree

/-- A kind of node. -/
inductive Kind where
  | ref
  | span
  | literal
  | entry
  | field
  | fields
  | case
  | definition
  | imported
  | proof
  | truth
  | builder
  | precedence
  | operator
  | scope
  | component
  | pattern
  | item
  | expr
deriving DecidableEq

namespace Kind

/-- The nodes of a kind, with expression slots `E` and reference slots `R`. Of an expression it is
the outermost form. -/
@[reducible] def Tree : Kind → Type → Type → Type
  | ref, _, R => R
  | span, _, _ => Span
  | literal, _, _ => Literal
  | entry, E, R => Entry E R
  | field, E, R => Field E R
  | fields, E, R => Fields E R
  | case, E, R => Case E R
  | definition, E, R => Definition E R
  | imported, E, _ => Import E
  | proof, E, R => Proof E R
  | truth, E, _ => Truth E
  | builder, E, R => Builder E R
  | precedence, E, _ => Precedence E
  | operator, E, _ => Operator E
  | scope, E, R => Scope E R
  | component, E, R => Component E R
  | pattern, E, R => Pattern E R
  | item, E, R => Item E R
  | expr, E, R => Form E R

variable {m : Type → Type} [Monad m] {E R E' R' : Type}

/-- Rebuilds a node with new contents in its slots. -/
def traverse (f : E → m E') (g : R → m R') : (k : Kind) → k.Tree E R → m (k.Tree E' R')
  | ref, n => g n
  | span, n => pure n
  | literal, n => pure n
  | entry, n => n.traverse f g
  | field, n => n.traverse f g
  | fields, n => n.traverse f g
  | case, n => n.traverse f g
  | definition, n => n.traverse f g
  | imported, n => n.traverse f
  | proof, n => n.traverse f g
  | truth, n => n.traverse f
  | builder, n => n.traverse f g
  | precedence, n => n.traverse f
  | operator, n => n.traverse f
  | scope, n => n.traverse f g
  | component, n => n.traverse f g
  | pattern, n => n.traverse f g
  | item, n => n.traverse f g
  | expr, n => n.traverse f g

/-- Rewrites every slot of a node. -/
def map (f : E → E') (g : R → R') (k : Kind) (n : k.Tree E R) : k.Tree E' R' :=
  Id.run (k.traverse (fun e => pure (f e)) (fun r => pure (g r)) n)

/-- The contents of a node's slots, in the order of a traversal. -/
def leaves : (k : Kind) → k.Tree E R → List (Leaf E R)
  | ref, n => [.ref n]
  | span, _ => []
  | literal, _ => []
  | entry, n => n.leaves
  | field, n => n.leaves
  | fields, n => n.leaves
  | case, n => n.leaves
  | definition, n => n.leaves
  | imported, n => n.leaves
  | proof, n => n.leaves
  | truth, n => n.leaves
  | builder, n => n.leaves
  | precedence, n => n.leaves
  | operator, n => n.leaves
  | scope, n => n.leaves
  | component, n => n.leaves
  | pattern, n => n.leaves
  | item, n => n.leaves
  | expr, n => n.leaves

/-- Combines a value for each slot, from left to right, beginning with `unit`. -/
def foldMap {M : Type} (unit : M) (combine : M → M → M) (f : E → M) (g : R → M) (k : Kind)
    (n : k.Tree E R) : M :=
  (k.leaves n).foldl (fun acc leaf => combine acc (match leaf with | .exp e => f e | .ref r => g r))
    unit

/-- Where a node stands, given where expressions stand. References, field lists, precedences and
components have no position of their own. -/
def span? (expr : E → Span) : (k : Kind) → k.Tree E R → Option Span
  | ref, _ => none
  | span, n => some n
  | literal, n => some n.pos
  | entry, n => some n.pos
  | field, n => some n.pos
  | fields, _ => none
  | case, n => some n.pos
  | definition, n => some n.pos
  | imported, n => some n.pos
  | proof, n => some n.pos
  | truth, n => some n.pos
  | builder, n => some n.pos
  | precedence, _ => none
  | operator, n => some n.pos
  | scope, n => some n.pos
  | component, _ => none
  | pattern, n => some n.span
  | item, n => some (n.span expr)
  | Kind.expr, n => some n.span

end Kind

/-- A node whose expression slots hold whole expressions, with references `R`. -/
abbrev Node (R : Type) (k : Kind) : Type := k.Tree (Expr R) R

end SurfaceTree
