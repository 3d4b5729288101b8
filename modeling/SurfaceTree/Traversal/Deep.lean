import SurfaceTree.Tree.Kind

namespace SurfaceTree

variable {m : Type → Type} [Monad m] {R S ε : Type}

namespace Expr

/-- Rewrites every reference, in the order of a traversal. -/
def traverseRefs (g : R → m S) : Expr R → m (Expr S) :=
  fold fun form => do return .mk (← form.traverse id g)

/-- Every reference, in the order of a traversal. -/
def refs : Expr R → List R :=
  fold fun form => form.leaves.flatMap fun
    | .exp refs => refs
    | .ref r => [r]

/-- Rewrites every reference of an expression. -/
def mapRefs (g : R → S) (e : Expr R) : Expr S := Id.run (e.traverseRefs fun r => pure (g r))

end Expr

namespace Node

/-- Rewrites every reference of a node at every depth, in the order of a traversal. -/
def traverseRefs (g : R → m S) (k : Kind) (n : Node R k) : m (Node S k) :=
  k.traverse (Expr.traverseRefs g) g n

/-- Rewrites every reference of a node at every depth. -/
def mapRefs (g : R → S) (k : Kind) (n : Node R k) : Node S k :=
  Id.run (traverseRefs (fun r => pure (g r)) k n)

/-- Every reference of a node at every depth, in the order of a traversal. -/
def refs (k : Kind) (n : Node R k) : List R :=
  (k.leaves n).flatMap fun
    | .exp e => e.refs
    | .ref r => [r]

/-- Rewrites every reference, going on after failures. A failed reference is recorded and stands as
`recover` of its error until the end, when a tree with failures is given up for the list of them in
the order of a traversal. -/
def resolveCollecting (resolve : R → m (Except ε S)) (recover : ε → m S) (k : Kind)
    (n : Node R k) : m (Except (List ε) (Node S k)) := do
  let attempt (r : R) : StateT (List ε) m S := do
    match ← resolve r with
    | .ok s => pure s
    | .error e => do
      modify (· ++ [e])
      recover e
  let (tree, failures) ← (traverseRefs attempt k n).run []
  return if failures.isEmpty then .ok tree else .error failures

end Node

end SurfaceTree
