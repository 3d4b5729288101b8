import SurfaceTree.Proofs.Traversal.Deep

namespace SurfaceTree

/-- What a traversal keeps is the same in its outcome. -/
theorem Attempt.kept_of_ok {σ ε α γ : Type} {x : Attempt σ ε α} {frame : α → γ} {kept : γ}
    {s s' : σ} {t : α} (framed : frame <$> x = (fun _ => kept) <$> x)
    (ended : x.outcome s = (.ok t, s')) : frame t = kept := by
  have framed := congrArg (outcome · s) framed
  simp only [outcome_map, ended, Except.map, Prod.mk.injEq, Except.ok.injEq, and_true] at framed
  exact framed

variable {E R E' R' S : Type}

/-- The declared orders of the parameters in a scope. -/
def Scope.declared (n : Scope E R) : List (List Name) :=
  n.builders.toList.map fun entry => entry.2.params.order

/-- The declared orders of the field lists in one layer of an expression. -/
def Form.declared : Form E R → List (List Name)
  | .recordType _ fields => [fields.order]
  | .anonymous _ _ _ params body => params.order :: body.declared
  | _ => []

/-- The declared orders of the field lists in one layer of a node. -/
def Kind.declared : (k : Kind) → k.Tree E R → List (List Name)
  | fields, n => [n.order]
  | builder, n => [n.params.order]
  | scope, n => Scope.declared n
  | component, n => n.scope.declared
  | expr, n => Form.declared n
  | _, _ => []

theorem Scope.declared_map (f : E → E') (g : R → R') (n : Scope E R) :
    (n.map f g).declared = n.declared := by
  simp only [declared, map, NameMap.toList_map, List.map_map]
  rfl

theorem Form.declared_map (f : E → E') (g : R → R') (n : Form E R) :
    (n.map f g).declared = n.declared := by
  cases n with
  | anonymous pos kind supers params body => exact congrArg _ (body.declared_map f g)
  | _ => rfl

theorem Kind.declared_rewrite (f : E → E') (g : R → R') (k : Kind) (n : k.Tree E R) :
    k.declared (k.rewrite f g n) = k.declared n := by
  cases k with
  | scope => exact n.declared_map f g
  | component => exact n.scope.declared_map f g
  | expr => exact Form.declared_map f g n
  | _ => rfl

/-- A traversal keeps the declared order of every field list in a node. -/
theorem Kind.declared_traverse {σ ε : Type} {f : E → Attempt σ ε E'} {g : R → Attempt σ ε R'}
    {k : Kind} {n : k.Tree E R} {t : k.Tree E' R'} {s s' : σ}
    (run : (k.traverse f g n).outcome s = (.ok t, s')) : k.declared t = k.declared n := by
  have sameShape : k.shape t = k.shape n := Attempt.kept_of_ok (k.shape_traverse f g n) run
  have sameOrders := congrArg k.declared sameShape
  rwa [shape, shape, declared_rewrite, declared_rewrite] at sameOrders

/-- The declared orders of the field lists in an expression, at every depth. -/
def Expr.declared : Expr R → List (List Name) :=
  fold fun form => form.declared ++ form.leaves.flatMap (Leaf.elim id fun _ => [])

/-- The declared orders of the field lists in a node, at every depth. -/
def Node.declared (k : Kind) (n : Node R k) : List (List Name) :=
  k.declared n ++ (k.leaves n).flatMap (Leaf.elim Expr.declared fun _ => [])

theorem Expr.declared_mk (form : Form (Expr R) R) : (mk form).declared = Node.declared .expr form := by
  rw [declared, fold_mk, Form.leaves_map, List.flatMap_map, Form.declared_map]
  refine congrArg (_ ++ List.flatMap · form.leaves) (funext fun leaf => ?_)
  cases leaf <;> rfl

theorem Node.declared_mapRefs_of_exps {h : R → S} (k : Kind) (n : Node R k)
    (exps : ∀ e, .exp e ∈ k.leaves n → (e.mapRefs h).declared = e.declared) :
    declared k (mapRefs h k n) = declared k n := by
  have mapped : mapRefs h k n = k.map (Expr.mapRefs h) h n := rfl
  rw [declared, declared, mapped, k.leaves_map, List.flatMap_map, k.map_eq_rewrite,
    k.declared_rewrite]
  refine congrArg _ (List.flatMap_congr fun leaf member => ?_)
  cases leaf with
  | exp e => exact exps e member
  | ref r => rfl

theorem Expr.declared_mapRefs (h : R → S) (e : Expr R) : (e.mapRefs h).declared = e.declared := by
  induction e using induction with
  | step form ih =>
    rw [mapRefs_mk, declared_mk, declared_mk, Node.declared_mapRefs_of_exps .expr form ih]

theorem Node.declared_outline (k : Kind) (n : Node R k) :
    declared k (outline k n) = declared k n :=
  declared_mapRefs_of_exps k n fun e _ => e.declared_mapRefs _

/-- Rewriting references keeps the declared order of every field list, at every depth. -/
theorem Node.declared_traverseRefs {σ ε : Type} {g : R → Attempt σ ε S} {k : Kind} {n : Node R k}
    {t : Node S k} {s s' : σ} (run : (traverseRefs g k n).outcome s = (.ok t, s')) :
    declared k t = declared k n := by
  have sameOutline : outline k t = outline k n :=
    Attempt.kept_of_ok (outline_traverseRefs g k n) run
  rw [← declared_outline, sameOutline, declared_outline]

end SurfaceTree
