import SurfaceTree.Proofs.Traversal.Laws

namespace SurfaceTree

variable {m : Type → Type} [Monad m] {E R E' R' : Type}

/-- Rewrites what a slot holds, with effects. -/
def Leaf.traverse (f : E → m E') (g : R → m R') : Leaf E R → m (Leaf E' R')
  | .exp e => .exp <$> f e
  | .ref r => .ref <$> g r

variable [LawfulMonad m]

section Containers

variable {α β Q A : Type} {f : α → m β} {ask : Q → m A} (asked : α → List Q)
  (answered : β → List A)

/-- If each step asks some questions in order, the steps ask all of them in order. -/
theorem flatMap_mapM {xs : List α} (each : ∀ x ∈ xs, answered <$> f x = (asked x).mapM ask) :
    List.flatMap answered <$> xs.mapM f = (xs.flatMap asked).mapM ask := by
  induction xs with
  | nil => simp only [List.mapM_nil, List.flatMap_nil, map_pure]
  | cons x rest ih =>
    obtain ⟨first, others⟩ := List.forall_mem_cons.mp each
    simp only [List.mapM_cons, List.flatMap_cons, List.mapM_append, ← first, ← ih others,
      ← bind_pure_comp, bind_assoc, pure_bind]

theorem Row.flatMap_traverse {keys : List Name} (row : Row α keys)
    (each : ∀ entry ∈ row.toList, answered <$> f entry.2 = (asked entry.2).mapM ask) :
    (fun row' => row'.toList.flatMap fun entry => answered entry.2) <$> row.traverse f
      = (row.toList.flatMap fun entry => asked entry.2).mapM ask := by
  induction row with
  | nil => simp only [traverse, toList, List.flatMap_nil, List.mapM_nil, map_pure]
  | cons key value rest ih =>
    obtain ⟨first, others⟩ := List.forall_mem_cons.mp each
    simp only [traverse, toList, List.flatMap_cons, List.mapM_append, ← first, ← ih others,
      ← bind_pure_comp, bind_assoc, pure_bind]

/-- A mapping is asked about by ascending name. -/
theorem NameMap.flatMap_traverse (map : NameMap α)
    (each : ∀ entry ∈ map.toList, answered <$> f entry.2 = (asked entry.2).mapM ask) :
    (fun map' => map'.toList.flatMap fun entry => answered entry.2) <$> map.traverse f
      = (map.toList.flatMap fun entry => asked entry.2).mapM ask := by
  simp only [traverse, toList, withRow, ← Row.flatMap_traverse asked answered map.row each,
    ← bind_pure_comp, bind_assoc, pure_bind]

/-- A table is asked about in the order of the visibilities. -/
theorem VisibilityTable.flatMap_traverse (table : VisibilityTable α)
    (each : ∀ a ∈ table.values, answered <$> f a = (asked a).mapM ask) :
    (fun table' => table'.values.flatMap answered) <$> table.traverse (fun _ => f)
      = (table.values.flatMap asked).mapM ask := by
  simp only [values, List.forall_mem_cons] at each
  obtain ⟨hidden, priv, prot, pub, _⟩ := each
  simp only [traverse, values, List.flatMap_cons, List.flatMap_nil, List.mapM_append,
    List.mapM_nil, ← hidden, ← priv, ← prot, ← pub, ← bind_pure_comp, bind_assoc, pure_bind]

end Containers

variable (f : E → m E') (g : R → m R')

theorem leavesOfOption_traverse (e : Option E) :
    leavesOfOption <$> traverseOption f e = (leavesOfOption e).mapM (Leaf.traverse f g) := by
  cases e with
  | none => simp only [traverseOption, leavesOfOption, List.mapM_nil, map_pure]
  | some e =>
    simp only [traverseOption, leavesOfOption, List.mapM_cons, List.mapM_nil, Leaf.traverse,
      ← bind_pure_comp, bind_assoc, pure_bind]

theorem exp_traverse (e : E) :
    (fun e => [Leaf.exp e]) <$> f e = [Leaf.exp e].mapM (Leaf.traverse f g) := by
  simp only [List.mapM_cons, List.mapM_nil, Leaf.traverse, ← bind_pure_comp, bind_assoc, pure_bind]

theorem mapM_exps (es : List E) :
    List.map Leaf.exp <$> es.mapM f = (es.map .exp).mapM (Leaf.traverse f g) := by
  induction es with
  | nil => simp only [List.map_nil, List.mapM_nil, map_pure]
  | cons e rest ih =>
    simp only [List.map_cons, List.mapM_cons, Leaf.traverse, ← ih, ← bind_pure_comp, bind_assoc,
      pure_bind]

/-- A traversal asks about the leaves of a pattern in their order. -/
theorem Pattern.leaves_traverse (p : Pattern E R) :
    leaves <$> p.traverse f g = p.leaves.mapM (Leaf.traverse f g) := by
  induction p using Pattern.induction with
  | alternatives pos choices ih =>
    simp only [traverse, traverseList_eq, leaves, leavesOfList_eq, ← flatMap_mapM leaves leaves ih,
      ← bind_pure_comp, bind_assoc, pure_bind]
  | split pos fields strict ih =>
    simp only [traverse, traverseRow_eq, leaves, leavesOfRow_eq, NameMap.withRow,
      ← Row.flatMap_traverse leaves leaves fields.row ih, ← bind_pure_comp, bind_assoc, pure_bind]
  | construct pos head argument ih =>
    simp only [traverse, leaves, List.mapM_cons, Leaf.traverse, ← ih, ← bind_pure_comp, bind_assoc,
      pure_bind]
  | typed pos pattern type ih =>
    simp only [traverse, leaves, List.mapM_append, List.mapM_cons, List.mapM_nil, Leaf.traverse,
      ← ih, ← bind_pure_comp, bind_assoc, pure_bind]
  | named pos name pattern ih =>
    simp only [traverse, leaves, ← ih, ← bind_pure_comp, bind_assoc, pure_bind]
  | bind pos name => simp only [traverse, leaves, List.mapM_nil, map_pure]
  | literal l => simp only [traverse, leaves, List.mapM_nil, map_pure]

theorem Entry.leaves_traverse (n : Entry E R) :
    leaves <$> n.traverse f g = n.leaves.mapM (Leaf.traverse f g) := by
  simp only [traverse, leaves, ← n.pattern.leaves_traverse f g, ← bind_pure_comp, bind_assoc,
    pure_bind]

theorem Field.leaves_traverse (n : Field E R) :
    leaves <$> n.traverse f g = n.leaves.mapM (Leaf.traverse f g) := by
  simp only [traverse, leaves, List.mapM_append, ← n.entry.leaves_traverse f g, ←
    leavesOfOption_traverse f g, ← bind_pure_comp, bind_assoc, pure_bind]

theorem Fields.leaves_traverse (n : Fields E R) :
    leaves <$> n.traverse f g = n.leaves.mapM (Leaf.traverse f g) := by
  have fields := Row.flatMap_traverse Field.leaves Field.leaves n.row
    fun entry _ => entry.2.leaves_traverse f g
  simp only [traverse, leaves, toList, ← fields, ← bind_pure_comp, bind_assoc, pure_bind]

theorem Case.leaves_traverse (n : Case E R) :
    leaves <$> n.traverse f g = n.leaves.mapM (Leaf.traverse f g) := by
  simp only [traverse, leaves, List.mapM_append, List.mapM_cons, List.mapM_nil, Leaf.traverse, ←
    n.pattern.leaves_traverse f g, ← bind_pure_comp, bind_assoc, pure_bind]

theorem Definition.leaves_traverse (n : Definition E R) :
    leaves <$> n.traverse f g = n.leaves.mapM (Leaf.traverse f g) := by
  simp only [traverse, leaves, List.mapM_append, ← n.pattern.leaves_traverse f g, ←
    leavesOfOption_traverse f g, ← bind_pure_comp, bind_assoc, pure_bind]

theorem Import.leaves_traverse (n : Import E) :
    leaves <$> n.traverse f = n.leaves.mapM (Leaf.traverse f g) := by
  simp only [traverse, leaves, List.mapM_cons, List.mapM_nil, Leaf.traverse, ← bind_pure_comp,
    bind_assoc, pure_bind]

theorem Proof.leaves_traverse (n : Proof E R) :
    leaves <$> n.traverse f g = n.leaves.mapM (Leaf.traverse f g) := by
  simp only [traverse, leaves, List.mapM_cons, List.mapM_nil, Leaf.traverse, ← bind_pure_comp,
    bind_assoc, pure_bind]

theorem Truth.leaves_traverse (n : Truth E) :
    leaves <$> n.traverse f = n.leaves.mapM (Leaf.traverse f g) := by
  simp only [traverse, leaves, List.mapM_cons, Leaf.traverse, ← leavesOfOption_traverse f g, ←
    bind_pure_comp, bind_assoc, pure_bind]

theorem Builder.leaves_traverse (n : Builder E R) :
    leaves <$> n.traverse f g = n.leaves.mapM (Leaf.traverse f g) := by
  simp only [traverse, leaves, List.mapM_append, List.mapM_cons, List.mapM_nil, Leaf.traverse, ←
    n.params.leaves_traverse f g, ← mapM_exps f g, ← bind_pure_comp, bind_assoc, pure_bind]

theorem Precedence.leaves_traverse (n : Precedence E) :
    leaves <$> n.traverse f = n.leaves.mapM (Leaf.traverse f g) := by
  simp only [traverse, leaves, List.mapM_cons, List.mapM_nil, Leaf.traverse, ← bind_pure_comp,
    bind_assoc, pure_bind]

theorem Operator.leaves_traverse (n : Operator E) :
    leaves <$> n.traverse f = n.leaves.mapM (Leaf.traverse f g) := by
  have precedence := flatMap_mapM Precedence.leaves Precedence.leaves
    fun p (_ : p ∈ n.precedence) => p.leaves_traverse f g
  simp only [traverse, leaves, ← precedence, ← bind_pure_comp, bind_assoc, pure_bind]

theorem Item.leaves_traverse (n : Item E R) :
    leaves <$> n.traverse f g = n.leaves.mapM (Leaf.traverse f g) := by
  cases n with
  | statement e =>
    simp only [traverse, leaves, List.mapM_cons, List.mapM_nil, Leaf.traverse, ← bind_pure_comp,
      bind_assoc, pure_bind]
  | declaration d =>
    simp only [traverse, leaves, ← d.leaves_traverse f g, ← bind_pure_comp, bind_assoc, pure_bind]

theorem Scope.leaves_traverse (n : Scope E R) :
    leaves <$> n.traverse f g = n.leaves.mapM (Leaf.traverse f g) := by
  have builders := n.builders.flatMap_traverse Builder.leaves Builder.leaves fun entry _ =>
    entry.2.leaves_traverse f g
  have operators := n.operators.flatMap_traverse Operator.leaves Operator.leaves fun entry _ =>
    entry.2.leaves_traverse f g
  have truths := n.truths.flatMap_traverse Truth.leaves Truth.leaves fun entry _ =>
    entry.2.leaves_traverse f g
  have definitions := n.definitions.flatMap_traverse (List.flatMap Definition.leaves)
    (List.flatMap Definition.leaves) fun ds _ => flatMap_mapM Definition.leaves Definition.leaves
      fun d (_ : d ∈ ds) => d.leaves_traverse f g
  have proofs := flatMap_mapM Proof.leaves Proof.leaves fun p (_ : p ∈ n.proofs) =>
    p.leaves_traverse f g
  have imports := flatMap_mapM Import.leaves Import.leaves fun i (_ : i ∈ n.imports) =>
    i.leaves_traverse f g
  simp only [traverse, leaves, List.mapM_append, ← builders, ← operators, ← truths, ← definitions, ←
    proofs, ← imports, ← bind_pure_comp, bind_assoc, pure_bind]

theorem Component.leaves_traverse (n : Component E R) :
    leaves <$> n.traverse f g = n.leaves.mapM (Leaf.traverse f g) := by
  simp only [traverse, leaves, ← n.scope.leaves_traverse f g, ← bind_pure_comp, bind_assoc,
    pure_bind]

/-- A traversal asks about the leaves of a layer of an expression in their order. -/
theorem Form.leaves_traverse (n : Form E R) :
    leaves <$> n.traverse f g = n.leaves.mapM (Leaf.traverse f g) := by
  cases n with
  | block pos items =>
    have all := flatMap_mapM Item.leaves Item.leaves fun i (_ : i ∈ items) =>
      i.leaves_traverse f g
    simp only [traverse, leaves, ← all, ← bind_pure_comp, bind_assoc, pure_bind]
  | abstraction pos binder cases =>
    have all := flatMap_mapM Case.leaves Case.leaves fun c (_ : c ∈ cases) =>
      c.leaves_traverse f g
    simp only [traverse, leaves, ← all, ← bind_pure_comp, bind_assoc, pure_bind]
  | matching pos scrutinee cases =>
    have all := flatMap_mapM Case.leaves Case.leaves fun c (_ : c ∈ cases) =>
      c.leaves_traverse f g
    simp only [traverse, leaves, List.mapM_cons, Leaf.traverse, ← all, ← bind_pure_comp, bind_assoc,
      pure_bind]
  | record pos fields =>
    have all := fields.flatMap_traverse (fun e => [Leaf.exp e]) (fun e => [Leaf.exp e])
      fun entry _ => exp_traverse f g entry.2
    simp only [← List.map_eq_flatMap] at all
    simp only [traverse, leaves, ← all, ← bind_pure_comp, bind_assoc, pure_bind]
  | recordType pos fields =>
    simp only [traverse, leaves, ← fields.leaves_traverse f g, ← bind_pure_comp, bind_assoc,
      pure_bind]
  | anonymous pos kind supers params body =>
    simp only [traverse, leaves, List.mapM_append, ← mapM_exps f g, ← params.leaves_traverse f g,
      ← body.leaves_traverse f g, ← bind_pure_comp, bind_assoc, pure_bind]
  | chain pos items | tuple pos items =>
    simp only [traverse, leaves, ← mapM_exps f g, ← bind_pure_comp, bind_assoc, pure_bind]
  | literal l => simp only [traverse, leaves, List.mapM_nil, map_pure]
  | _ =>
    simp only [traverse, leaves, List.mapM_cons, List.mapM_nil, Leaf.traverse, ← bind_pure_comp,
      bind_assoc, pure_bind]

/-- The leaves of the outcome of a traversal are the answers to the leaves, asked in their order. -/
theorem Kind.leaves_traverse (k : Kind) (n : k.Tree E R) :
    k.leaves <$> k.traverse f g n = (k.leaves n).mapM (Leaf.traverse f g) := by
  cases k with
  | ref =>
    simp only [traverse, leaves, List.mapM_cons, List.mapM_nil, Leaf.traverse, ← bind_pure_comp,
      bind_assoc, pure_bind]
  | span | literal => simp only [traverse, leaves, List.mapM_nil, map_pure]
  | entry => exact Entry.leaves_traverse f g n
  | field => exact Field.leaves_traverse f g n
  | fields => exact Fields.leaves_traverse f g n
  | case => exact Case.leaves_traverse f g n
  | definition => exact Definition.leaves_traverse f g n
  | imported => exact Import.leaves_traverse f g n
  | proof => exact Proof.leaves_traverse f g n
  | truth => exact Truth.leaves_traverse f g n
  | builder => exact Builder.leaves_traverse f g n
  | precedence => exact Precedence.leaves_traverse f g n
  | operator => exact Operator.leaves_traverse f g n
  | scope => exact Scope.leaves_traverse f g n
  | component => exact Component.leaves_traverse f g n
  | pattern => exact Pattern.leaves_traverse f g n
  | item => exact Item.leaves_traverse f g n
  | expr => exact Form.leaves_traverse f g n

/-- Rewriting a node rewrites its leaves. -/
theorem Kind.leaves_map (f : E → E') (g : R → R') (k : Kind) (n : k.Tree E R) :
    k.leaves (k.map f g n) = (k.leaves n).map (Leaf.map f g) := by
  have plain (leaf : Leaf E R) : leaf.traverse (m := Id) f g = pure (leaf.map f g) := by
    cases leaf <;> rfl
  exact (k.leaves_traverse (m := Id) f g n).trans (mapM_eq_pure fun leaf _ => plain leaf)

end SurfaceTree
