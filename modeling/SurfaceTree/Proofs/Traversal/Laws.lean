import SurfaceTree.Proofs.Traversal.Map

namespace SurfaceTree

variable {m : Type → Type} [Monad m] [LawfulMonad m] {E R E' R' E'' R'' : Type}

namespace Pattern

/-- What holds of a pattern if it holds of its parts holds of all patterns. -/
theorem induction {P : Pattern E R → Prop}
    (alternatives : ∀ pos choices, (∀ p ∈ choices, P p) → P (.alternatives pos choices))
    (construct : ∀ pos head argument, P argument → P (.construct pos head argument))
    (split : ∀ pos (fields : NameMap (Pattern E R)) strict,
      (∀ entry ∈ fields.toList, P entry.2) → P (.split pos fields strict))
    (typed : ∀ pos pattern type, P pattern → P (.typed pos pattern type))
    (named : ∀ pos name pattern, P pattern → P (.named pos name pattern))
    (bind : ∀ pos name, P (.bind pos name))
    (literal : ∀ l, P (.literal l)) (p : Pattern E R) : P p :=
  @Pattern.rec E R P (fun choices => ∀ p ∈ choices, P p)
    (fun fields => ∀ entry ∈ fields.toList, P entry.2)
    (fun _ row => ∀ entry ∈ row.toList, P entry.2)
    alternatives construct split typed named bind literal
    (by simp) (fun _ _ first others => List.forall_mem_cons.mpr ⟨first, others⟩)
    (fun _ _ _ all => all)
    (by simp [Row.toList]) (fun _ _ _ _ first others => List.forall_mem_cons.mpr ⟨first, others⟩) p

@[simp] theorem mapAll_eq (f : E → E') (g : R → R') (choices : List (Pattern E R)) :
    mapAll f g choices = choices.map (map f g) := by
  induction choices with
  | nil => rfl
  | cons p rest ih => simp only [mapAll, ih, List.map_cons]

@[simp] theorem mapRow_eq (f : E → E') (g : R → R') {keys : List Name}
    (row : Row (Pattern E R) keys) : mapRow f g row = row.map (map f g) := by
  induction row with
  | nil => rfl
  | cons key p rest ih => simp only [mapRow, ih, Row.map]

/-- The fields of a split are rewritten in place. -/
theorem map_split (f : E → E') (g : R → R') (pos : Span) (fields : NameMap (Pattern E R))
    (strict : Bool) :
    (split pos fields strict).map f g = split pos (fields.map (map f g)) strict := by
  rw [map, mapRow_eq]
  rfl

@[simp] theorem leavesOfList_eq (choices : List (Pattern E R)) :
    leavesOfList choices = choices.flatMap leaves := by
  induction choices with
  | nil => rfl
  | cons p rest ih => simp only [leavesOfList, ih, List.flatMap_cons]

@[simp] theorem leavesOfRow_eq {keys : List Name} (row : Row (Pattern E R) keys) :
    leavesOfRow row = row.toList.flatMap fun entry => entry.2.leaves := by
  induction row with
  | nil => rfl
  | cons key p rest ih => simp only [leavesOfRow, ih, Row.toList, List.flatMap_cons]

theorem leaves_split (pos : Span) (fields : NameMap (Pattern E R)) (strict : Bool) :
    (split pos fields strict).leaves = fields.toList.flatMap fun entry => entry.2.leaves := by
  rw [leaves, leavesOfRow_eq]
  rfl

@[simp] theorem traverseList_eq (f : E → m E') (g : R → m R') (choices : List (Pattern E R)) :
    traverseList f g choices = choices.mapM (traverse f g) := by
  induction choices with
  | nil => simp [traverseList]
  | cons p rest ih => simp only [traverseList, ih, List.mapM_cons]

omit [LawfulMonad m] in
@[simp] theorem traverseRow_eq (f : E → m E') (g : R → m R') {keys : List Name}
    (row : Row (Pattern E R) keys) : traverseRow f g row = row.traverse (traverse f g) := by
  induction row with
  | nil => rfl
  | cons key p rest ih => simp only [traverseRow, ih, Row.traverse]

/-- A traversal of a pattern without effects rewrites it. -/
theorem traverse_pure (f : E → E') (g : R → R') (p : Pattern E R) :
    p.traverse (fun e => (pure (f e) : m E')) (fun r => pure (g r)) = pure (p.map f g) := by
  induction p using Pattern.induction with
  | alternatives pos choices ih =>
    simp only [traverse, traverseList_eq, mapM_eq_pure ih, map, mapAll_eq, pure_bind]
  | construct pos head argument ih => simp only [traverse, ih, map, pure_bind]
  | split pos fields strict ih =>
    simp only [traverse, traverseRow_eq, Row.traverse_eq_pure fields.row ih, map, mapRow_eq,
      pure_bind]
  | typed pos pattern type ih => simp only [traverse, ih, map, pure_bind]
  | named pos name pattern ih => simp only [traverse, ih, map, pure_bind]
  | bind pos name => rfl
  | literal l => rfl

theorem map_id (p : Pattern E R) : p.map (fun e => e) (fun r => r) = p := by
  induction p using Pattern.induction with
  | alternatives pos choices ih =>
    rw [map, mapAll_eq, List.map_congr_left ih, List.map_id']
  | construct pos head argument ih => rw [map, ih]
  | split pos fields strict ih => rw [map_split, fields.map_eq_self ih]
  | typed pos pattern type ih => rw [map, ih]
  | named pos name pattern ih => rw [map, ih]
  | bind pos name => rfl
  | literal l => rfl

end Pattern

theorem traverseOption_pure (f : E → E') (e : Option E) :
    traverseOption (fun e => (pure (f e) : m E')) e = pure (e.map f) := by
  cases e <;> simp [traverseOption]

namespace Entry

theorem traverse_pure (f : E → E') (g : R → R') (n : Entry E R) :
    n.traverse (fun e => (pure (f e) : m E')) (fun r => pure (g r)) = pure (n.map f g) := by
  simp only [traverse, map, Pattern.traverse_pure, pure_bind]

theorem map_id (n : Entry E R) : n.map (fun e => e) (fun r => r) = n := by
  rw [map, Pattern.map_id]

end Entry

namespace Field

theorem traverse_pure (f : E → E') (g : R → R') (n : Field E R) :
    n.traverse (fun e => (pure (f e) : m E')) (fun r => pure (g r)) = pure (n.map f g) := by
  simp only [traverse, map, Entry.traverse_pure, traverseOption_pure, pure_bind]

theorem map_id (n : Field E R) : n.map (fun e => e) (fun r => r) = n := by
  rw [map, Entry.map_id, Option.map_id']

end Field

namespace Fields

@[simp] theorem order_map (f : E → E') (g : R → R') (n : Fields E R) :
    (n.map f g).order = n.order := rfl

@[simp] theorem toList_map (f : E → E') (g : R → R') (n : Fields E R) :
    (n.map f g).toList = n.toList.map fun entry => (entry.1, entry.2.map f g) :=
  Row.toList_map _ n.row

/-- Replacing the fields of a list replaces the bindings. -/
theorem bindings_mk_map (h : Field E R → Field E' R') (n : Fields E R) :
    (mk n.order n.distinct (n.row.map h)).bindings = n.bindings.map h := by
  rw [bindings, toList, Row.toList_map]
  exact NameMap.ofList_map h n.toList

theorem bindings_map (f : E → E') (g : R → R') (n : Fields E R) :
    (n.map f g).bindings = n.bindings.map (Field.map f g) :=
  n.bindings_mk_map (h := Field.map f g)

theorem traverse_pure (f : E → E') (g : R → R') (n : Fields E R) :
    n.traverse (fun e => (pure (f e) : m E')) (fun r => pure (g r)) = pure (n.map f g) := by
  have all := Row.traverse_eq_pure n.row fun entry _ =>
    Field.traverse_pure (m := m) f g entry.2
  simp only [traverse, map, all, pure_bind]

theorem map_id (n : Fields E R) : n.map (fun e => e) (fun r => r) = n := by
  apply ext
  rw [toList_map]
  refine (List.map_congr_left fun entry _ => ?_).trans (List.map_id _)
  rw [Field.map_id]
  rfl

end Fields

namespace Case

theorem traverse_pure (f : E → E') (g : R → R') (n : Case E R) :
    n.traverse (fun e => (pure (f e) : m E')) (fun r => pure (g r)) = pure (n.map f g) := by
  simp only [traverse, map, Pattern.traverse_pure, pure_bind]

theorem map_id (n : Case E R) : n.map (fun e => e) (fun r => r) = n := by
  rw [map, Pattern.map_id]

end Case

namespace Definition

theorem traverse_pure (f : E → E') (g : R → R') (n : Definition E R) :
    n.traverse (fun e => (pure (f e) : m E')) (fun r => pure (g r)) = pure (n.map f g) := by
  simp only [traverse, map, Pattern.traverse_pure, traverseOption_pure, pure_bind]

theorem map_id (n : Definition E R) : n.map (fun e => e) (fun r => r) = n := by
  rw [map, Pattern.map_id, Option.map_id']

end Definition

namespace Import

theorem traverse_pure (f : E → E') (n : Import E) :
    n.traverse (fun e => (pure (f e) : m E')) = pure (n.map f) := by
  simp only [traverse, map, pure_bind]

theorem map_id (n : Import E) : n.map (fun e => e) = n := rfl

end Import

namespace Proof

theorem traverse_pure (f : E → E') (g : R → R') (n : Proof E R) :
    n.traverse (fun e => (pure (f e) : m E')) (fun r => pure (g r)) = pure (n.map f g) := by
  simp only [traverse, map, pure_bind]

theorem map_id (n : Proof E R) : n.map (fun e => e) (fun r => r) = n := rfl

end Proof

namespace Truth

theorem traverse_pure (f : E → E') (n : Truth E) :
    n.traverse (fun e => (pure (f e) : m E')) = pure (n.map f) := by
  simp only [traverse, map, traverseOption_pure, pure_bind]

theorem map_id (n : Truth E) : n.map (fun e => e) = n := by
  rw [map, Option.map_id']

end Truth

namespace Builder

theorem traverse_pure (f : E → E') (g : R → R') (n : Builder E R) :
    n.traverse (fun e => (pure (f e) : m E')) (fun r => pure (g r)) = pure (n.map f g) := by
  simp only [traverse, map, Fields.traverse_pure, List.mapM_pure, pure_bind]

theorem map_id (n : Builder E R) : n.map (fun e => e) (fun r => r) = n := by
  rw [map, Fields.map_id, List.map_id']

end Builder

namespace Precedence

theorem traverse_pure (f : E → E') (n : Precedence E) :
    n.traverse (fun e => (pure (f e) : m E')) = pure (n.map f) := by
  simp only [traverse, map, pure_bind]

theorem map_id (n : Precedence E) : n.map (fun e => e) = n := rfl

end Precedence

namespace Operator

theorem traverse_pure (f : E → E') (n : Operator E) :
    n.traverse (fun e => (pure (f e) : m E')) = pure (n.map f) := by
  have all := mapM_eq_pure (m := m) fun (p : Precedence E) (_ : p ∈ n.precedence) =>
    p.traverse_pure f
  simp only [traverse, map, all, pure_bind]

theorem map_id (n : Operator E) : n.map (fun e => e) = n := by
  rw [map, List.map_id'' Precedence.map_id]

end Operator

namespace Item

theorem traverse_pure (f : E → E') (g : R → R') (n : Item E R) :
    n.traverse (fun e => (pure (f e) : m E')) (fun r => pure (g r)) = pure (n.map f g) := by
  cases n <;> simp only [traverse, map, Definition.traverse_pure, pure_bind]

theorem map_id (n : Item E R) : n.map (fun e => e) (fun r => r) = n := by
  cases n with
  | statement e => rfl
  | declaration d => rw [map, Definition.map_id]

end Item

namespace VisibilityTable

variable {α β γ : Type}

theorem traverse_eq_pure {f : α → m β} {g : α → β} (t : VisibilityTable α)
    (plain : ∀ a ∈ t.values, f a = pure (g a)) :
    t.traverse (fun _ => f) = pure (t.map g) := by
  simp only [values, List.forall_mem_cons] at plain
  obtain ⟨hidden, priv, prot, pub, _⟩ := plain
  simp only [traverse, map, hidden, priv, prot, pub, pure_bind]

@[simp] theorem values_map (f : α → β) (t : VisibilityTable α) :
    (t.map f).values = t.values.map f := rfl

theorem map_eq_self {f : α → α} (t : VisibilityTable α) (same : ∀ a ∈ t.values, f a = a) :
    t.map f = t := by
  simp only [values, List.forall_mem_cons] at same
  obtain ⟨hidden, priv, prot, pub, _⟩ := same
  rw [map, hidden, priv, prot, pub]

theorem map_map (f : α → β) (g : β → γ) (t : VisibilityTable α) :
    (t.map f).map g = t.map (g ∘ f) := rfl

end VisibilityTable

namespace Scope

theorem traverse_pure (f : E → E') (g : R → R') (n : Scope E R) :
    n.traverse (fun e => (pure (f e) : m E')) (fun r => pure (g r)) = pure (n.map f g) := by
  have builders := n.builders.traverse_eq_pure fun entry _ =>
    Builder.traverse_pure (m := m) f g entry.2
  have operators := n.operators.traverse_eq_pure fun entry _ =>
    Operator.traverse_pure (m := m) f entry.2
  have truths := n.truths.traverse_eq_pure fun entry _ => Truth.traverse_pure (m := m) f entry.2
  have definitions := n.definitions.traverse_eq_pure fun ds _ =>
    mapM_eq_pure fun d (_ : d ∈ ds) => Definition.traverse_pure (m := m) f g d
  have proofs := mapM_eq_pure fun p (_ : p ∈ n.proofs) => Proof.traverse_pure (m := m) f g p
  have imports := mapM_eq_pure fun i (_ : i ∈ n.imports) => Import.traverse_pure (m := m) f i
  simp only [traverse, map, builders, operators, truths, definitions, proofs, imports, pure_bind]

theorem map_id (n : Scope E R) : n.map (fun e => e) (fun r => r) = n := by
  have definitions : n.definitions.map (List.map (Definition.map (fun e => e) fun r => r))
      = n.definitions :=
    n.definitions.map_eq_self fun ds _ => List.map_id'' Definition.map_id ds
  rw [map, n.builders.map_eq_self fun entry _ => entry.2.map_id,
    n.operators.map_eq_self fun entry _ => entry.2.map_id,
    n.truths.map_eq_self fun entry _ => entry.2.map_id, definitions,
    List.map_id'' Proof.map_id, List.map_id'' Import.map_id]

end Scope

namespace Component

theorem traverse_pure (f : E → E') (g : R → R') (n : Component E R) :
    n.traverse (fun e => (pure (f e) : m E')) (fun r => pure (g r)) = pure (n.map f g) := by
  simp only [traverse, map, Scope.traverse_pure, pure_bind]

theorem map_id (n : Component E R) : n.map (fun e => e) (fun r => r) = n := by
  rw [map, Scope.map_id]

end Component

namespace Form

theorem traverse_pure (f : E → E') (g : R → R') (n : Form E R) :
    n.traverse (fun e => (pure (f e) : m E')) (fun r => pure (g r)) = pure (n.map f g) := by
  cases n with
  | block pos items =>
    have all := mapM_eq_pure fun i (_ : i ∈ items) => Item.traverse_pure (m := m) f g i
    simp only [traverse, map, all, pure_bind]
  | abstraction pos binder cases =>
    have all := mapM_eq_pure fun c (_ : c ∈ cases) => Case.traverse_pure (m := m) f g c
    simp only [traverse, map, all, pure_bind]
  | matching pos scrutinee cases =>
    have all := mapM_eq_pure fun c (_ : c ∈ cases) => Case.traverse_pure (m := m) f g c
    simp only [traverse, map, all, pure_bind]
  | record pos fields =>
    have all := fields.traverse_eq_pure (f := fun e => (pure (f e) : m E')) (g := f)
      fun _ _ => rfl
    simp only [traverse, map, all, pure_bind]
  | recordType pos fields => simp only [traverse, map, Fields.traverse_pure, pure_bind]
  | anonymous pos kind supers params body =>
    simp only [traverse, map, List.mapM_pure, Fields.traverse_pure, Scope.traverse_pure, pure_bind]
  | _ => simp only [traverse, map, List.mapM_pure, pure_bind]

theorem map_id (n : Form E R) : n.map (fun e => e) (fun r => r) = n := by
  cases n with
  | record pos fields => rw [map, fields.map_eq_self fun _ _ => rfl]
  | _ => simp only [map, List.map_id'' Item.map_id, List.map_id'' Case.map_id, List.map_id',
      Fields.map_id, Scope.map_id]

end Form

namespace Kind

/-- Rewriting is the traversal without effects. -/
theorem traverse_pure (f : E → E') (g : R → R') (k : Kind) (n : k.Tree E R) :
    k.traverse (fun e => (pure (f e) : m E')) (fun r => pure (g r)) n = pure (k.rewrite f g n) := by
  cases k with
  | ref | span | literal => rfl
  | entry => exact Entry.traverse_pure f g n
  | field => exact Field.traverse_pure f g n
  | fields => exact Fields.traverse_pure f g n
  | case => exact Case.traverse_pure f g n
  | definition => exact Definition.traverse_pure f g n
  | imported => exact Import.traverse_pure f n
  | proof => exact Proof.traverse_pure f g n
  | truth => exact Truth.traverse_pure f n
  | builder => exact Builder.traverse_pure f g n
  | precedence => exact Precedence.traverse_pure f n
  | operator => exact Operator.traverse_pure f n
  | scope => exact Scope.traverse_pure f g n
  | component => exact Component.traverse_pure f g n
  | pattern => exact Pattern.traverse_pure f g n
  | item => exact Item.traverse_pure f g n
  | expr => exact Form.traverse_pure f g n

/-- The rewritten node that is written out is what a traversal without effects builds. -/
theorem map_eq_rewrite (f : E → E') (g : R → R') (k : Kind) (n : k.Tree E R) :
    k.map f g n = k.rewrite f g n := by
  simp only [map, traverse_pure, Id.run_pure]

/-- Rewriting by functions that do nothing does nothing. -/
theorem rewrite_id (k : Kind) (n : k.Tree E R) : k.rewrite (fun e => e) (fun r => r) n = n := by
  cases k with
  | ref | span | literal => rfl
  | entry => exact Entry.map_id n
  | field => exact Field.map_id n
  | fields => exact Fields.map_id n
  | case => exact Case.map_id n
  | definition => exact Definition.map_id n
  | imported => exact Import.map_id n
  | proof => exact Proof.map_id n
  | truth => exact Truth.map_id n
  | builder => exact Builder.map_id n
  | precedence => exact Precedence.map_id n
  | operator => exact Operator.map_id n
  | scope => exact Scope.map_id n
  | component => exact Component.map_id n
  | pattern => exact Pattern.map_id n
  | item => exact Item.map_id n
  | expr => exact Form.map_id n

/-- Rewriting every slot by what it holds already changes nothing. -/
theorem map_id (k : Kind) (n : k.Tree E R) : k.map id id n = n := by
  rw [map_eq_rewrite]
  exact k.rewrite_id n

end Kind

end SurfaceTree
