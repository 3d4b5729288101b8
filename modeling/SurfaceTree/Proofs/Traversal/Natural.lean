import SurfaceTree.Proofs.Traversal.Laws

namespace SurfaceTree

variable {m m' : Type → Type} [Monad m] [Monad m']

/-- A translation of computations with one kind of effects into computations with another, step by
step. -/
structure Translation (m m' : Type → Type) [Monad m] [Monad m'] where
  run {α : Type} : m α → m' α
  run_pure {α : Type} (a : α) : run (pure a) = pure a
  run_bind {α β : Type} (x : m α) (f : α → m β) : run (x >>= f) = run x >>= fun a => run (f a)

variable [LawfulMonad m] [LawfulMonad m']

/-- The translation that leaves computations as they are. -/
def Translation.refl (m : Type → Type) [Monad m] : Translation m m where
  run x := x
  run_pure _ := rfl
  run_bind _ _ := rfl

theorem Translation.run_map (t : Translation m m') {α β : Type} (f : α → β) (x : m α) :
    t.run (f <$> x) = f <$> t.run x := by
  simp only [← bind_pure_comp, t.run_bind, t.run_pure]

section Containers

variable (t : Translation m m') {α β γ δ : Type} {before : α → β} {f : β → m γ} {after : γ → δ}
  {f' : α → m' δ}

theorem mapM_natural {xs : List α} (each : ∀ x ∈ xs, t.run (after <$> f (before x)) = f' x) :
    t.run (List.map after <$> (xs.map before).mapM f) = xs.mapM f' := by
  induction xs with
  | nil => simp only [List.map_nil, List.mapM_nil, map_pure, t.run_pure]
  | cons x rest ih =>
    obtain ⟨first, others⟩ := List.forall_mem_cons.mp each
    simp only [List.map_cons, List.mapM_cons, map_bind, map_pure, t.run_bind, t.run_pure, ← first,
      ← ih others, t.run_map, bind_map_left]

theorem traverseOption_natural (each : ∀ e, t.run (after <$> f (before e)) = f' e) (e : Option α) :
    t.run (Option.map after <$> traverseOption f (e.map before)) = traverseOption f' e := by
  cases e with
  | none => simp only [Option.map_none, traverseOption, map_pure, t.run_pure]
  | some e =>
    simp only [Option.map_some, traverseOption, map_bind, map_pure, t.run_bind, t.run_pure, ← each,
      t.run_map, bind_map_left]

theorem Row.traverse_natural {keys : List Name} (row : Row α keys)
    (each : ∀ entry ∈ row.toList, t.run (after <$> f (before entry.2)) = f' entry.2) :
    t.run (Row.map after <$> (row.map before).traverse f) = row.traverse f' := by
  induction row with
  | nil => simp only [map, traverse, map_pure, t.run_pure]
  | cons key value rest ih =>
    obtain ⟨first, others⟩ := List.forall_mem_cons.mp each
    simp only [map, traverse, map_bind, map_pure, t.run_bind, t.run_pure, ← first, ← ih others,
      t.run_map, bind_map_left]

theorem NameMap.traverse_natural (map : NameMap α)
    (each : ∀ entry ∈ map.toList, t.run (after <$> f (before entry.2)) = f' entry.2) :
    t.run (NameMap.map after <$> (map.map before).traverse f) = map.traverse f' := by
  simp only [traverse, map_bind, map_pure, t.run_bind, t.run_pure,
    ← Row.traverse_natural t map.row each, t.run_map, bind_map_left]
  rfl

theorem VisibilityTable.traverse_natural (table : VisibilityTable α)
    (each : ∀ a ∈ table.values, t.run (after <$> f (before a)) = f' a) :
    t.run (VisibilityTable.map after <$> (table.map before).traverse fun _ => f)
      = table.traverse fun _ => f' := by
  simp only [values, List.forall_mem_cons] at each
  obtain ⟨hidden, priv, prot, pub, _⟩ := each
  simp only [traverse, map, map_bind, map_pure, t.run_bind, t.run_pure, ← hidden, ← priv, ← prot,
    ← pub, t.run_map, bind_map_left]

end Containers

section Nodes

variable (t : Translation m m') {D E E' E'' P R R' R'' : Type} {before : D → E} {f : E → m E'}
  {after : E' → E''} {f' : D → m' E''} {before' : P → R} {g : R → m R'} {after' : R' → R''}
  {g' : P → m' R''} (exps : ∀ e, t.run (after <$> f (before e)) = f' e)
  (refs : ∀ r, t.run (after' <$> g (before' r)) = g' r)

section Both

include exps refs

theorem Pattern.traverse_natural (p : Pattern D P) :
    t.run (map after after' <$> (p.map before before').traverse f g) = p.traverse f' g' := by
  induction p using Pattern.induction with
  | alternatives pos choices ih =>
    simp only [map, traverse, mapAll_eq, traverseList_eq, map_bind, map_pure, t.run_bind,
      t.run_pure, ← mapM_natural t ih, t.run_map, bind_map_left]
  | split pos fields strict ih =>
    simp only [map, traverse, mapRow_eq, traverseRow_eq, map_bind, map_pure, t.run_bind,
      t.run_pure, ← Row.traverse_natural t fields.row ih, t.run_map, bind_map_left,
      NameMap.withRow]
  | construct pos head argument ih =>
    simp only [map, traverse, map_bind, map_pure, t.run_bind, t.run_pure, ← refs, ← ih, t.run_map,
      bind_map_left]
  | typed pos pattern type ih =>
    simp only [map, traverse, map_bind, map_pure, t.run_bind, t.run_pure, ← exps, ← ih, t.run_map,
      bind_map_left]
  | named pos name pattern ih =>
    simp only [map, traverse, map_bind, map_pure, t.run_bind, t.run_pure, ← ih, t.run_map,
      bind_map_left]
  | bind pos name => simp only [map, traverse, map_pure, t.run_pure]
  | literal l => simp only [map, traverse, map_pure, t.run_pure]

theorem Entry.traverse_natural (n : Entry D P) :
    t.run (map after after' <$> (n.map before before').traverse f g) = n.traverse f' g' := by
  simp only [map, traverse, map_bind, map_pure, t.run_bind, t.run_pure, ← n.pattern.traverse_natural
    t exps refs, t.run_map, bind_map_left]

theorem Field.traverse_natural (n : Field D P) :
    t.run (map after after' <$> (n.map before before').traverse f g) = n.traverse f' g' := by
  simp only [map, traverse, map_bind, map_pure, t.run_bind, t.run_pure, ← n.entry.traverse_natural t
    exps refs, ← traverseOption_natural t exps, t.run_map, bind_map_left]

theorem Fields.traverse_natural (n : Fields D P) :
    t.run (map after after' <$> (n.map before before').traverse f g) = n.traverse f' g' := by
  have fields := Row.traverse_natural t n.row fun entry _ =>
    entry.2.traverse_natural t exps refs
  simp only [map, traverse, map_bind, map_pure, t.run_bind, t.run_pure, ← fields, t.run_map,
    bind_map_left]

theorem Case.traverse_natural (n : Case D P) :
    t.run (map after after' <$> (n.map before before').traverse f g) = n.traverse f' g' := by
  simp only [map, traverse, map_bind, map_pure, t.run_bind, t.run_pure, ← n.pattern.traverse_natural
    t exps refs, ← exps, t.run_map, bind_map_left]

theorem Definition.traverse_natural (n : Definition D P) :
    t.run (map after after' <$> (n.map before before').traverse f g) = n.traverse f' g' := by
  simp only [map, traverse, map_bind, map_pure, t.run_bind, t.run_pure, ← n.pattern.traverse_natural
    t exps refs, ← traverseOption_natural t exps, t.run_map, bind_map_left]

theorem Proof.traverse_natural (n : Proof D P) :
    t.run (map after after' <$> (n.map before before').traverse f g) = n.traverse f' g' := by
  simp only [map, traverse, map_bind, map_pure, t.run_bind, t.run_pure, ← refs, ← exps, t.run_map,
    bind_map_left]

theorem Builder.traverse_natural (n : Builder D P) :
    t.run (map after after' <$> (n.map before before').traverse f g) = n.traverse f' g' := by
  simp only [map, traverse, map_bind, map_pure, t.run_bind, t.run_pure, ← n.params.traverse_natural
    t exps refs, ← mapM_natural t fun e _ => exps e, ← exps, t.run_map, bind_map_left]

end Both

section Exps

include exps

theorem Import.traverse_natural (n : Import D) :
    t.run (map after <$> (n.map before).traverse f) = n.traverse f' := by
  simp only [map, traverse, map_bind, map_pure, t.run_bind, t.run_pure, ← exps, t.run_map,
    bind_map_left]

theorem Truth.traverse_natural (n : Truth D) :
    t.run (map after <$> (n.map before).traverse f) = n.traverse f' := by
  simp only [map, traverse, map_bind, map_pure, t.run_bind, t.run_pure, ← exps, ←
    traverseOption_natural t exps, t.run_map, bind_map_left]

theorem Precedence.traverse_natural (n : Precedence D) :
    t.run (map after <$> (n.map before).traverse f) = n.traverse f' := by
  simp only [map, traverse, map_bind, map_pure, t.run_bind, t.run_pure, ← exps, t.run_map,
    bind_map_left]

theorem Operator.traverse_natural (n : Operator D) :
    t.run (map after <$> (n.map before).traverse f) = n.traverse f' := by
  simp only [map, traverse, map_bind, map_pure, t.run_bind, t.run_pure, ← mapM_natural t fun p _ =>
    Precedence.traverse_natural t exps p, t.run_map, bind_map_left]

end Exps

include exps refs

theorem Item.traverse_natural (n : Item D P) :
    t.run (map after after' <$> (n.map before before').traverse f g) = n.traverse f' g' := by
  cases n with
  | statement e =>
    simp only [map, traverse, map_bind, map_pure, t.run_bind, t.run_pure, ← exps, t.run_map,
      bind_map_left]
  | declaration d =>
    simp only [map, traverse, map_bind, map_pure, t.run_bind, t.run_pure,
      ← d.traverse_natural t exps refs, t.run_map, bind_map_left]

theorem Scope.traverse_natural (n : Scope D P) :
    t.run (map after after' <$> (n.map before before').traverse f g) = n.traverse f' g' := by
  have builders := n.builders.traverse_natural t fun entry _ =>
    entry.2.traverse_natural t exps refs
  have operators := n.operators.traverse_natural t fun entry _ =>
    entry.2.traverse_natural t exps
  have truths := n.truths.traverse_natural t fun entry _ => entry.2.traverse_natural t exps
  have definitions := n.definitions.traverse_natural t fun ds _ =>
    mapM_natural t fun d (_ : d ∈ ds) => d.traverse_natural t exps refs
  have proofs := mapM_natural t fun p (_ : p ∈ n.proofs) => p.traverse_natural t exps refs
  have imports := mapM_natural t fun i (_ : i ∈ n.imports) => i.traverse_natural t exps
  simp only [map, traverse, map_bind, map_pure, t.run_bind, t.run_pure, ← builders, ← operators, ←
    truths, ← definitions, ← proofs, ← imports, t.run_map, bind_map_left]

theorem Component.traverse_natural (n : Component D P) :
    t.run (map after after' <$> (n.map before before').traverse f g) = n.traverse f' g' := by
  simp only [map, traverse, map_bind, map_pure, t.run_bind, t.run_pure, ← n.scope.traverse_natural t
    exps refs, t.run_map, bind_map_left]

theorem Form.traverse_natural (n : Form D P) :
    t.run (map after after' <$> (n.map before before').traverse f g) = n.traverse f' g' := by
  cases n with
  | block pos items =>
    simp only [map, traverse, map_bind, map_pure, t.run_bind, t.run_pure,
      ← mapM_natural t fun i _ => Item.traverse_natural t exps refs i, t.run_map, bind_map_left]
  | abstraction pos binder cases =>
    simp only [map, traverse, map_bind, map_pure, t.run_bind, t.run_pure,
      ← mapM_natural t fun c _ => Case.traverse_natural t exps refs c, t.run_map, bind_map_left]
  | matching pos scrutinee cases =>
    simp only [map, traverse, map_bind, map_pure, t.run_bind, t.run_pure, ← exps,
      ← mapM_natural t fun c _ => Case.traverse_natural t exps refs c, t.run_map, bind_map_left]
  | record pos fields =>
    simp only [map, traverse, map_bind, map_pure, t.run_bind, t.run_pure,
      ← fields.traverse_natural t fun entry _ => exps entry.2, t.run_map, bind_map_left]
  | recordType pos fields =>
    simp only [map, traverse, map_bind, map_pure, t.run_bind, t.run_pure,
      ← fields.traverse_natural t exps refs, t.run_map, bind_map_left]
  | anonymous pos kind supers params body =>
    simp only [map, traverse, map_bind, map_pure, t.run_bind, t.run_pure,
      ← mapM_natural t fun e _ => exps e, ← params.traverse_natural t exps refs,
      ← body.traverse_natural t exps refs, t.run_map, bind_map_left]
  | chain pos items | tuple pos items =>
    simp only [map, traverse, map_bind, map_pure, t.run_bind, t.run_pure,
      ← mapM_natural t fun e _ => exps e, t.run_map, bind_map_left]
  | literal l => simp only [map, traverse, map_pure, t.run_pure]
  | _ =>
    simp only [map, traverse, map_bind, map_pure, t.run_bind, t.run_pure, ← exps, ← refs, t.run_map,
      bind_map_left]

/-- Rewriting before a traversal, rewriting afterwards and translating are done slot by slot. -/
theorem Kind.traverse_natural (k : Kind) (n : k.Tree D P) :
    t.run (k.rewrite after after' <$> k.traverse f g (k.rewrite before before' n))
      = k.traverse f' g' n := by
  cases k with
  | ref => exact refs n
  | span | literal => simp only [rewrite, traverse, map_pure, t.run_pure]
  | entry => exact Entry.traverse_natural t exps refs n
  | field => exact Field.traverse_natural t exps refs n
  | fields => exact Fields.traverse_natural t exps refs n
  | case => exact Case.traverse_natural t exps refs n
  | definition => exact Definition.traverse_natural t exps refs n
  | imported => exact Import.traverse_natural t exps n
  | proof => exact Proof.traverse_natural t exps refs n
  | truth => exact Truth.traverse_natural t exps n
  | builder => exact Builder.traverse_natural t exps refs n
  | precedence => exact Precedence.traverse_natural t exps n
  | operator => exact Operator.traverse_natural t exps n
  | scope => exact Scope.traverse_natural t exps refs n
  | component => exact Component.traverse_natural t exps refs n
  | pattern => exact Pattern.traverse_natural t exps refs n
  | item => exact Item.traverse_natural t exps refs n
  | expr => exact Form.traverse_natural t exps refs n

end Nodes

namespace Kind

variable {E E' E'' R R' R'' : Type}

theorem rewrite_id_eq (k : Kind) :
    (k.rewrite (fun e => e) (fun r => r) : k.Tree E R → k.Tree E R) = id :=
  funext k.rewrite_id

/-- A translated traversal is the traversal with translated functions. -/
theorem translate_traverse (t : Translation m m') (f : E → m E') (g : R → m R') (k : Kind)
    (n : k.Tree E R) :
    t.run (k.traverse f g n) = k.traverse (fun e => t.run (f e)) (fun r => t.run (g r)) n := by
  have natural : t.run (k.rewrite (fun e => e) (fun r => r)
        <$> k.traverse f g (k.rewrite (fun e => e) (fun r => r) n))
      = k.traverse (fun e => t.run (f e)) (fun r => t.run (g r)) n :=
    k.traverse_natural t (fun e => congrArg t.run (id_map' (f e)))
      (fun r => congrArg t.run (id_map' (g r))) n
  simpa only [k.rewrite_id_eq, id_map, id] using natural

/-- Traversing a rewritten node is a traversal of the node itself. -/
theorem traverse_rewrite {D P : Type} (h : D → E) (h' : P → R) (f : E → m E') (g : R → m R')
    (k : Kind) (n : k.Tree D P) :
    k.traverse f g (k.rewrite h h' n) = k.traverse (fun e => f (h e)) (fun r => g (h' r)) n := by
  have natural : k.rewrite (fun e => e) (fun r => r) <$> k.traverse f g (k.rewrite h h' n)
      = k.traverse (fun e => f (h e)) (fun r => g (h' r)) n :=
    k.traverse_natural (.refl m) (fun e => id_map' (f (h e))) (fun r => id_map' (g (h' r))) n
  simpa only [k.rewrite_id_eq, id_map, id] using natural

/-- Rewriting what comes out of a traversal is rewriting what is put into the slots. -/
theorem rewrite_traverse (h : E' → E'') (h' : R' → R'') (f : E → m E') (g : R → m R') (k : Kind)
    (n : k.Tree E R) :
    k.rewrite h h' <$> k.traverse f g n
      = k.traverse (fun e => h <$> f e) (fun r => h' <$> g r) n := by
  have natural : k.rewrite h h' <$> k.traverse f g (k.rewrite (fun e => e) (fun r => r) n)
      = k.traverse (fun e => h <$> f e) (fun r => h' <$> g r) n :=
    k.traverse_natural (.refl m) (fun _ => rfl) (fun _ => rfl) n
  rwa [k.rewrite_id] at natural

theorem map_map (f : E → E') (g : R → R') (f' : E' → E'') (g' : R' → R'') (k : Kind)
    (n : k.Tree E R) : k.map f' g' (k.map f g n) = k.map (f' ∘ f) (g' ∘ g) n := by
  rw [k.map_eq_rewrite f g]
  exact k.traverse_rewrite (m := Id) f g f' g' n

end Kind

end SurfaceTree
