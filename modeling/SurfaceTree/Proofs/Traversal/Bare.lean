import SurfaceTree.Proofs.Canonical.Bare
import SurfaceTree.Proofs.Traversal.Deep

namespace SurfaceTree

variable {m : Type → Type} [Monad m] [LawfulMonad m] {E R E' R' S : Type}

section Containers

variable {α β γ δ : Type} {f : α → m β} {f' : γ → m δ} {before : α → γ} {after : β → δ}

/-- If a step can be taken before or after an action on each item, so can it on the list. -/
theorem map_mapM_comm {xs : List α} (each : ∀ x ∈ xs, after <$> f x = f' (before x)) :
    List.map after <$> xs.mapM f = (xs.map before).mapM f' := by
  induction xs with
  | nil => simp only [List.map_nil, List.mapM_nil, map_pure]
  | cons x rest ih =>
    obtain ⟨first, others⟩ := List.forall_mem_cons.mp each
    simp only [List.map_cons, List.mapM_cons, map_bind, map_pure, ← first, ← ih others,
      bind_map_left]

theorem Row.map_traverse_comm {keys : List Name} (row : Row α keys)
    (each : ∀ entry ∈ row.toList, after <$> f entry.2 = f' (before entry.2)) :
    map after <$> row.traverse f = (row.map before).traverse f' := by
  induction row with
  | nil => simp only [map, traverse, map_pure]
  | cons key value rest ih =>
    obtain ⟨first, others⟩ := List.forall_mem_cons.mp each
    simp only [map, traverse, map_bind, map_pure, ← first, ← ih others, bind_map_left]

theorem NameMap.map_traverse_comm (map : NameMap α)
    (each : ∀ entry ∈ map.toList, after <$> f entry.2 = f' (before entry.2)) :
    NameMap.map after <$> map.traverse f = (map.map before).traverse f' := by
  have rows := Row.map_traverse_comm map.row each
  simp only [traverse, NameMap.map, withRow, map_bind, map_pure, ← rows, bind_map_left]

theorem VisibilityTable.map_traverse_comm (table : VisibilityTable α)
    (each : ∀ a ∈ table.values, after <$> f a = f' (before a)) :
    VisibilityTable.map after <$> table.traverse (fun _ => f)
      = (table.map before).traverse fun _ => f' := by
  simp only [values, List.forall_mem_cons] at each
  obtain ⟨hidden, priv, prot, pub, _⟩ := each
  simp only [traverse, map, map_bind, map_pure, ← hidden, ← priv, ← prot, ← pub, bind_map_left]

end Containers

variable (f : E → m E') (g : R → m R')

theorem Pattern.bare_traverse (p : Pattern E R) : bare <$> p.traverse f g = p.bare.traverse f g := by
  induction p using Pattern.induction with
  | alternatives pos choices ih =>
    have parts := map_mapM_comm ih
    simp only [bare, bareAll_eq, traverse, traverseList_eq, map_bind, map_pure, ← parts,
      bind_map_left]
  | construct pos head argument ih =>
    simp only [bare, traverse, map_bind, map_pure, ← ih, bind_map_left]
  | split pos fields strict ih =>
    have parts := Row.map_traverse_comm fields.row ih
    simp only [bare, bareRow_eq, traverse, traverseRow_eq, NameMap.withRow, map_bind, map_pure,
      ← parts, bind_map_left]
  | typed pos pattern type ih =>
    simp only [bare, traverse, map_bind, map_pure, ← ih, bind_map_left]
  | named pos name pattern ih =>
    simp only [bare, traverse, map_bind, map_pure, ← ih, bind_map_left]
  | bind pos name => simp only [bare, traverse, map_pure]
  | literal l => simp only [bare, traverse, map_pure]

theorem Entry.bare_traverse (n : Entry E R) : bare <$> n.traverse f g = n.bare.traverse f g := by
  have pattern := n.pattern.bare_traverse f g
  simp only [bare, traverse, map_bind, map_pure, ← pattern, bind_map_left]

theorem Field.bare_traverse (n : Field E R) : bare <$> n.traverse f g = n.bare.traverse f g := by
  have entry := n.entry.bare_traverse f g
  simp only [bare, traverse, map_bind, map_pure, ← entry, bind_map_left]

theorem Fields.bare_traverse (n : Fields E R) : bare <$> n.traverse f g = n.bare.traverse f g := by
  have fields := Row.map_traverse_comm n.row fun entry _ => entry.2.bare_traverse f g
  simp only [bare, traverse, map_bind, map_pure, ← fields, bind_map_left]

theorem Case.bare_traverse (n : Case E R) : bare <$> n.traverse f g = n.bare.traverse f g := by
  have pattern := n.pattern.bare_traverse f g
  simp only [bare, traverse, map_bind, map_pure, ← pattern, bind_map_left]

theorem Definition.bare_traverse (n : Definition E R) :
    bare <$> n.traverse f g = n.bare.traverse f g := by
  have pattern := n.pattern.bare_traverse f g
  simp only [bare, traverse, map_bind, map_pure, ← pattern, bind_map_left]

theorem Import.bare_traverse (n : Import E) : bare <$> n.traverse f = n.bare.traverse f := by
  simp only [bare, traverse, map_bind, map_pure]

theorem Proof.bare_traverse (n : Proof E R) : bare <$> n.traverse f g = n.bare.traverse f g := by
  simp only [bare, traverse, map_bind, map_pure]

theorem Truth.bare_traverse (n : Truth E) : bare <$> n.traverse f = n.bare.traverse f := by
  simp only [bare, traverse, map_bind, map_pure]

theorem Builder.bare_traverse (n : Builder E R) :
    bare <$> n.traverse f g = n.bare.traverse f g := by
  have params := n.params.bare_traverse f g
  simp only [bare, traverse, map_bind, map_pure, ← params, bind_map_left]

theorem Operator.bare_traverse (n : Operator E) : bare <$> n.traverse f = n.bare.traverse f := by
  simp only [bare, traverse, map_bind, map_pure]

theorem Item.bare_traverse (n : Item E R) : bare <$> n.traverse f g = n.bare.traverse f g := by
  cases n with
  | statement e => simp only [bare, traverse, map_bind, map_pure]
  | declaration d =>
    have definition := d.bare_traverse f g
    simp only [bare, traverse, map_bind, map_pure, ← definition, bind_map_left]

theorem Scope.bare_traverse (n : Scope E R) : bare <$> n.traverse f g = n.bare.traverse f g := by
  have builders := n.builders.map_traverse_comm fun entry _ => entry.2.bare_traverse f g
  have operators := n.operators.map_traverse_comm fun entry _ => entry.2.bare_traverse f
  have truths := n.truths.map_traverse_comm fun entry _ => entry.2.bare_traverse f
  have definitions := n.definitions.map_traverse_comm fun ds _ =>
    map_mapM_comm fun d (_ : d ∈ ds) => d.bare_traverse f g
  have proofs := map_mapM_comm fun p (_ : p ∈ n.proofs) => p.bare_traverse f g
  have imports := map_mapM_comm fun i (_ : i ∈ n.imports) => i.bare_traverse f
  simp only [bare, traverse, map_bind, map_pure, ← builders, ← operators, ← truths, ← definitions,
    ← proofs, ← imports, bind_map_left]

theorem Component.bare_traverse (n : Component E R) :
    bare <$> n.traverse f g = n.bare.traverse f g := by
  have scope := n.scope.bare_traverse f g
  simp only [bare, traverse, map_bind, map_pure, ← scope, bind_map_left]

theorem Form.bare_traverse (n : Form E R) : bare <$> n.traverse f g = n.bare.traverse f g := by
  cases n with
  | block pos items =>
    have parts := map_mapM_comm fun i (_ : i ∈ items) => i.bare_traverse f g
    simp only [bare, traverse, map_bind, map_pure, ← parts, bind_map_left]
  | abstraction pos binder cases =>
    have parts := map_mapM_comm fun c (_ : c ∈ cases) => c.bare_traverse f g
    simp only [bare, traverse, map_bind, map_pure, ← parts, bind_map_left]
  | matching pos scrutinee cases =>
    have parts := map_mapM_comm fun c (_ : c ∈ cases) => c.bare_traverse f g
    simp only [bare, traverse, map_bind, map_pure, ← parts, bind_map_left]
  | recordType pos fields =>
    have fields := fields.bare_traverse f g
    simp only [bare, traverse, map_bind, map_pure, ← fields, bind_map_left]
  | anonymous pos kind supers params body =>
    have params := params.bare_traverse f g
    have body := body.bare_traverse f g
    simp only [bare, traverse, map_bind, map_pure, ← params, ← body, bind_map_left]
  | _ => simp only [bare, traverse, map_bind, map_pure]

/-- The positions of a node are kept by a traversal and have no part in it. -/
theorem Kind.bare_traverse (k : Kind) (n : k.Tree E R) :
    k.bare <$> k.traverse f g n = k.traverse f g (k.bare n) := by
  cases k with
  | ref | span | precedence => exact id_map' _
  | literal => exact map_pure ..
  | entry => exact n.bare_traverse f g
  | field => exact n.bare_traverse f g
  | fields => exact n.bare_traverse f g
  | case => exact n.bare_traverse f g
  | definition => exact n.bare_traverse f g
  | imported => exact n.bare_traverse f
  | proof => exact n.bare_traverse f g
  | truth => exact n.bare_traverse f
  | builder => exact n.bare_traverse f g
  | operator => exact n.bare_traverse f
  | scope => exact n.bare_traverse f g
  | component => exact n.bare_traverse f g
  | pattern => exact n.bare_traverse f g
  | item => exact n.bare_traverse f g
  | expr => exact Form.bare_traverse f g n

theorem Expr.bare_traverseRefs (g : R → m S) (e : Expr R) :
    bare <$> e.traverseRefs g = e.bare.traverseRefs g := by
  let layer (form : Form (m (Expr S)) R) : m (Expr S) := mk <$> form.bare.traverse id g
  have passed {D : Type} (h : D → m (Expr S)) (form : Form D R) :
      layer (form.map h id) = mk <$> Form.bare <$> form.traverse h g := by
    have replaced : (form.map h id).traverse id g = form.traverse h g :=
      Kind.expr.traverse_rewrite h id id g form
    rw [← replaced, Form.bare_traverse]
  have outcome : bare <$> e.traverseRefs g = fold layer e := by
    refine fold_fusion (bare <$> ·) (fun form => ?_) e
    have stripped : Form.map bare id <$> form.traverse id g = form.traverse (bare <$> ·) g := by
      refine (Kind.expr.rewrite_traverse bare id id g form).trans ?_
      simp only [id_map]
      rfl
    simp only [bind_pure_comp, passed, ← stripped, Functor.map_map]
    exact congrArg (· <$> form.traverse id g) (funext bare_mk)
  have source : e.bare.traverseRefs g = fold layer e := by
    refine fold_fusion (traverseRefs g) (fun form => ?_) e
    rw [traverseRefs_mk, passed, Form.bare_traverse]
    rfl
  rw [outcome, source]

theorem Node.bare_eq_rewrite (k : Kind) (n : Node R k) :
    bare k n = k.bare (k.rewrite Expr.bare id n) :=
  congrArg k.bare (k.map_eq_rewrite Expr.bare id n)

/-- The positions in a node, at any depth, have no part in a traversal of its references. -/
theorem Node.bare_traverseRefs (g : R → m S) (k : Kind) (n : Node R k) :
    bare k <$> traverseRefs g k n = traverseRefs g k (bare k n) := by
  have stripped : k.rewrite Expr.bare id <$> traverseRefs g k n
      = k.traverse (fun e => Expr.bare <$> e.traverseRefs g) g n := by
    refine (k.rewrite_traverse Expr.bare id (Expr.traverseRefs g) g n).trans ?_
    simp only [id_map]
  have replaced : traverseRefs g k (k.rewrite Expr.bare id n)
      = k.traverse (fun e => e.bare.traverseRefs g) g n :=
    k.traverse_rewrite Expr.bare id (Expr.traverseRefs g) g n
  have passed := k.bare_traverse (Expr.traverseRefs g) g (k.rewrite Expr.bare id n)
  calc bare k <$> traverseRefs g k n
      = k.bare <$> k.rewrite Expr.bare id <$> traverseRefs g k n := by
        rw [Functor.map_map]
        exact congrArg (· <$> traverseRefs g k n) (funext (bare_eq_rewrite k))
    _ = k.bare <$> traverseRefs g k (k.rewrite Expr.bare id n) := by
        rw [stripped, replaced, funext (Expr.bare_traverseRefs g)]
    _ = traverseRefs g k (bare k n) := by
        rw [bare_eq_rewrite]
        exact passed

section Recording

variable {Q A α : Type} {ask : Q → StateM (List Q) A}
  (records : ∀ q recorded, ((ask q).run recorded).2 = recorded ++ [q])

include records

theorem recorded_mapM (qs recorded : List Q) :
    ((qs.mapM ask).run recorded).2 = recorded ++ qs := by
  induction qs generalizing recorded with
  | nil =>
    rw [List.append_nil]
    rfl
  | cons q rest ih =>
    have first : (((q :: rest).mapM ask).run recorded).2
        = ((rest.mapM ask).run ((ask q).run recorded).2).2 := by
      rw [List.mapM_cons]
      rfl
    rw [first, records, ih, List.append_assoc, List.singleton_append]

/-- A computation in which the answers to recorded questions are seen leaves the list of them. -/
theorem recorded_eq {x : StateM (List Q) α} {view : α → List A} {qs : List Q}
    (viewed : view <$> x = qs.mapM ask) : (x.run []).2 = qs := by
  have seen : ((view <$> x).run []).2 = qs := by rw [viewed, recorded_mapM records, List.nil_append]
  exact seen

end Recording

/-- A node has the same leaves without its positions. -/
theorem Kind.leaves_bare (k : Kind) (n : k.Tree E R) : k.leaves (k.bare n) = k.leaves n := by
  let exp (e : E) : StateM (List (Leaf E R)) Unit := modify (· ++ [.exp e])
  let ref (r : R) : StateM (List (Leaf E R)) Unit := modify (· ++ [.ref r])
  have records (leaf : Leaf E R) (recorded : List (Leaf E R)) :
      ((leaf.traverse exp ref).run recorded).2 = recorded ++ [leaf] := by cases leaf <;> rfl
  have met (n : k.Tree E R) : ((k.traverse exp ref n).run []).2 = k.leaves n :=
    recorded_eq records (k.leaves_traverse exp ref n)
  rw [← met, ← met, ← k.bare_traverse]
  rfl

namespace Node

/-- A node has the same references without its positions, at every depth. -/
theorem refs_bare (k : Kind) (n : Node R k) : refs k (bare k n) = refs k n := by
  let ask (r : R) : StateM (List R) Unit := modify (· ++ [r])
  have met (n : Node R k) : ((traverseRefs ask k n).run []).2 = refs k n :=
    recorded_eq (fun _ _ => rfl) (refs_traverseRefs ask k n)
  rw [← met, ← met, ← bare_traverseRefs]
  rfl

theorem leaves_bare (k : Kind) (n : Node R k) :
    k.leaves (bare k n) = (k.leaves n).map (Leaf.map Expr.bare id) := by
  rw [bare, k.leaves_bare, k.leaves_map]

end Node

theorem Expr.refs_bare (e : Expr R) : e.bare.refs = e.refs := by
  obtain ⟨form⟩ := e
  have stripped : (mk form).bare = mk (Node.bare .expr form) := by
    rw [bare_mk, Node.bare_eq_rewrite]
    rfl
  rw [stripped, refs_mk, refs_mk, Node.refs_bare]

namespace Pattern

theorem bindersOfRow_eq {keys : List Name} (row : Row (Pattern E R) keys) :
    bindersOfRow row = row.toList.flatMap fun entry => entry.2.binders := by
  induction row with
  | nil => rfl
  | cons key p rest ih => rw [bindersOfRow, ih, Row.toList, List.flatMap_cons]

theorem binders_split (pos : Span) (fields : NameMap (Pattern E R)) (strict : Bool) :
    (split pos fields strict).binders = fields.toList.flatMap fun entry => entry.2.binders := by
  rw [binders, bindersOfRow_eq]
  rfl

/-- What a pattern binds depends neither on positions nor on what its slots hold. -/
theorem binders_bare_map (f : E → E') (g : R → R') (p : Pattern E R) :
    (p.map f g).bare.binders = p.binders := by
  induction p using Pattern.induction with
  | alternatives pos choices ih =>
    cases choices with
    | nil => rfl
    | cons first rest => exact ih first (List.mem_cons_self ..)
  | construct pos head argument ih => exact ih
  | split pos fields strict ih =>
    rw [map_split, bare_split, binders_split, binders_split, NameMap.toList_map,
      NameMap.toList_map, List.flatMap_map, List.flatMap_map]
    exact List.flatMap_congr ih
  | typed pos pattern type ih => exact ih
  | named pos name pattern ih => exact congrArg (name :: ·) ih
  | bind pos name => rfl
  | literal l => rfl

end Pattern

/-- Two attempts that have come to values which are alike, or to the same error. -/
inductive EndAlike {ε α : Type} (alike : α → α → Prop) : Except ε α → Except ε α → Prop where
  | ok {a b : α} (values : alike a b) : EndAlike alike (.ok a) (.ok b)
  | error (e : ε) : EndAlike alike (.error e) (.error e)

theorem EndAlike.of_map_eq {ε α β : Type} {view : α → β} {alike : α → α → Prop}
    (told : ∀ a b, view a = view b → alike a b) {x y : Except ε α}
    (same : view <$> x = view <$> y) : EndAlike alike x y := by
  cases x with
  | error e =>
    cases y with
    | error e' =>
      cases same
      exact .error e
    | ok b => cases same
  | ok a =>
    cases y with
    | error e' => cases same
    | ok b => exact .ok (told a b (Except.ok.inj same))

/-- Leaves that are equal: expressions but for positions, and references altogether. -/
inductive Leaf.Same [Reference R] : Leaf (Expr R) R → Leaf (Expr R) R → Prop where
  | exp {e e' : Expr R} (same : Expr.compare e e' = .eq) : Same (.exp e) (.exp e')
  | ref (r : R) : Same (.ref r) (.ref r)

section Equal

variable [Reference R] [LawfulReference R]

theorem Expr.bare_eq_of_compare {a b : Expr R} (same : compare a b = .eq) : a.bare = b.bare := by
  rw [compare_eq_key, Key.compare_eq_iff] at same
  exact bare_eq_of_key_eq same

theorem Expr.compare_of_bare_eq {a b : Expr R} (same : a.bare = b.bare) : compare a b = .eq := by
  rw [compare_eq_key, Key.compare_eq_iff, ← a.key_bare, same, key_bare]

theorem Node.same_of_bare_eq {k : Kind} {a b : Node R k} (equal : bare k a = bare k b) :
    same k a b := by
  rw [same_iff_key_eq, ← key_bare k a, equal, key_bare]

theorem Leaf.same_of_map_eq {leaf leaf' : Leaf (Expr R) R}
    (equal : leaf.map Expr.bare id = leaf'.map Expr.bare id) : leaf.Same leaf' := by
  cases leaf with
  | exp e =>
    cases leaf' with
    | exp e' => exact .exp (Expr.compare_of_bare_eq (Leaf.exp.inj equal))
    | ref r' => cases equal
  | ref r =>
    cases leaf' with
    | exp e' => cases equal
    | ref r' =>
      cases equal
      exact .ref r

/-- Traversals respect canonical equality. Equal nodes have equal leaves in the same order and the
same references at every depth, and equal patterns bind the same names. What references are
rewritten to is equal as well, and if this can fail, it fails for both nodes and with the same
error. So it is for expressions. -/
theorem Node.traversal_eq_of_same :
    (∀ (k : Kind) (a b : Node R k), same k a b →
      List.Forall₂ Leaf.Same (k.leaves a) (k.leaves b) ∧ refs k a = refs k b ∧
      ∀ (S : Type) [Reference S] [LawfulReference S],
        (∀ f : R → S, same k (mapRefs f k a) (mapRefs f k b)) ∧
        ∀ (ε : Type) (f : R → Except ε S),
          EndAlike (fun t t' => same k t t') (traverseRefs f k a) (traverseRefs f k b)) ∧
    (∀ a b : Node R .pattern, same .pattern a b → Pattern.binders a = Pattern.binders b) ∧
    ∀ a b : Expr R, Expr.compare a b = .eq → a.refs = b.refs ∧
      ∀ (S : Type) [Reference S] [LawfulReference S],
        (∀ f : R → S, Expr.compare (a.mapRefs f) (b.mapRefs f) = .eq) ∧
        ∀ (ε : Type) (f : R → Except ε S),
          EndAlike (fun t t' => Expr.compare t t' = .eq) (a.traverseRefs f) (b.traverseRefs f) := by
  refine ⟨fun k a b same => ?_, fun a b same => ?_, fun a b same => ?_⟩
  · have equal : bare k a = bare k b := bare_eq_of_key_eq k ((same_iff_key_eq k).mp same)
    have outcomes {m : Type → Type} [Monad m] [LawfulMonad m] {S : Type} (f : R → m S) :
        bare k <$> traverseRefs f k a = bare k <$> traverseRefs f k b := by
      rw [bare_traverseRefs, equal, bare_traverseRefs]
    refine ⟨?_, ?_, fun S _ _ => ⟨fun f => ?_, fun ε f => ?_⟩⟩
    · have listed : (k.leaves a).map (Leaf.map Expr.bare id)
          = (k.leaves b).map (Leaf.map Expr.bare id) := by
        rw [← leaves_bare, equal, leaves_bare]
      rw [← List.forall₂_eq_eq_eq, List.forall₂_map_left_iff, List.forall₂_map_right_iff] at listed
      exact listed.imp fun _ _ => Leaf.same_of_map_eq
    · rw [← refs_bare, equal, refs_bare]
    · exact same_of_bare_eq (outcomes (m := Id) f)
    · exact .of_map_eq (fun _ _ => same_of_bare_eq) (outcomes f)
  · have equal : bare .pattern a = bare .pattern b :=
      bare_eq_of_key_eq .pattern ((same_iff_key_eq .pattern).mp same)
    rw [bare_eq_rewrite, bare_eq_rewrite] at equal
    have bound := congrArg Pattern.binders equal
    exact (Pattern.binders_bare_map _ _ a).symm.trans (bound.trans (Pattern.binders_bare_map _ _ b))
  · have equal : a.bare = b.bare := Expr.bare_eq_of_compare same
    have outcomes {m : Type → Type} [Monad m] [LawfulMonad m] {S : Type} (f : R → m S) :
        Expr.bare <$> a.traverseRefs f = Expr.bare <$> b.traverseRefs f := by
      rw [Expr.bare_traverseRefs, equal, Expr.bare_traverseRefs]
    refine ⟨?_, fun S _ _ => ⟨fun f => ?_, fun ε f => ?_⟩⟩
    · rw [← a.refs_bare, equal, b.refs_bare]
    · exact Expr.compare_of_bare_eq (outcomes (m := Id) f)
    · exact .of_map_eq (fun _ _ => Expr.compare_of_bare_eq) (outcomes f)

end Equal

/-- A split pattern of two parts, bound in either order and at different places, of which the type
of the one refers to a name that is not found. -/
theorem Node.traversal_eq_of_same_split :
    let one (start : UInt32) : Pattern (Expr Name) Name :=
      .typed ⟨start, start⟩ (.bind ⟨start, start⟩ ⟨5⟩) (.mk (.reference ⟨start, start⟩ ⟨7⟩))
    let two (start : UInt32) : Pattern (Expr Name) Name := .bind ⟨start, start⟩ ⟨6⟩
    let a : Node Name .pattern := .split ⟨0, 9⟩ (.ofList [(⟨1⟩, one 2), (⟨2⟩, two 3)]) true
    let b : Node Name .pattern := .split ⟨4, 5⟩ (.ofList [(⟨2⟩, two 8), (⟨1⟩, one 6)]) true
    let resolve (name : Name) : Except Name Symbol :=
      if name = ⟨7⟩ then .error name else .ok ⟨⟨0⟩, name⟩
    List.Forall₂ Leaf.Same (Kind.pattern.leaves a) (Kind.pattern.leaves b) ∧
      refs .pattern a = refs .pattern b ∧ Pattern.binders a = Pattern.binders b ∧
      same .pattern (mapRefs (Symbol.mk ⟨3⟩) .pattern a) (mapRefs (Symbol.mk ⟨3⟩) .pattern b) ∧
      EndAlike (fun t t' => same .pattern t t') (traverseRefs resolve .pattern a)
        (traverseRefs resolve .pattern b) := by
  intro one two a b resolve
  have same : same .pattern a b := by decide
  obtain ⟨nodes, patterns, -⟩ := traversal_eq_of_same (R := Name)
  obtain ⟨leaves, refs, outcomes⟩ := nodes .pattern a b same
  obtain ⟨rewritten, attempted⟩ := outcomes Symbol
  exact ⟨leaves, refs, patterns a b same, rewritten _, attempted _ resolve⟩

end SurfaceTree
