import SurfaceTree.Proofs.Traversal.Attempt
import SurfaceTree.Proofs.Traversal.Fold
import SurfaceTree.Traversal.Deep

namespace SurfaceTree

variable {m m' : Type → Type} [Monad m] [LawfulMonad m] [Monad m'] [LawfulMonad m']
  {R S T σ ε : Type}

theorem Expr.traverseRefs_mk (g : R → m S) (form : Form (Expr R) R) :
    (mk form).traverseRefs g = mk <$> Node.traverseRefs g .expr form := by
  have layer := Kind.expr.traverse_rewrite (traverseRefs g) id id g form
  rw [traverseRefs, fold_mk, bind_pure_comp]
  exact congrArg (mk <$> ·) layer

theorem Node.refs_eq (k : Kind) (n : Node R k) :
    refs k n = (k.leaves n).flatMap (Leaf.elim Expr.refs fun r => [r]) := by
  refine congrArg (List.flatMap · (k.leaves n)) (funext fun leaf => ?_)
  cases leaf <;> rfl

theorem Expr.refs_mk (form : Form (Expr R) R) : (mk form).refs = Node.refs .expr form := by
  rw [Node.refs_eq, refs, fold_mk, Form.leaves_map, List.flatMap_map]
  refine congrArg (List.flatMap · form.leaves) (funext fun leaf => ?_)
  cases leaf <;> rfl

theorem Node.refs_traverseRefs_of_exps {g : R → m S} (k : Kind) (n : Node R k)
    (exps : ∀ e, .exp e ∈ k.leaves n → Expr.refs <$> e.traverseRefs g = e.refs.mapM g) :
    refs k <$> traverseRefs g k n = (refs k n).mapM g := by
  have each (leaf : Leaf (Expr R) R) (member : leaf ∈ k.leaves n) :
      Leaf.elim Expr.refs (fun s => [s]) <$> leaf.traverse (Expr.traverseRefs g) g
        = (Leaf.elim Expr.refs (fun r => [r]) leaf).mapM g := by
    cases leaf with
    | exp e => simpa only [Leaf.traverse, Leaf.elim, Functor.map_map] using exps e member
    | ref r =>
      simp only [Leaf.traverse, Leaf.elim, List.mapM_cons, List.mapM_nil, ← bind_pure_comp,
        bind_assoc, pure_bind]
  have layer := flatMap_mapM _ _ each
  rw [← k.leaves_traverse, Functor.map_map, ← refs_eq] at layer
  rw [← layer]
  exact congrArg (· <$> traverseRefs g k n) (funext (refs_eq k))

theorem Expr.refs_traverseRefs (g : R → m S) (e : Expr R) :
    refs <$> e.traverseRefs g = e.refs.mapM g := by
  induction e using induction with
  | step form ih =>
    rw [traverseRefs_mk, refs_mk, ← Node.refs_traverseRefs_of_exps .expr form ih, Functor.map_map]
    exact congrArg (· <$> Node.traverseRefs g .expr form) (funext refs_mk)

/-- The references of the outcome are the answers to the references, asked in their order. -/
theorem Node.refs_traverseRefs (g : R → m S) (k : Kind) (n : Node R k) :
    refs k <$> traverseRefs g k n = (refs k n).mapM g :=
  refs_traverseRefs_of_exps k n fun e _ => e.refs_traverseRefs g

/-- Plain functions as computations of any kind. -/
def Translation.ofId (m : Type → Type) [Monad m] [LawfulMonad m] : Translation Id m where
  run x := pure x.run
  run_pure _ := rfl
  run_bind x f := (pure_bind x.run fun a => pure (f a).run).symm

namespace Expr

theorem translate_traverseRefs (t : Translation m m') (g : R → m S) (e : Expr R) :
    t.run (e.traverseRefs g) = e.traverseRefs fun r => t.run (g r) := by
  refine fold_fusion t.run (fun form => ?_) e
  have layer := Kind.expr.translate_traverse t id g form
  have layer' := Kind.expr.traverse_rewrite t.run id id (fun r => t.run (g r)) form
  simp only [bind_pure_comp, t.run_map]
  exact congrArg (mk <$> ·) (layer.trans layer'.symm)

theorem mapRefs_mk (h : R → S) (form : Form (Expr R) R) :
    (mk form).mapRefs h = mk (Node.mapRefs h .expr form) := by
  rw [mapRefs, traverseRefs_mk]
  rfl

theorem traverseRefs_mapRefs (h : R → S) (g : S → m T) (e : Expr R) :
    (e.mapRefs h).traverseRefs g = e.traverseRefs fun r => g (h r) := by
  refine fold_fusion (traverseRefs g) (fun form => ?_) e
  have plain := Kind.traverse_pure (m := Id) id h .expr form
  have before := Kind.expr.traverse_rewrite id h (traverseRefs g) g form
  have after := Kind.expr.traverse_rewrite (traverseRefs g) id id (fun r => g (h r)) form
  refine (congrArg (fun form => (mk form).traverseRefs g) plain).trans ?_
  rw [traverseRefs_mk, bind_pure_comp]
  exact congrArg (mk <$> ·) (before.trans after.symm)

theorem mapRefs_traverseRefs (h : S → T) (g : R → m S) (e : Expr R) :
    mapRefs h <$> e.traverseRefs g = e.traverseRefs fun r => h <$> g r := by
  refine fold_fusion (mapRefs h <$> ·) (fun form => ?_) e
  have before := Kind.expr.rewrite_traverse (mapRefs h) h id g form
  have after := Kind.expr.traverse_rewrite (mapRefs h <$> ·) id id (fun r => h <$> g r) form
  have opened (form : Form (Expr S) S) :
      (mk form).mapRefs h = mk (Kind.expr.rewrite (mapRefs h) h form) :=
    (mapRefs_mk h form).trans (congrArg mk (Kind.expr.map_eq_rewrite ..))
  simp only [bind_pure_comp, Functor.map_map, opened]
  rw [← Functor.map_map]
  exact congrArg (mk <$> ·) (before.trans after.symm)

theorem mapRefs_id (e : Expr R) : e.mapRefs id = e := by
  induction e using induction with
  | step form ih =>
    have same : Node.mapRefs id .expr form = Kind.expr.map id id form :=
      Kind.expr.map_congr form fun
        | .exp e, member => congrArg Leaf.exp (ih e member)
        | .ref _, _ => rfl
    rw [mapRefs_mk, same, Kind.map_id]

end Expr

namespace Node

theorem translate_traverseRefs (t : Translation m m') (g : R → m S) (k : Kind) (n : Node R k) :
    t.run (traverseRefs g k n) = traverseRefs (fun r => t.run (g r)) k n := by
  rw [traverseRefs, k.translate_traverse]
  exact congrArg (k.traverse · _ n) (funext (Expr.translate_traverseRefs t g))

theorem traverseRefs_pure (h : R → S) (k : Kind) (n : Node R k) :
    traverseRefs (fun r => (pure (h r) : m S)) k n = pure (mapRefs h k n) :=
  (translate_traverseRefs (.ofId m) (fun r => pure (h r)) k n).symm

theorem traverseRefs_mapRefs (h : R → S) (g : S → m T) (k : Kind) (n : Node R k) :
    traverseRefs g k (mapRefs h k n) = traverseRefs (fun r => g (h r)) k n := by
  have before := k.traverse_rewrite (Expr.mapRefs h) h (Expr.traverseRefs g) g n
  rw [← k.map_eq_rewrite] at before
  refine before.trans ?_
  exact congrArg (k.traverse · _ n) (funext (Expr.traverseRefs_mapRefs h g))

theorem mapRefs_traverseRefs (h : S → T) (g : R → m S) (k : Kind) (n : Node R k) :
    mapRefs h k <$> traverseRefs g k n = traverseRefs (fun r => h <$> g r) k n := by
  have after := k.rewrite_traverse (Expr.mapRefs h) h (Expr.traverseRefs g) g n
  have plain : mapRefs h k = k.rewrite (Expr.mapRefs h) h := funext (k.map_eq_rewrite _ _)
  rw [plain]
  refine after.trans ?_
  exact congrArg (k.traverse · _ n) (funext (Expr.mapRefs_traverseRefs h g))

theorem mapRefs_id (k : Kind) (n : Node R k) : mapRefs id k n = n := by
  have same : Expr.mapRefs (id : R → R) = id := funext Expr.mapRefs_id
  exact (congrArg (k.map · id n) same).trans (k.map_id n)

theorem mapRefs_mapRefs (f : S → T) (g : R → S) (k : Kind) (n : Node R k) :
    mapRefs f k (mapRefs g k n) = mapRefs (f ∘ g) k n :=
  traverseRefs_mapRefs (m := Id) g f k n

theorem refs_mapRefs (h : R → S) (k : Kind) (n : Node R k) :
    refs k (mapRefs h k n) = (refs k n).map h :=
  (refs_traverseRefs (m := Id) h k n).trans (mapM_eq_pure (m := Id) fun _ _ => rfl)

/-- A traversal puts the answers to the references into their places, in the same way whatever its
effects. -/
theorem exists_refill (S : Type) (k : Kind) (n : Node R k) :
    ∃ refill : Answers (fun _ : R => S) (refs k n) → Node S k,
      (∀ {m : Type → Type} [Monad m] [LawfulMonad m] (g : R → m S),
        traverseRefs g k n = refill <$> answerAll g (refs k n)) ∧
      ∀ h : R → S, mapRefs h k n = refill (.ofFun h (refs k n)) := by
  let ask (r : R) : Inquiry (fun _ : R => S) S := .query r
  have seen : refs k <$> traverseRefs ask k n = (refs k n).mapM fun r => id <$> ask r := by
    simp only [refs_traverseRefs, id_map]
  obtain ⟨refill, refilled⟩ := Inquiry.exists_refill seen
  have traversed {m : Type → Type} [Monad m] [LawfulMonad m] (g : R → m S) :
      traverseRefs g k n = refill <$> answerAll g (refs k n) := by
    rw [← refilled]
    refine Eq.symm ((translate_traverseRefs (Inquiry.translation g) ask k n).trans ?_)
    exact congrArg (traverseRefs · k n) (funext (Inquiry.answerWith_query g))
  refine ⟨refill, traversed, fun h => ?_⟩
  exact (traversed (m := Id) h).trans (congrArg refill (answerAll_pure (m := Id) h (refs k n)))

/-- If the answers to the references are replaced by a plain function of the references, only the
effects of a traversal remain. -/
theorem traverseRefs_discard (g : R → m S) (h : R → T) (k : Kind) (n : Node R k) :
    traverseRefs (fun r => (fun _ => h r) <$> g r) k n
      = (fun _ => mapRefs h k n) <$> traverseRefs g k n := by
  obtain ⟨refill, refilled, rewritten⟩ := exists_refill T k n
  obtain ⟨refill', refilled', _⟩ := exists_refill S k n
  rw [refilled, answerAll_discard, refilled', rewritten, Functor.map_map, Functor.map_map]

/-- A node with the places of its references left empty, at every depth. -/
def outline (k : Kind) (n : Node R k) : Node Unit k := mapRefs (fun _ => ()) k n

/-- A traversal of references keeps the outline of a node. -/
theorem outline_traverseRefs (g : R → m S) (k : Kind) (n : Node R k) :
    outline k <$> traverseRefs g k n = (fun _ => outline k n) <$> traverseRefs g k n := by
  unfold outline
  rw [mapRefs_traverseRefs, traverseRefs_discard]

/-- Takes a reference from a supply. -/
def takeRef : StateT (List R) Option R
  | r :: rest => some (r, rest)
  | [] => none

/-- A node is rebuilt from its outline and its references. -/
theorem traverseRefs_take (k : Kind) (n : Node R k) :
    (traverseRefs (fun _ => takeRef) k (outline k n)).run (refs k n) = some (n, []) := by
  obtain ⟨refill, refilled, rewritten⟩ := exists_refill R k n
  have taken : (answerAll (fun _ : R => takeRef) (refs k n)).run ((refs k n).map id)
      = some (.ofFun id (refs k n), []) :=
    run_answerAll_of_supply (fun _ _ => rfl) _
  rw [List.map_id] at taken
  rw [outline, traverseRefs_mapRefs, refilled, StateT.run_map, taken, Option.map_eq_map,
    Option.map_some, ← rewritten, mapRefs_id]

/-- Nodes of one outline differ in their references. -/
theorem eq_of_refs {k : Kind} {a b : Node R k} (sameOutline : outline k a = outline k b)
    (sameRefs : refs k a = refs k b) : a = b := by
  have rebuilt := traverseRefs_take k a
  rw [sameOutline, sameRefs, traverseRefs_take k b, Option.some.injEq, Prod.mk.injEq] at rebuilt
  exact rebuilt.1.symm

/-- Rewriting with functions that do nothing does nothing, rewriting twice is rewriting with the
composed functions, and nothing but the contents of the slots is rewritten. So it is for one layer
and for references at every depth. -/
theorem rewriting_lawful (k : Kind) :
    (∀ (E R : Type) (n : k.Tree E R), k.map id id n = n) ∧
    (∀ (E R E' R' E'' R'' : Type) (f : E' → E'') (f' : R' → R'') (g : E → E') (g' : R → R')
      (n : k.Tree E R), k.map f f' (k.map g g' n) = k.map (f ∘ g) (f' ∘ g') n) ∧
    (∀ (E R E' R' : Type) (f : E → E') (g : R → R') (n : k.Tree E R),
      k.leaves (k.map f g n) = (k.leaves n).map (Leaf.map f g) ∧
        k.shape (k.map f g n) = k.shape n) ∧
    (∀ (R : Type) (n : Node R k), mapRefs id k n = n) ∧
    (∀ (R S T : Type) (f : S → T) (g : R → S) (n : Node R k),
      mapRefs f k (mapRefs g k n) = mapRefs (f ∘ g) k n) ∧
    ∀ (R S : Type) (f : R → S) (n : Node R k),
      refs k (mapRefs f k n) = (refs k n).map f ∧ outline k (mapRefs f k n) = outline k n := by
  refine ⟨fun _ _ => k.map_id, fun _ _ _ _ _ _ f f' g g' => k.map_map g g' f f',
    fun _ _ _ _ f g n => ⟨k.leaves_map f g n, ?_⟩, fun _ => mapRefs_id k,
    fun _ _ _ f g => mapRefs_mapRefs f g k,
    fun _ _ f n => ⟨refs_mapRefs f k n, mapRefs_mapRefs (fun _ => ()) f k n⟩⟩
  have emptied := k.map_map f g (fun _ => ()) (fun _ => ()) n
  rwa [k.map_eq_rewrite, k.map_eq_rewrite (_ ∘ f)] at emptied

theorem foldMap_refs (k : Kind) (n : Node R k) :
    k.foldMap [] (· ++ ·) Expr.refs (fun r => [r]) n = refs k n := by
  rw [k.foldMap_eq_foldl, refs_eq, List.flatMap_eq_foldl]

/-- A traversal of references follows the references, handing the state on from one to the next. It
comes to the node with the answers in place of its references and all else as it was. Traversals,
rewritings and lists of references of a node are those of one layer, with those of expressions in
the slots. -/
theorem traverseRefs_follows_refs (k : Kind) (n : Node R k) :
    (∀ (S σ ε : Type) (f : R → Attempt σ ε S),
      Attempt.Follows f (refs k n)
        (fun answers t => refs k t = answers ∧ outline k t = outline k n)
        (traverseRefs f k n) (traverseRefs (fun r => (f r).noting r) k n)) ∧
    (∀ (S σ ε : Type) (f : R → S),
      traverseRefs (fun r => (pure (f r) : Attempt σ ε S)) k n = pure (mapRefs f k n)) ∧
    (∀ (S : Type) (f : R → S), k.map (Expr.mapRefs f) f n = mapRefs f k n) ∧
    k.foldMap [] (· ++ ·) Expr.refs (fun r => [r]) n = refs k n ∧
    ∀ e : Expr R, e.refs = refs .expr e.form ∧
      (∀ (S : Type) (f : R → S), e.mapRefs f = .mk (mapRefs f .expr e.form)) ∧
      ∀ (S σ ε : Type) (f : R → Attempt σ ε S),
        e.traverseRefs f = .mk <$> traverseRefs f .expr e.form := by
  refine ⟨fun _ _ _ f => ?_, fun _ _ _ f => traverseRefs_pure f k n, fun _ _ => rfl,
    foldMap_refs k n, fun ⟨form⟩ => ⟨Expr.refs_mk form, fun _ f => Expr.mapRefs_mk f form,
      fun _ _ _ f => Expr.traverseRefs_mk f form⟩⟩
  exact Attempt.follows (refs_traverseRefs f k n) (outline_traverseRefs f k n)
    (refs_traverseRefs _ k n) (outline_traverseRefs _ k n)
    fun sameRefs sameOutline => eq_of_refs sameOutline sameRefs

end Node

end SurfaceTree
