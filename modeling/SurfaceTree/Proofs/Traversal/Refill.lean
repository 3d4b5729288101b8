import SurfaceTree.Proofs.Traversal.Inquiry
import SurfaceTree.Proofs.Traversal.Order

namespace SurfaceTree

variable {m : Type → Type} [Monad m] {E R E' R' E'' R'' : Type}

namespace Leaf

/-- What can be put into the slot of a leaf. -/
@[reducible] def Answer (E' R' : Type) : Leaf E R → Type
  | exp _ => E'
  | ref _ => R'

/-- Asks about a leaf. -/
def answer (f : E → m E') (g : R → m R') : (leaf : Leaf E R) → m (leaf.Answer E' R')
  | exp e => f e
  | ref r => g r

/-- What can be put into the slot of a leaf, given by plain functions. -/
def content (f : E → E') (g : R → R') : (leaf : Leaf E R) → leaf.Answer E' R'
  | exp e => f e
  | ref r => g r

/-- What a slot holds once an answer is put into it. -/
def answered : (leaf : Leaf E R) → leaf.Answer E' R' → Leaf E' R'
  | exp _, e => .exp e
  | ref _, r => .ref r

end Leaf

namespace Kind

/-- A traversal puts the answers to the leaves into the slots, in the same way whatever its
effects. -/
theorem exists_refill (E' R' : Type) (k : Kind) (n : k.Tree E R) :
    ∃ refill : Answers (Leaf.Answer E' R') (k.leaves n) → k.Tree E' R',
      (∀ {m : Type → Type} [Monad m] [LawfulMonad m] (f : E → m E') (g : R → m R'),
        k.traverse f g n = refill <$> answerAll (Leaf.answer f g) (k.leaves n)) ∧
      ∀ (f : E → E') (g : R → R'),
        k.rewrite f g n = refill (.ofFun (Leaf.content f g) (k.leaves n)) := by
  let ask (leaf : Leaf E R) : Inquiry (Leaf.Answer E' R') (leaf.Answer E' R') := .query leaf
  have seen : k.leaves <$> k.traverse (fun e => ask (.exp e)) (fun r => ask (.ref r)) n
      = (k.leaves n).mapM fun leaf => leaf.answered <$> ask leaf := by
    rw [k.leaves_traverse]
    refine congrArg (List.mapM · _) (funext fun leaf => ?_)
    cases leaf <;> rfl
  obtain ⟨refill, refilled⟩ := Inquiry.exists_refill seen
  have traversed {m : Type → Type} [Monad m] [LawfulMonad m] (f : E → m E') (g : R → m R') :
      k.traverse f g n = refill <$> answerAll (Leaf.answer f g) (k.leaves n) := by
    have answered (leaf : Leaf E R) : (ask leaf).answerWith (Leaf.answer f g) = leaf.answer f g :=
      Inquiry.answerWith_query _ leaf
    have carried := k.translate_traverse (Inquiry.translation (Leaf.answer f g))
      (fun e => ask (.exp e)) (fun r => ask (.ref r)) n
    rw [← refilled]
    exact Eq.symm (carried.trans (congrArg₂ (k.traverse · · n)
      (funext fun e => answered (.exp e)) (funext fun r => answered (.ref r))))
  refine ⟨refill, traversed, fun f g => ?_⟩
  have plain : Leaf.answer (m := Id) f g = fun leaf => pure (leaf.content f g) := by
    funext leaf
    cases leaf <;> rfl
  have rewritten := (k.traverse_pure (m := Id) f g n).symm.trans (traversed (m := Id) f g)
  rw [plain, answerAll_pure] at rewritten
  exact rewritten

/-- What a rewriting does depends only on what it does to the leaves. -/
theorem map_congr {f f' : E → E'} {g g' : R → R'} (k : Kind) (n : k.Tree E R)
    (same : ∀ leaf ∈ k.leaves n, leaf.map f g = leaf.map f' g') :
    k.map f g n = k.map f' g' n := by
  obtain ⟨refill, _, rewritten⟩ := k.exists_refill E' R' n
  have contents (leaf : Leaf E R) (member : leaf ∈ k.leaves n) :
      leaf.content f g = leaf.content f' g' := by
    cases leaf with
    | exp e => exact Leaf.exp.inj (same (.exp e) member)
    | ref r => exact Leaf.ref.inj (same (.ref r) member)
  rw [k.map_eq_rewrite, k.map_eq_rewrite, rewritten, rewritten, Answers.ofFun_congr contents]

section Discard

variable [LawfulMonad m] (f : E → m E') (g : R → m R') (k : Kind) (n : k.Tree E R)

/-- If the answers to the leaves are replaced by plain functions of the leaves, only the effects of
a traversal remain. -/
theorem traverse_discard (h : E → E'') (h' : R → R'') :
    k.traverse (fun e => (fun _ => h e) <$> f e) (fun r => (fun _ => h' r) <$> g r) n
      = (fun _ => k.rewrite h h' n) <$> k.traverse f g n := by
  obtain ⟨refill, refilled, rewritten⟩ := k.exists_refill E'' R'' n
  obtain ⟨refill', refilled', _⟩ := k.exists_refill E' R' n
  have discarded : Leaf.answer (fun e => (fun _ => h e) <$> f e) (fun r => (fun _ => h' r) <$> g r)
      = fun leaf => (fun _ => leaf.content h h') <$> leaf.answer f g := by
    funext leaf
    cases leaf <;> rfl
  rw [refilled, discarded, answerAll_discard, refilled', rewritten, Functor.map_map,
    Functor.map_map]

/-- A node with its slots left empty. -/
def shape (k : Kind) (n : k.Tree E R) : k.Tree Unit Unit := k.rewrite (fun _ => ()) (fun _ => ()) n

/-- A traversal keeps the shape of a node. -/
theorem shape_traverse :
    k.shape <$> k.traverse f g n = (fun _ => k.shape n) <$> k.traverse f g n := by
  unfold shape
  rw [k.rewrite_traverse, k.traverse_discard]

end Discard

/-- Takes an expression from a supply of leaves. -/
def takeExp : StateT (List (Leaf E R)) Option E
  | .exp e :: rest => some (e, rest)
  | _ => none

/-- Takes a reference from a supply of leaves. -/
def takeRef : StateT (List (Leaf E R)) Option R
  | .ref r :: rest => some (r, rest)
  | _ => none

theorem run_take (leaf : Leaf E R) (rest : List (Leaf E R)) :
    (leaf.answer (fun _ => takeExp) fun _ => takeRef).run (leaf :: rest)
      = some (leaf.content (fun e => e) fun r => r, rest) := by
  cases leaf <;> rfl

/-- A node is rebuilt from its shape and its leaves. -/
theorem traverse_take (k : Kind) (n : k.Tree E R) :
    (k.traverse (fun _ => takeExp) (fun _ => takeRef) (k.shape n)).run (k.leaves n)
      = some (n, []) := by
  obtain ⟨refill, refilled, rewritten⟩ := k.exists_refill E R n
  have taken := run_answerAll_of_supply run_take (k.leaves n)
  rw [List.map_id'] at taken
  rw [shape, k.traverse_rewrite, refilled, StateT.run_map, taken, Option.map_eq_map,
    Option.map_some, ← rewritten, k.rewrite_id]

/-- Nodes of one shape differ in their leaves. -/
theorem eq_of_leaves {k : Kind} {a b : k.Tree E R} (sameShape : k.shape a = k.shape b)
    (sameLeaves : k.leaves a = k.leaves b) : a = b := by
  have rebuilt := k.traverse_take a
  rw [sameShape, sameLeaves, k.traverse_take b, Option.some.injEq, Prod.mk.injEq] at rebuilt
  exact rebuilt.1.symm

end Kind

end SurfaceTree
