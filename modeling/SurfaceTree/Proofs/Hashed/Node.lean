import SurfaceTree.Proofs.Canonical.Node
import SurfaceTree.Proofs.Codec.RoundTrip
import SurfaceTree.Proofs.Hashed.Alike
import SurfaceTree.Proofs.Hashed.Doc
import SurfaceTree.Proofs.Hashed.Order
import SurfaceTree.Proofs.Hashed.Traverse
import SurfaceTree.Proofs.Hashed.Visit
import SurfaceTree.Proofs.Hashed.Words

namespace SurfaceTree

variable {m : Type → Type} [Monad m] {E R S : Type}

section

variable [Reference R] (h : E → Expr R) (k : Kind)

/-- The element of a layer is that of the node if its slots hold the elements of the expressions. -/
theorem Node.encode_rewrite (n : k.Tree E R) :
    k.toElement (k.rewrite (fun e => (h e).encode) Reference.toElement n)
      = encode k (k.rewrite h id n) := by
  rw [encode, ← k.map_eq_rewrite h, k.map_map, k.map_eq_rewrite]
  rfl

theorem Node.doc?_rewrite (look : Lookups) (n : k.Tree E R) :
    k.doc? look (k.rewrite (fun e => (h e).doc look) (Reference.doc look) n)
      = doc? look k (k.rewrite h id n) := by
  rw [doc?, ← k.map_eq_rewrite h, k.map_map, k.map_eq_rewrite]
  rfl

theorem Node.key_rewrite (n : k.Tree E R) :
    k.key (k.rewrite (fun e => (h e).key) Reference.key n) = key k (k.rewrite h id n) := by
  rw [key, ← k.map_eq_rewrite h, k.map_map, k.map_eq_rewrite]
  rfl

variable [LawfulReference R]

/-- Layers compare as the nodes do if their slots compare as the expressions in them do. -/
theorem Node.compare_rewrite (a b : k.Tree E R) :
    k.compare (fun e e' => (h e).compare (h e')) Reference.compare a b
      = compare k (k.rewrite h id a) (k.rewrite h id b) := by
  have keys := k.compare_rewrite (f := fun e => e) (g := fun r => r)
    (fun e e' => (h e).compare_eq_key (h e')) LawfulReference.compare_eq_key a b
  rw [k.rewrite_id] at keys
  rw [keys, compare_eq_key, key_rewrite, key_rewrite]

theorem Node.words_rewrite (n : k.Tree E R) :
    k.words (fun e => (h e).words) Reference.words n = words k (k.rewrite h id n) := by
  have keys := k.words_rewrite (f := fun e => e) (g := fun r => r) (fun e => (h e).words_eq_key)
    LawfulReference.words_eq_key n
  rw [k.rewrite_id] at keys
  rw [keys, words_eq_key, key_rewrite]

/-- Expressions are compared as their forms are, with the parts compared where they stand. -/
theorem Expr.compare_mk (form form' : Form (Expr R) R) :
    (mk form).compare (mk form') = Node.compare .expr form form' := by
  rw [compare_eq_key, Node.compare_eq_key, key_mk, key_mk, Node.key, Node.key,
    Kind.map_eq_rewrite, Kind.map_eq_rewrite]
  rfl

end

namespace Hashed

section

variable [Reference R]

/-- Canonical order of expressions. -/
def Expr.compare : (depth : Nat) → Expr R depth → Expr R depth → Ordering
  | depth + 1, a, b =>
    Form.compare (Pattern.compare (Expr.compare depth) Reference.compare depth) (Expr.compare depth)
      Reference.compare a b

/-- The words that an expression is fingerprinted through. -/
def Expr.words : (depth : Nat) → Expr R depth → List UInt64
  | depth + 1, form =>
    Form.words (Pattern.words (Expr.words depth) Reference.words depth) (Expr.words depth)
      Reference.words form

/-- The element of an expression. -/
def Expr.encode : (depth : Nat) → Expr R depth → Element
  | depth + 1, form =>
    Form.toElement (Pattern.toElement (Expr.encode depth) Reference.toElement depth)
      (Expr.encode depth) Reference.toElement form

/-- The document of an expression. -/
def Expr.doc (look : Lookups) : (depth : Nat) → Expr R depth → Doc
  | depth + 1, form =>
    Form.doc look (Pattern.doc look (Expr.doc look depth) (Reference.doc look) depth)
      (Expr.doc look depth) (Reference.doc look) form

end

/-- Every reference of an expression, in the order in which it is visited. -/
def Expr.refs : (depth : Nat) → Expr R depth → List R
  | depth + 1, form =>
    Form.visit (Pattern.visit (Expr.refs depth) (fun r => [r]) depth) (Expr.refs depth)
      (fun r => [r]) form

/-- Rewrites every reference of an expression, in the order of a traversal. -/
def Expr.traverseRefs (g : R → m S) : (depth : Nat) → Expr R depth → m (Expr S depth)
  | depth + 1, form =>
    Form.traverse (Pattern.traverse (Expr.traverseRefs g depth) g depth) (Expr.traverseRefs g depth)
      g form

namespace Node

variable {depth : Nat} (k : Kind)

section

variable [Reference R]

/-- Canonical order. -/
def compare (a b : Node R depth k) : Ordering :=
  Tree.compare (Pattern.compare (Expr.compare depth) Reference.compare depth) (Expr.compare depth)
    Reference.compare k a b

/-- The words that a node is fingerprinted through. -/
def words (n : Node R depth k) : List UInt64 :=
  Tree.words (Pattern.words (Expr.words depth) Reference.words depth) (Expr.words depth)
    Reference.words k n

/-- A hash that equal nodes share. -/
def fingerprint (n : Node R depth k) : UInt64 := Fingerprint.ofWords (words k n)

/-- The element of a node. -/
def encode (n : Node R depth k) : Element :=
  Tree.toElement (Pattern.toElement (Expr.encode depth) Reference.toElement depth)
    (Expr.encode depth) Reference.toElement k n

/-- The document of a node of a kind that prints on its own. -/
def doc? (look : Lookups) (n : Node R depth k) : Option Doc :=
  Tree.doc? look (Pattern.doc look (Expr.doc look depth) (Reference.doc look) depth)
    (Expr.doc look depth) (Reference.doc look) k n

/-- The text of a node of a kind that prints on its own. -/
def format? (look : Lookups) (config : LayoutConfig) (n : Node R depth k) :
    Option (Except LayoutOverflow String) :=
  (doc? k look n).map (Doc.render config)

end

/-- The contents of a node's two slots, in the order in which they are visited. -/
def leaves (n : Node R depth k) : List (Leaf (Expr R depth) R) :=
  Tree.visit (Pattern.visit (fun e => [.exp e]) (fun r => [.ref r]) depth) (fun e => [.exp e])
    (fun r => [.ref r]) k n

/-- Rebuilds a node from what becomes of the contents of its slots, in the order in which they are
visited. -/
def traverse (f : Expr R depth → m (Expr S depth)) (g : R → m S) (n : Node R depth k) :
    m (Node S depth k) :=
  Tree.traverse (Pattern.traverse f g depth) f g k n

/-- Every reference of a node at every depth, in the order in which it is visited. -/
def refs (n : Node R depth k) : List R :=
  Tree.visit (Pattern.visit (Expr.refs depth) (fun r => [r]) depth) (Expr.refs depth)
    (fun r => [r]) k n

/-- Rewrites every reference of a node at every depth, in the order of a traversal. -/
def traverseRefs (g : R → m S) (n : Node R depth k) : m (Node S depth k) :=
  traverse k (Expr.traverseRefs g depth) g n

variable {k}

/-- Two nodes compare as their listed forms if the expressions in them do. -/
theorem compare_plain_of_exps [Reference R] [LawfulReference R]
    (exps : ∀ a b : Expr R depth, Expr.compare depth a b = (a.plain depth).compare (b.plain depth))
    (a b : Node R depth k) : compare k a b = SurfaceTree.Node.compare k (plain k a) (plain k b) := by
  rw [compare, Tree.compare_plain (Pattern.compare_plain _ _ depth), plain, plain,
    ← SurfaceTree.Node.compare_rewrite, funext₂ exps]

theorem words_plain_of_exps [Reference R] [LawfulReference R]
    (exps : ∀ e : Expr R depth, e.words depth = (e.plain depth).words) (n : Node R depth k) :
    words k n = SurfaceTree.Node.words k (plain k n) := by
  rw [words, Tree.words_plain (Pattern.words_plain _ _ depth), plain,
    ← SurfaceTree.Node.words_rewrite, funext exps]

theorem encode_plain_of_exps [Reference R]
    (exps : ∀ e : Expr R depth, e.encode depth = (e.plain depth).encode) (n : Node R depth k) :
    encode k n = SurfaceTree.Node.encode k (plain k n) := by
  rw [encode, Tree.toElement_plain (Pattern.toElement_plain _ _ depth), plain,
    ← SurfaceTree.Node.encode_rewrite, funext exps]

theorem doc?_plain_of_exps [Reference R] {look : Lookups}
    (exps : ∀ e : Expr R depth, e.doc look depth = (e.plain depth).doc look) (n : Node R depth k) :
    doc? k look n = SurfaceTree.Node.doc? look k (plain k n) := by
  rw [doc?, Tree.doc?_plain (Pattern.doc_plain look _ _ depth), plain,
    ← SurfaceTree.Node.doc?_rewrite, funext exps]

theorem refs_plain_of_exps (exps : ∀ e : Expr R depth, e.refs depth = (e.plain depth).refs)
    (n : Node R depth k) : refs k n = SurfaceTree.Node.refs k (plain k n) := by
  rw [refs, Tree.visit_plain (Pattern.visit_plain _ _ depth), SurfaceTree.Node.refs_eq, plain,
    ← Kind.map_eq_rewrite, Kind.leaves_map, List.flatMap_map]
  refine List.flatMap_congr fun leaf _ => ?_
  cases leaf with
  | exp e => exact exps e
  | ref r => rfl

/-- The leaves of a listed node are the leaves of the node, each listed. -/
theorem leaves_plain (n : Node R depth k) :
    k.leaves (plain k n) = (leaves k n).map (Leaf.map (Expr.plain depth) id) := by
  rw [leaves, Tree.visit_plain (Pattern.visit_plain _ _ depth), plain, ← Kind.map_eq_rewrite,
    Kind.leaves_map, List.map_flatMap]
  refine List.flatMap_pure_eq_map .. |>.symm.trans (List.flatMap_congr fun leaf _ => ?_)
  cases leaf <;> rfl

/-- Rebuilding a node does what rebuilding its listed form does. -/
theorem traverse_plain [LawfulMonad m] {f : Expr R depth → m (Expr S depth)}
    {f' : SurfaceTree.Expr R → m (SurfaceTree.Expr S)}
    (agree : ∀ e, Expr.plain depth <$> f e = f' (e.plain depth)) (g : R → m S) (n : Node R depth k) :
    plain k <$> traverse k f g n = k.traverse f' g (plain k n) := by
  have layer := Tree.traverse_plain (Pattern.traverse_plain f g depth) k n
  have listed : plain k <$> traverse k f g n
      = k.rewrite (Expr.plain depth) id <$> Tree.plain (Pattern.plain depth) k <$> traverse k f g n :=
    comp_map ..
  rw [listed, traverse, layer, k.rewrite_traverse, plain, k.traverse_rewrite, funext agree]
  simp only [id_map, id]

end Node

namespace Expr

variable {depth : Nat}

/-- Expressions compare as their listed forms do. -/
theorem compare_plain [Reference R] [LawfulReference R] (a b : Expr R depth) :
    compare depth a b = (a.plain depth).compare (b.plain depth) := by
  induction depth with
  | zero => exact nomatch a
  | succ depth ih =>
    exact (Node.compare_plain_of_exps (k := .expr) ih a b).trans (SurfaceTree.Expr.compare_mk ..).symm

/-- The words of an expression are those of its listed form. -/
theorem words_plain [Reference R] [LawfulReference R] (e : Expr R depth) :
    e.words depth = (e.plain depth).words := by
  induction depth with
  | zero => exact nomatch e
  | succ depth ih =>
    exact (Node.words_plain_of_exps (k := .expr) ih e).trans (SurfaceTree.Expr.words_mk _).symm

/-- The element of an expression is that of its listed form. -/
theorem encode_plain [Reference R] (e : Expr R depth) : e.encode depth = (e.plain depth).encode := by
  induction depth with
  | zero => exact nomatch e
  | succ depth ih =>
    rw [plain, SurfaceTree.Expr.encode_mk]
    refine (Node.encode_plain_of_exps (k := .expr) ih e).trans ?_
    rw [SurfaceTree.Node.encode, Kind.map_eq_rewrite]
    rfl

/-- The document of an expression is that of its listed form. -/
theorem doc_plain [Reference R] (look : Lookups) (e : Expr R depth) :
    e.doc look depth = (e.plain depth).doc look := by
  induction depth with
  | zero => exact nomatch e
  | succ depth ih =>
    have layer := Node.doc?_plain_of_exps (k := .expr) ih e
    rw [SurfaceTree.Node.doc?, Kind.map_eq_rewrite] at layer
    rw [plain, SurfaceTree.Expr.doc_mk]
    exact Option.some.inj layer

/-- The references in an expression are those in its listed form, in the same order. -/
theorem refs_plain (e : Expr R depth) : e.refs depth = (e.plain depth).refs := by
  induction depth with
  | zero => exact nomatch e
  | succ depth ih =>
    exact (Node.refs_plain_of_exps (k := .expr) ih e).trans (SurfaceTree.Expr.refs_mk _).symm

/-- Rewriting the references of an expression does what it does to its listed form. -/
theorem traverseRefs_plain [LawfulMonad m] (g : R → m S) (e : Expr R depth) :
    plain depth <$> e.traverseRefs g depth = (e.plain depth).traverseRefs g := by
  induction depth with
  | zero => exact nomatch e
  | succ depth ih =>
    have layer := Node.traverse_plain (k := .expr) ih g e
    rw [plain, SurfaceTree.Expr.traverseRefs_mk]
    refine Eq.trans ?_ (congrArg (SurfaceTree.Expr.mk <$> ·) layer)
    exact comp_map ..

end Expr

end Hashed

end SurfaceTree
