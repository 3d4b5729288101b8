import SurfaceTree.Node
import SurfaceTree.Proofs.Canonical.Readable
import SurfaceTree.Proofs.Traversal.Fold

namespace SurfaceTree

/-- References of which the key says all: it determines the reference, its order and its words. -/
class LawfulReference (R : Type) [Reference R] : Prop where
  key_inj {r s : R} : Reference.key r = Reference.key s → r = s
  compare_eq_key (r s : R) : Reference.compare r s = (Reference.key r).compare (Reference.key s)
  words_eq_key (r : R) : Reference.words r = (Reference.key r).words
  splits_key (r s : R) : (Reference.key r).Splits (Reference.key s)

theorem Name.key_inj {a b : Name} (same : a.key = b.key) : a = b :=
  toNat_inj (Key.ofNat_inj same)

theorem ScopeId.key_inj {a b : ScopeId} (same : a.key = b.key) : a = b := by
  cases a; cases b
  exact congrArg mk (UInt32.toNat_inj.mp (Key.ofNat_inj same))

theorem Symbol.key_inj {a b : Symbol} (same : a.key = b.key) : a = b := by
  simp only [key, Key.record.injEq, List.cons.injEq, and_true] at same
  cases a; cases b
  exact congrArg₂ mk (ScopeId.key_inj same.1) (Name.key_inj same.2)

instance : LawfulReference Name where
  key_inj := Name.key_inj
  compare_eq_key := Name.compare_eq_key
  words_eq_key n := n.words_key.symm
  splits_key := Name.splits_key

instance : LawfulReference Symbol where
  key_inj := Symbol.key_inj
  compare_eq_key := Symbol.compare_eq_key
  words_eq_key s := s.words_key.symm
  splits_key := Symbol.splits_key

instance (p : Phase) : LawfulReference p.Ref :=
  match p with
  | .parsed => inferInstanceAs (LawfulReference Name)
  | .resolved => inferInstanceAs (LawfulReference Symbol)

variable {R : Type}

namespace Expr

/-- The key of an expression when other keys stand for its references than their own. -/
def keyBy (keyR : R → Key) : Expr R → Key := fold fun form => (Kind.expr.map id keyR form).key

/-- The key of an expression is that of its form with keys in place of its parts. -/
theorem keyBy_mk (keyR : R → Key) (form : Form (Expr R) R) :
    (mk form).keyBy keyR = (form.map (keyBy keyR) keyR).key := by
  rw [keyBy, fold_mk, Kind.map_eq_rewrite]
  exact congrArg Form.key (form.map_map ..)

/-- Compares the expression of a key with an expression. -/
def compareTo (keyR : R → Key) (k : Key) (other : Expr R) : Ordering := k.compare (other.keyBy keyR)

variable [Reference R]

theorem key_mk (form : Form (Expr R) R) :
    (mk form).key = (form.map key Reference.key).key := keyBy_mk Reference.key form

/-- Expressions are ordered as any keys are in which references are ordered as on their own. -/
theorem compare_eq_keyBy {keyR : R → Key}
    (agree : ∀ r s, Reference.compare r s = (keyR r).compare (keyR s)) (a b : Expr R) :
    compare a b = (a.keyBy keyR).compare (b.keyBy keyR) := by
  have layer (form : Form Key R) (other : Expr R) :
      (form.map (compareTo keyR) id).compare (fun side e => side e) Reference.compare other.form
        = (form.map id keyR).key.compare (other.keyBy keyR) := by
    cases other with
    | mk form' =>
      rw [keyBy_mk]
      exact Form.compare_map (by intros; rfl) agree form form'
  have fused : compareTo keyR (a.keyBy keyR) = compare a :=
    fold_fusion (compareTo keyR) (fun form => by
      rw [Kind.map_eq_rewrite]
      exact funext fun other => (layer form other).symm) a
  exact (congrFun fused b).symm

variable [LawfulReference R]

/-- Two expressions compare as their keys do. -/
theorem compare_eq_key (a b : Expr R) : compare a b = a.key.compare b.key :=
  compare_eq_keyBy LawfulReference.compare_eq_key a b

/-- The words of an expression are those of its key. -/
theorem words_eq_key (e : Expr R) : e.words = e.key.words := by
  have layer (form : Form Key R) :
      (form.map Key.words id).words id Reference.words = (form.map id Reference.key).key.words :=
    Form.words_map (by intros; rfl) LawfulReference.words_eq_key form
  exact (fold_fusion Key.words (fun form => by
    rw [Kind.map_eq_rewrite]
    exact (layer form).symm) e).symm

/-- An expression is written as its form is, with its parts written where they stand. -/
theorem words_mk (form : Form (Expr R) R) :
    (mk form).words = form.words words Reference.words := by
  have written := Form.words_map (f := id) (g := id) words_eq_key LawfulReference.words_eq_key form
  rw [words_eq_key, key_mk, ← written]
  exact congrArg (Form.words words Reference.words) form.map_id

/-- The words of two expressions tell them apart wherever they stand. -/
theorem splits_key (e e' : Expr R) : e.key.Splits e'.key := by
  induction e using induction generalizing e' with
  | step form ih =>
    cases e' with
    | mk form' =>
      rw [key_mk, key_mk]
      refine form.splits_key (fun leaf member => ?_) form'
      cases leaf with
      | exp e => exact ih e member
      | ref r => exact LawfulReference.splits_key r

end Expr

namespace Node

/-- The key of a node when other keys stand for its references than their own. -/
def keyBy (keyR : R → Key) (k : Kind) (n : Node R k) : Key :=
  k.key (k.map (Expr.keyBy keyR) keyR n)

variable [Reference R] (k : Kind)

theorem compare_eq_keyBy {keyR : R → Key}
    (agree : ∀ r s, Reference.compare r s = (keyR r).compare (keyR s)) (a b : Node R k) :
    compare k a b = (keyBy keyR k a).compare (keyBy keyR k b) := by
  have rewritten := k.compare_rewrite (f := id) (g := id) (Expr.compare_eq_keyBy agree) agree a b
  rw [← Kind.map_eq_rewrite, ← Kind.map_eq_rewrite, ← Kind.map_eq_rewrite, Kind.map_id] at rewritten
  exact rewritten

variable [LawfulReference R]

/-- Two nodes compare as their keys do. -/
theorem compare_eq_key (a b : Node R k) : compare k a b = (key k a).compare (key k b) :=
  compare_eq_keyBy k LawfulReference.compare_eq_key a b

/-- The words of a node are those of its key. -/
theorem words_eq_key (n : Node R k) : words k n = (key k n).words := by
  have rewritten := k.words_rewrite (f := id) (g := id) Expr.words_eq_key
    LawfulReference.words_eq_key n
  rw [← Kind.map_eq_rewrite, ← Kind.map_eq_rewrite, Kind.map_id] at rewritten
  exact rewritten

/-- The words of two nodes tell them apart wherever they stand. -/
theorem splits_key (a b : Node R k) : (key k a).Splits (key k b) := by
  refine k.splits_key a (fun leaf _ => ?_) b
  cases leaf with
  | exp e => exact e.splits_key
  | ref r => exact LawfulReference.splits_key r

/-- Nodes are equal when they have the same key. -/
theorem same_iff_key_eq {a b : Node R k} : same k a b ↔ key k a = key k b := by
  rw [same, compare_eq_key, beq_iff_eq, Key.compare_eq_iff]

end Node

end SurfaceTree
