import SurfaceTree.Proofs.Canonical.Bare
import SurfaceTree.Proofs.Traversal.Deep

namespace SurfaceTree

variable {R S : Type}

/-- A relabelling of references that keeps them in order. -/
def Increasing [Reference R] [Reference S] (f : R → S) : Prop :=
  ∀ r s, Reference.compare r s = .lt → Reference.compare (f r) (f s) = .lt

section

variable [Reference R] [LawfulReference R] [Reference S] [LawfulReference S]

/-- References compare as equal only if they are. -/
theorem LawfulReference.compare_eq_iff {r s : R} : Reference.compare r s = .eq ↔ r = s := by
  rw [compare_eq_key, Key.compare_eq_iff]
  exact ⟨key_inj, congrArg _⟩

theorem LawfulReference.compare_swap (r s : R) :
    (Reference.compare r s).swap = Reference.compare s r := by
  rw [compare_eq_key, compare_eq_key, Key.compare_swap]

/-- An increasing relabelling keeps how references compare. -/
theorem Increasing.compare_eq {f : R → S} (increasing : Increasing f) (r s : R) :
    Reference.compare (f r) (f s) = Reference.compare r s := by
  cases compared : Reference.compare r s with
  | lt => exact increasing r s compared
  | eq => rw [LawfulReference.compare_eq_iff.mp compared, LawfulReference.compare_eq_iff]
  | gt =>
    have other : Reference.compare s r = .lt := by
      rw [← LawfulReference.compare_swap, compared, Ordering.swap]
    rw [← LawfulReference.compare_swap, increasing s r other, Ordering.swap]

end

/-- Names keep their order when all are taken from one scope. -/
theorem Symbol.increasing_mk (scope : ScopeId) : Increasing fun name => Symbol.mk scope name := by
  intro m n before
  have sameScope : scope.compare scope = .eq := by
    rw [ScopeId.compare_eq_key, Key.compare_eq_iff]
  show (scope.compare scope).then (m.compare n) = .lt
  rw [sameScope]
  exact before

variable (f : R → S)

section

variable [Reference S]

/-- Relabelling a node changes its key as reading its references through the relabelling does. -/
theorem Node.key_mapRefs_of_exps (k : Kind) (n : Node R k)
    (exps : ∀ e, .exp e ∈ k.leaves n → (e.mapRefs f).key = e.keyBy fun r => Reference.key (f r)) :
    key k (mapRefs f k n) = keyBy (fun r => Reference.key (f r)) k n := by
  have layers : k.map Expr.key Reference.key (mapRefs f k n)
      = k.map (fun e => (e.mapRefs f).key) (fun r => Reference.key (f r)) n :=
    k.map_map (Expr.mapRefs f) f Expr.key Reference.key n
  rw [key, layers, keyBy]
  refine congrArg k.key (k.map_congr n fun leaf member => ?_)
  cases leaf with
  | exp e => exact congrArg Leaf.exp (exps e member)
  | ref r => rfl

/-- Relabelling an expression changes its key as reading its references through the relabelling
does. -/
theorem Expr.key_mapRefs (e : Expr R) :
    (e.mapRefs f).key = e.keyBy fun r => Reference.key (f r) := by
  induction e using induction with
  | step form ih =>
    have layer := Node.key_mapRefs_of_exps f .expr form ih
    rw [Node.key, Node.keyBy, Kind.map_eq_rewrite, Kind.map_eq_rewrite] at layer
    rw [mapRefs_mk, key_mk, keyBy_mk]
    exact layer

/-- A relabelled tree has the key in which the keys of the labels stand for the references. -/
theorem Node.key_mapRefs (k : Kind) (n : Node R k) :
    key k (mapRefs f k n) = keyBy (fun r => Reference.key (f r)) k n :=
  key_mapRefs_of_exps f k n fun e _ => e.key_mapRefs f

end

section

variable [Reference S] [LawfulReference S] {f}

theorem Increasing.compare_eq_key [Reference R] [LawfulReference R] (increasing : Increasing f)
    (r s : R) : Reference.compare r s = (Reference.key (f r)).compare (Reference.key (f s)) := by
  rw [← increasing.compare_eq, LawfulReference.compare_eq_key]

theorem key_inj_of_injective (injective : Function.Injective f) (r s : R)
    (same : Reference.key (f r) = Reference.key (f s)) : r = s :=
  injective (LawfulReference.key_inj same)

end

/-- Trees whose references are relabelled compare as they did before if the labels do. As long as
no two references get the same label, no two trees become equal that were not. -/
theorem Node.relabelling_embeds (p q : Phase) (f : p.Ref → q.Ref) :
    (Increasing f →
      (∀ (k : Kind) (a b : Node p.Ref k),
        compare k (mapRefs f k a) (mapRefs f k b) = compare k a b) ∧
      ∀ a b : Expr p.Ref, (a.mapRefs f).compare (b.mapRefs f) = a.compare b) ∧
    (Function.Injective f →
      (∀ (k : Kind) (a b : Node p.Ref k),
        same k (mapRefs f k a) (mapRefs f k b) ↔ same k a b) ∧
      ∀ a b : Expr p.Ref, (a.mapRefs f).compare (b.mapRefs f) = .eq ↔ a.compare b = .eq) := by
  refine ⟨fun increasing => ⟨fun k a b => ?_, fun a b => ?_⟩,
    fun injective => ⟨fun k a b => ?_, fun a b => ?_⟩⟩
  · rw [compare_eq_key, key_mapRefs, key_mapRefs]
    exact (compare_eq_keyBy k increasing.compare_eq_key a b).symm
  · rw [Expr.compare_eq_key, Expr.key_mapRefs, Expr.key_mapRefs]
    exact (Expr.compare_eq_keyBy increasing.compare_eq_key a b).symm
  · rw [same_iff_key_eq, same_iff_key_eq, key_mapRefs, key_mapRefs,
      keyBy_eq_iff (key_inj_of_injective injective)]
    exact (keyBy_eq_iff (fun _ _ => LawfulReference.key_inj) k).symm
  · rw [Expr.compare_eq_key, Expr.compare_eq_key, Key.compare_eq_iff, Key.compare_eq_iff,
      Expr.key_mapRefs, Expr.key_mapRefs, Expr.keyBy_eq_iff (key_inj_of_injective injective)]
    exact (Expr.keyBy_eq_iff fun _ _ => LawfulReference.key_inj).symm

/-- Two patterns that differ in the reference of a constructor, with names taken from one scope. -/
theorem Node.relabelling_embeds_constructs :
    let within (name : Name) : Symbol := ⟨⟨3⟩, name⟩
    let construct (head : UInt32) : Node Name .pattern :=
      .construct .dummy ⟨head⟩ (.bind .dummy ⟨7⟩)
    compare .pattern (mapRefs within .pattern (construct 1)) (mapRefs within .pattern (construct 2))
      = .lt ∧
    same .pattern (mapRefs within .pattern (construct 1)) (mapRefs within .pattern (construct 2))
      = false := by
  intro within construct
  have increasing : Increasing within := Symbol.increasing_mk ⟨3⟩
  have injective : Function.Injective within := fun _ _ alike => congrArg Symbol.name alike
  obtain ⟨ordered, told⟩ := relabelling_embeds .parsed .resolved within
  have before : compare .pattern (construct 1) (construct 2) = .lt := by decide
  have apart : same .pattern (construct 1) (construct 2) = false := by decide
  refine ⟨((ordered increasing).1 .pattern _ _).trans before, ?_⟩
  rw [Bool.eq_false_iff, Ne, (told injective).1 .pattern]
  exact Bool.eq_false_iff.mp apart

end SurfaceTree
