import SurfaceTree.Proofs.Canonical.Node

namespace SurfaceTree

/-- A comparison that orders all values in a row. Values that compare as equal stand at the same
place with respect to all others. -/
structure TotalOrdering {α : Type} (cmp : α → α → Ordering) : Prop where
  refl (a : α) : cmp a a = .eq
  swap (a b : α) : cmp b a = (cmp a b).swap
  trans (a b c : α) : (cmp a b).isLE → (cmp b c).isLE → (cmp a c).isLE
  congr (a b c : α) : cmp a b = .eq → cmp a c = cmp b c

/-- A comparison by keys is total, as that of the keys is. -/
theorem TotalOrdering.of_key {α : Type} {cmp : α → α → Ordering} {key : α → Key}
    (byKey : ∀ a b, cmp a b = (key a).compare (key b)) : TotalOrdering cmp where
  refl a := by rw [byKey, Key.compare_self]
  swap a b := by rw [byKey, byKey, Key.compare_swap]
  trans a b c first second := by
    rw [byKey] at first second ⊢
    exact Std.TransCmp.isLE_trans first second
  congr a b c same := by
    rw [byKey, Key.compare_eq_iff] at same
    rw [byKey, byKey, same]

namespace Node

variable {R : Type} [Reference R] [LawfulReference R]

/-- Nodes whose keys have different tags in front are ordered by the tags. -/
theorem compare_of_tag_ne (k : Kind) {a b : Node R k} {m n : Nat}
    (tagged : (k.key (k.rewrite Expr.key Reference.key a)).Tagged m)
    (tagged' : (k.key (k.rewrite Expr.key Reference.key b)).Tagged n) (different : m ≠ n) :
    compare k a b = Ord.compare m n := by
  rw [compare_eq_key, key, key, Kind.map_eq_rewrite, Kind.map_eq_rewrite]
  exact tagged.compare_of_ne tagged' different

/-- The canonical order is total on the nodes of every kind and on expressions, and nodes of
different variants are ordered by their tags whatever they hold. -/
theorem compare_totalOrdering (p : Phase) :
    (∀ k : Kind, TotalOrdering (compare (R := p.Ref) k)) ∧
      TotalOrdering (Expr.compare (R := p.Ref)) ∧
      (∀ a b : Pattern (Expr p.Ref) p.Ref, a.tag ≠ b.tag →
        compare .pattern a b = Ord.compare a.tag b.tag) ∧
      (∀ a b : Item (Expr p.Ref) p.Ref, a.tag ≠ b.tag →
        compare .item a b = Ord.compare a.tag b.tag) ∧
      (∀ a b : Form (Expr p.Ref) p.Ref, a.tag ≠ b.tag →
        compare .expr a b = Ord.compare a.tag b.tag) ∧
      ∀ a b : Expr p.Ref, a.form.tag ≠ b.form.tag →
        Expr.compare a b = Ord.compare a.form.tag b.form.tag := by
  refine ⟨fun k => .of_key (compare_eq_key k), .of_key Expr.compare_eq_key,
    fun a b => compare_of_tag_ne .pattern a.tagged_key b.tagged_key,
    fun a b => compare_of_tag_ne .item a.tagged_key b.tagged_key,
    fun a b => compare_of_tag_ne .expr a.tagged_key b.tagged_key, ?_⟩
  rintro ⟨form⟩ ⟨form'⟩ different
  rw [Expr.compare_eq_key, Expr.key_mk, Expr.key_mk]
  exact form.tagged_key.compare_of_ne form'.tagged_key different

/-- An empty tuple stands after any run of operands, and a name bound before any literal. -/
theorem compare_totalOrdering_variants :
    Expr.compare (R := Name) (.mk (.tuple .dummy [])) (.mk (.chain .dummy [])) = .gt ∧
      compare (R := Name) .pattern (.bind .dummy ⟨7⟩) (.literal ⟨.dummy, .int 0⟩) = .lt :=
  have total := compare_totalOrdering .parsed
  ⟨total.2.2.2.2.2 (.mk (.tuple .dummy [])) (.mk (.chain .dummy [])) (by decide),
    total.2.2.1 (.bind .dummy ⟨7⟩) (.literal ⟨.dummy, .int 0⟩) (by decide)⟩

end Node

end SurfaceTree
