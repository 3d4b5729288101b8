import SurfaceTree.Proofs.Traversal.Refill

namespace SurfaceTree

namespace Form

variable {E R E' R' E'' R'' : Type}

theorem leaves_map (f : E → E') (g : R → R') (n : Form E R) :
    (n.map f g).leaves = n.leaves.map (Leaf.map f g) := by
  have kind := Kind.expr.leaves_map f g n
  rwa [Kind.map_eq_rewrite] at kind

/-- Rewriting twice is rewriting once. -/
theorem map_map (f : E → E') (g : R → R') (f' : E' → E'') (g' : R' → R'') (n : Form E R) :
    (n.map f g).map f' g' = n.map (f' ∘ f) (g' ∘ g) := by
  have kind := Kind.expr.map_map f g f' g' n
  rwa [Kind.map_eq_rewrite, Kind.map_eq_rewrite, Kind.map_eq_rewrite] at kind

/-- A rewriting is determined by what it does to the leaves. -/
theorem map_congr {f f' : E → E'} {g g' : R → R'} (n : Form E R)
    (same : ∀ leaf ∈ n.leaves, leaf.map f g = leaf.map f' g') : n.map f g = n.map f' g' := by
  have kind := Kind.expr.map_congr n same
  rwa [Kind.map_eq_rewrite, Kind.map_eq_rewrite] at kind

end Form

namespace Expr

variable {α β R : Type} (value : Form α R → α)

@[simp] theorem foldList_eq (es : List (Expr R)) : foldList value es = es.map (fold value) := by
  induction es with
  | nil => rfl
  | cons e rest ih => simp only [foldList, ih, List.map_cons]

@[simp] theorem foldOption_eq (e : Option (Expr R)) : foldOption value e = e.map (fold value) := by
  cases e <;> rfl

@[simp] theorem foldRow_eq {keys : List Name} (row : Row (Expr R) keys) :
    foldRow value row = row.map (fold value) := by
  induction row with
  | nil => rfl
  | cons key e rest ih => simp only [foldRow, ih, Row.map]

theorem foldPatterns_eq {ps : List (Pattern (Expr R) R)}
    (parts : ∀ p ∈ ps, foldPattern value p = p.map (fold value) id) :
    foldPatterns value ps = ps.map (Pattern.map (fold value) id) := by
  induction ps with
  | nil => rfl
  | cons p rest ih =>
    obtain ⟨first, others⟩ := List.forall_mem_cons.mp parts
    simp only [foldPatterns, first, ih others, List.map_cons]

theorem foldPatternRow_eq {keys : List Name} {row : Row (Pattern (Expr R) R) keys}
    (parts : ∀ entry ∈ row.toList, foldPattern value entry.2 = entry.2.map (fold value) id) :
    foldPatternRow value row = row.map (Pattern.map (fold value) id) := by
  induction row with
  | nil => rfl
  | cons key p rest ih =>
    obtain ⟨first, others⟩ := List.forall_mem_cons.mp parts
    simp only [foldPatternRow, first, ih others, Row.map]

@[simp] theorem foldPattern_eq (p : Pattern (Expr R) R) :
    foldPattern value p = p.map (fold value) id := by
  induction p using Pattern.induction with
  | alternatives pos choices ih =>
    simp only [foldPattern, foldPatterns_eq value ih, Pattern.map, Pattern.mapAll_eq]
  | construct pos head argument ih => simp only [foldPattern, ih, Pattern.map, id]
  | split pos fields strict ih =>
    obtain ⟨keys, ascending, row⟩ := fields
    simp only [foldPattern, Pattern.map, Pattern.mapRow_eq, NameMap.withRow]
    rw [foldPatternRow_eq value ih]
  | typed pos pattern type ih => simp only [foldPattern, ih, Pattern.map]
  | named pos name pattern ih => simp only [foldPattern, ih, Pattern.map]
  | bind pos name => rfl
  | literal l => rfl

@[simp] theorem foldEntry_eq (n : Entry (Expr R) R) : foldEntry value n = n.map (fold value) id := by
  cases n
  simp only [foldEntry, foldPattern_eq, Entry.map]

@[simp] theorem foldField_eq (n : Field (Expr R) R) : foldField value n = n.map (fold value) id := by
  cases n
  simp only [foldField, foldEntry_eq, foldOption_eq, Field.map]

@[simp] theorem foldFieldRow_eq {keys : List Name} (row : Row (Field (Expr R) R) keys) :
    foldFieldRow value row = row.map (Field.map (fold value) id) := by
  induction row with
  | nil => rfl
  | cons key f rest ih => simp only [foldFieldRow, foldField_eq, ih, Row.map]

@[simp] theorem foldFields_eq (n : Fields (Expr R) R) :
    foldFields value n = n.map (fold value) id := by
  cases n
  simp only [foldFields, foldFieldRow_eq, Fields.map]

@[simp] theorem foldCase_eq (n : Case (Expr R) R) : foldCase value n = n.map (fold value) id := by
  cases n
  simp only [foldCase, foldPattern_eq, Case.map]

@[simp] theorem foldCases_eq (cs : List (Case (Expr R) R)) :
    foldCases value cs = cs.map (Case.map (fold value) id) := by
  induction cs with
  | nil => rfl
  | cons c rest ih => simp only [foldCases, foldCase_eq, ih, List.map_cons]

@[simp] theorem foldDefinition_eq (n : Definition (Expr R) R) :
    foldDefinition value n = n.map (fold value) id := by
  cases n
  simp only [foldDefinition, foldPattern_eq, foldOption_eq, Definition.map]

@[simp] theorem foldDefinitions_eq (ds : List (Definition (Expr R) R)) :
    foldDefinitions value ds = ds.map (Definition.map (fold value) id) := by
  induction ds with
  | nil => rfl
  | cons d rest ih => simp only [foldDefinitions, foldDefinition_eq, ih, List.map_cons]

@[simp] theorem foldItem_eq (n : Item (Expr R) R) : foldItem value n = n.map (fold value) id := by
  cases n <;> simp only [foldItem, foldDefinition_eq, Item.map]

@[simp] theorem foldItems_eq (is : List (Item (Expr R) R)) :
    foldItems value is = is.map (Item.map (fold value) id) := by
  induction is with
  | nil => rfl
  | cons i rest ih => simp only [foldItems, foldItem_eq, ih, List.map_cons]

@[simp] theorem foldBuilder_eq (n : Builder (Expr R) R) :
    foldBuilder value n = n.map (fold value) id := by
  cases n
  simp only [foldBuilder, foldFields_eq, foldList_eq, Builder.map]

@[simp] theorem foldBuilderRow_eq {keys : List Name} (row : Row (Builder (Expr R) R) keys) :
    foldBuilderRow value row = row.map (Builder.map (fold value) id) := by
  induction row with
  | nil => rfl
  | cons key b rest ih => simp only [foldBuilderRow, foldBuilder_eq, ih, Row.map]

@[simp] theorem foldPrecedences_eq (ps : List (Precedence (Expr R))) :
    foldPrecedences value ps = ps.map (Precedence.map (fold value)) := by
  induction ps with
  | nil => rfl
  | cons p rest ih =>
    cases p
    simp only [foldPrecedences, foldPrecedence, ih, List.map_cons, Precedence.map]

@[simp] theorem foldOperatorRow_eq {keys : List Name} (row : Row (Operator (Expr R)) keys) :
    foldOperatorRow value row = row.map (Operator.map (fold value)) := by
  induction row with
  | nil => rfl
  | cons key o rest ih =>
    cases o
    simp only [foldOperatorRow, foldOperator, foldPrecedences_eq, ih, Row.map, Operator.map]

@[simp] theorem foldTruthRow_eq {keys : List Name} (row : Row (Truth (Expr R)) keys) :
    foldTruthRow value row = row.map (Truth.map (fold value)) := by
  induction row with
  | nil => rfl
  | cons key t rest ih =>
    cases t
    simp only [foldTruthRow, foldTruth, foldOption_eq, ih, Row.map, Truth.map]

@[simp] theorem foldProofs_eq (ps : List (Proof (Expr R) R)) :
    foldProofs value ps = ps.map (Proof.map (fold value) id) := by
  induction ps with
  | nil => rfl
  | cons p rest ih =>
    cases p
    simp only [foldProofs, foldProof, ih, List.map_cons, Proof.map, id]

@[simp] theorem foldImports_eq (is : List (Import (Expr R))) :
    foldImports value is = is.map (Import.map (fold value)) := by
  induction is with
  | nil => rfl
  | cons i rest ih =>
    cases i
    simp only [foldImports, foldImport, ih, List.map_cons, Import.map]

@[simp] theorem foldScope_eq (n : Scope (Expr R) R) : foldScope value n = n.map (fold value) id := by
  obtain ⟨pos, id, ⟨_, _, builders⟩, ⟨_, _, operators⟩, ⟨_, _, truths⟩, ⟨_, _, _, _⟩, proofs,
    imports⟩ := n
  simp only [foldScope, foldBuilderRow_eq, foldOperatorRow_eq, foldTruthRow_eq, foldDefinitions_eq,
    foldProofs_eq, foldImports_eq, Scope.map, NameMap.map,
    NameMap.withRow, VisibilityTable.map]

/-- The subexpressions of a form have their values in its slots. -/
theorem foldForm_eq (form : Form (Expr R) R) : foldForm value form = form.map (fold value) id := by
  cases form with
  | record pos fields =>
    obtain ⟨keys, ascending, row⟩ := fields
    simp only [foldForm, foldRow_eq, Form.map, NameMap.map, NameMap.withRow]
  | _ => simp only [foldForm, foldList_eq, foldItems_eq, foldCases_eq, foldFields_eq, foldScope_eq,
      Form.map, id]

/-- The value of an expression is that of its form with values in place of its subexpressions. -/
theorem fold_mk (form : Form (Expr R) R) :
    fold value (.mk form) = value (form.map (fold value) id) := by
  rw [fold, foldForm_eq]

/-- The largest of the heights in the slots. -/
def tallest : List (Leaf Nat R) → Nat
  | [] => 0
  | .exp height :: rest => Nat.max height (tallest rest)
  | .ref _ :: rest => tallest rest

theorem le_tallest {height : Nat} {leaves : List (Leaf Nat R)} (member : .exp height ∈ leaves) :
    height ≤ tallest leaves := by
  induction leaves with
  | nil => cases member
  | cons first rest ih =>
    rcases List.mem_cons.mp member with rfl | later
    · exact Nat.le_max_left ..
    · cases first with
      | exp other => exact Nat.le_trans (ih later) (Nat.le_max_right ..)
      | ref r => exact ih later

/-- How deep expressions are nested in an expression. -/
def height : Expr R → Nat := fold fun form => tallest form.leaves + 1

/-- A subexpression is less high than what it is in. -/
theorem height_lt {form : Form (Expr R) R} {e : Expr R} (member : .exp e ∈ form.leaves) :
    e.height < (mk form).height := by
  have listed : .exp e.height ∈ (form.map height id).leaves := by
    rw [Form.leaves_map]
    exact List.mem_map.mpr ⟨.exp e, member, rfl⟩
  rw [height, fold_mk]
  exact Nat.lt_succ_of_le (le_tallest listed)

/-- What holds of an expression if it holds of its subexpressions holds of all expressions. -/
theorem induction {P : Expr R → Prop}
    (step : ∀ form, (∀ e, .exp e ∈ form.leaves → P e) → P (.mk form)) : ∀ e, P e
  | .mk form => step form fun e _ => induction step e
termination_by e => e.height
decreasing_by exact height_lt ‹_›

/-- What is done to the value of a fold can be done form by form. -/
theorem fold_fusion {value : Form α R → α} {value' : Form β R → β} (h : α → β)
    (commutes : ∀ form, h (value form) = value' (form.map h id)) (e : Expr R) :
    h (fold value e) = fold value' e := by
  induction e using induction with
  | step form ih =>
    rw [fold_mk, fold_mk, commutes, Form.map_map]
    refine congrArg value' (form.map_congr fun leaf member => ?_)
    cases leaf with
    | exp e => exact congrArg Leaf.exp (ih e member)
    | ref r => rfl

end Expr

end SurfaceTree
