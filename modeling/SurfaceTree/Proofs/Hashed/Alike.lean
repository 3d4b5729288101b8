import SurfaceTree.Proofs.Hashed.Tree
import SurfaceTree.Proofs.Traversal.Laws

namespace SurfaceTree

/-- Lists map to the same list if and only if they are alike place by place. -/
theorem map_eq_map_iff_forall₂ {α β : Type} {f : α → β} {alike : α → α → Prop}
    (items : ∀ a b, f a = f b ↔ alike a b) (as bs : List α) :
    as.map f = bs.map f ↔ List.Forall₂ alike as bs := by
  rw [← List.forall₂_eq_eq_eq, List.forall₂_map_left_iff, List.forall₂_map_right_iff]
  simp only [items]

/-- Tables that hold alike values for every visibility. -/
def VisibilityTable.Alike {α : Type} (alike : α → α → Prop) (t t' : VisibilityTable α) : Prop :=
  ∀ v, alike (t.get v) (t'.get v)

/-- Tables map to the same table if and only if they are alike at every visibility. -/
theorem VisibilityTable.map_eq_map_iff {α β : Type} {f : α → β} {alike : α → α → Prop}
    (values : ∀ a b, f a = f b ↔ alike a b) (t t' : VisibilityTable α) :
    t.map f = t'.map f ↔ t.Alike alike t' := by
  rw [map, map, mk.injEq, values, values, values, values]
  constructor
  · rintro ⟨hidden, priv, prot, pub⟩ v
    cases v <;> assumption
  · intro same
    exact ⟨same .hidden, same .priv, same .prot, same .pub⟩

theorem option_map_eq_map_iff {α β : Type} {f : α → β} {alike : α → α → Prop}
    (values : ∀ a b, f a = f b ↔ alike a b) (a b : Option α) :
    a.map f = b.map f ↔ Option.Rel alike a b := by
  cases a <;> cases b <;> simp [values]

variable {P E R E' R' : Type}

/-- Imports at the same place, of the same visibility and of targets that are alike. -/
def Import.Alike (ae : E → E → Prop) (a b : Import E) : Prop :=
  a.pos = b.pos ∧ a.visibility = b.visibility ∧ ae a.target b.target

def Proof.Alike (ae : E → E → Prop) (a b : Proof E R) : Prop :=
  a.pos = b.pos ∧ a.fact = b.fact ∧ ae a.body b.body

/-- Truths at the same place, of the same kind and visibility, with parts that are alike. -/
def Truth.Alike (ae : E → E → Prop) (a b : Truth E) : Prop :=
  a.pos = b.pos ∧ a.kind = b.kind ∧ a.visibility = b.visibility ∧ ae a.prop b.prop ∧
    Option.Rel ae a.proof b.proof

def Precedence.Alike (ae : E → E → Prop) (a b : Precedence E) : Prop :=
  a.relation = b.relation ∧ ae a.operator b.operator

def Operator.Alike (ae : E → E → Prop) (a b : Operator E) : Prop :=
  a.pos = b.pos ∧ a.fixity = b.fixity ∧ List.Forall₂ (Precedence.Alike ae) a.precedence b.precedence

section

variable {exp : E → E'} {ae : E → E → Prop} (exps : ∀ e e', exp e = exp e' ↔ ae e e')

include exps

theorem Import.map_eq_map_iff (a b : Import E) : a.map exp = b.map exp ↔ a.Alike ae b := by
  simp only [map, mk.injEq, exps, Alike]

theorem Truth.map_eq_map_iff (a b : Truth E) : a.map exp = b.map exp ↔ a.Alike ae b := by
  simp only [map, mk.injEq, exps, option_map_eq_map_iff exps, Alike]

theorem Precedence.map_eq_map_iff (a b : Precedence E) : a.map exp = b.map exp ↔ a.Alike ae b := by
  simp only [map, mk.injEq, exps, Alike]

theorem Operator.map_eq_map_iff (a b : Operator E) : a.map exp = b.map exp ↔ a.Alike ae b := by
  simp only [map, mk.injEq, map_eq_map_iff_forall₂ (Precedence.map_eq_map_iff exps), Alike]

theorem Proof.map_eq_map_iff {ref : R → R'} (refs : ∀ r s, ref r = ref s ↔ r = s) (a b : Proof E R) :
    a.map exp ref = b.map exp ref ↔ a.Alike ae b := by
  simp only [map, mk.injEq, refs, exps, Alike]

end

namespace Hashed

section Relations

variable (ap : P → P → Prop) (ae : E → E → Prop)

/-- Two layers of patterns that differ at most in how their tables hold what they bind, given what
patterns and expressions differ at most in that. -/
def PatternForm.Alike : PatternForm P E R → PatternForm P E R → Prop
  | .alternatives pos choices, .alternatives pos' choices' =>
    pos = pos' ∧ List.Forall₂ ap choices choices'
  | .construct pos head argument, .construct pos' head' argument' =>
    pos = pos' ∧ head = head' ∧ ap argument argument'
  | .split pos fields strict, .split pos' fields' strict' =>
    pos = pos' ∧ fields.Alike ap fields' ∧ strict = strict'
  | .typed pos pattern type, .typed pos' pattern' type' =>
    pos = pos' ∧ ap pattern pattern' ∧ ae type type'
  | .named pos name pattern, .named pos' name' pattern' =>
    pos = pos' ∧ name = name' ∧ ap pattern pattern'
  | .bind pos name, .bind pos' name' => pos = pos' ∧ name = name'
  | .literal l, .literal l' => l = l'
  | _, _ => False

/-- Entries at the same place with patterns that are alike. -/
def Entry.Alike (a b : Entry P) : Prop :=
  a.pos = b.pos ∧ a.implicit = b.implicit ∧ ap a.pattern b.pattern

def Field.Alike (a b : Field P E) : Prop :=
  a.pos = b.pos ∧ a.entry.Alike ap b.entry ∧ Option.Rel ae a.default b.default

/-- Field lists that declare the same names in the same order and bind them to alike fields. -/
def Fields.Alike (a b : Fields P E) : Prop :=
  a.bindings.Alike (Field.Alike ap ae) b.bindings ∧ a.order = b.order

def Case.Alike (a b : Case P E) : Prop :=
  a.pos = b.pos ∧ ap a.pattern b.pattern ∧ ae a.body b.body

def Definition.Alike (a b : Definition P E) : Prop :=
  a.pos = b.pos ∧ ap a.pattern b.pattern ∧ Option.Rel ae a.init b.init

/-- Builders that agree in all that is fixed, with parts that are alike. -/
def Builder.Alike (a b : Builder P E) : Prop :=
  a.pos = b.pos ∧ a.kind = b.kind ∧ a.visibility = b.visibility ∧ a.params.Alike ap ae b.params ∧
    List.Forall₂ ae a.supers b.supers ∧ ae a.body b.body

/-- Items of the same variant with parts that are alike. -/
def Item.Alike : Item P E → Item P E → Prop
  | .statement e, .statement e' => ae e e'
  | .declaration d, .declaration d' => d.Alike ap ae d'
  | _, _ => False

/-- Scopes whose namespaces bind the same names to alike entities, and that are alike elsewhere. -/
def Scope.Alike (a b : Scope P E R) : Prop :=
  a.pos = b.pos ∧ a.id = b.id ∧
    a.builders.Alike (Builder.Alike ap ae) b.builders ∧
    a.operators.Alike (Operator.Alike ae) b.operators ∧
    a.truths.Alike (Truth.Alike ae) b.truths ∧
    a.definitions.Alike (List.Forall₂ (Definition.Alike ap ae)) b.definitions ∧
    List.Forall₂ (Proof.Alike ae) a.proofs b.proofs ∧
    List.Forall₂ (Import.Alike ae) a.imports b.imports

def Component.Alike (a b : Component P E R) : Prop :=
  a.expected = b.expected ∧ a.scope.Alike ap ae b.scope

/-- Two layers of expressions that differ at most in how their tables hold what they bind. -/
def Form.Alike : Form P E R → Form P E R → Prop
  | .block pos items, .block pos' items' => pos = pos' ∧ List.Forall₂ (Item.Alike ap ae) items items'
  | .abstraction pos binder cases, .abstraction pos' binder' cases' =>
    pos = pos' ∧ binder = binder' ∧ List.Forall₂ (Case.Alike ap ae) cases cases'
  | .matching pos scrutinee cases, .matching pos' scrutinee' cases' =>
    pos = pos' ∧ ae scrutinee scrutinee' ∧ List.Forall₂ (Case.Alike ap ae) cases cases'
  | .ascription pos value type, .ascription pos' value' type' =>
    pos = pos' ∧ ae value value' ∧ ae type type'
  | .chain pos items, .chain pos' items' => pos = pos' ∧ List.Forall₂ ae items items'
  | .record pos fields, .record pos' fields' => pos = pos' ∧ fields.Alike ae fields'
  | .recordType pos fields, .recordType pos' fields' => pos = pos' ∧ fields.Alike ap ae fields'
  | .tuple pos items, .tuple pos' items' => pos = pos' ∧ List.Forall₂ ae items items'
  | .projection pos value path, .projection pos' value' path' =>
    pos = pos' ∧ ae value value' ∧ path = path'
  | .reference pos target, .reference pos' target' => pos = pos' ∧ target = target'
  | .application pos function argument, .application pos' function' argument' =>
    pos = pos' ∧ ae function function' ∧ ae argument argument'
  | .refinement pos value proposition, .refinement pos' value' proposition' =>
    pos = pos' ∧ ae value value' ∧ ae proposition proposition'
  | .anonymous pos kind supers params body, .anonymous pos' kind' supers' params' body' =>
    pos = pos' ∧ kind = kind' ∧ List.Forall₂ ae supers supers' ∧ params.Alike ap ae params' ∧
      body.Alike ap ae body'
  | .literal l, .literal l' => l = l'
  | _, _ => False

/-- Two layers of nodes that differ at most in how their tables hold what they bind. -/
def Tree.Alike : (k : Kind) → Tree P E R k → Tree P E R k → Prop
  | .ref, a, b => a = b
  | .span, a, b => a = b
  | .literal, a, b => a = b
  | .entry, a, b => Entry.Alike ap a b
  | .field, a, b => Field.Alike ap ae a b
  | .fields, a, b => Fields.Alike ap ae a b
  | .case, a, b => Case.Alike ap ae a b
  | .definition, a, b => Definition.Alike ap ae a b
  | .imported, a, b => Import.Alike ae a b
  | .proof, a, b => Proof.Alike ae a b
  | .truth, a, b => Truth.Alike ae a b
  | .builder, a, b => Builder.Alike ap ae a b
  | .precedence, a, b => Precedence.Alike ae a b
  | .operator, a, b => Operator.Alike ae a b
  | .scope, a, b => Scope.Alike ap ae a b
  | .component, a, b => Component.Alike ap ae a b
  | .pattern, a, b => ap a b
  | .item, a, b => Item.Alike ap ae a b
  | .expr, a, b => Form.Alike ap ae a b

end Relations

/-- Two patterns that differ at most in how their tables hold what they bind, at every depth. -/
def Pattern.Alike (ae : E → E → Prop) : (depth : Nat) → Pattern E R depth → Pattern E R depth → Prop
  | depth + 1, a, b => PatternForm.Alike (Pattern.Alike ae depth) ae a b

/-- Two expressions that differ at most in how their tables hold what they bind, at every depth. -/
def Expr.Alike {R : Type} : (depth : Nat) → Expr R depth → Expr R depth → Prop
  | depth + 1, a, b => Form.Alike (Pattern.Alike (Expr.Alike depth) depth) (Expr.Alike depth) a b

/-- Two nodes that differ at most in how their tables hold what they bind. Wherever the one has a
table, at any depth, the other has one that binds the same names to alike values, in whatever order
the two list their bindings and whatever they were bound to before. -/
def Node.Alike {depth : Nat} (k : Kind) (a b : Node R depth k) : Prop :=
  Tree.Alike (Pattern.Alike (Expr.Alike depth) depth) (Expr.Alike depth) k a b

variable {pattern : P → SurfaceTree.Pattern E R} {exp : E → E'} {ref : R → R'} {ap : P → P → Prop}
  {ae : E → E → Prop}
  (patterns : ∀ p q, (pattern p).map exp ref = (pattern q).map exp ref ↔ ap p q)
  (exps : ∀ e e', exp e = exp e' ↔ ae e e') (refs : ∀ r s, ref r = ref s ↔ r = s)

include patterns

theorem Entry.plain_eq_iff (a b : Entry P) :
    (a.plain pattern).map exp ref = (b.plain pattern).map exp ref ↔ a.Alike ap b := by
  simp only [plain, SurfaceTree.Entry.map, SurfaceTree.Entry.mk.injEq, patterns, Alike]

include exps

theorem Field.plain_eq_iff (a b : Field P E) :
    (a.plain pattern).map exp ref = (b.plain pattern).map exp ref ↔ a.Alike ap ae b := by
  simp only [plain, SurfaceTree.Field.map, SurfaceTree.Field.mk.injEq,
    Entry.plain_eq_iff patterns, option_map_eq_map_iff exps, Alike]

/-- Field lists list the same if and only if they declare the same names in the same order and bind
them to fields that are alike. -/
theorem Fields.plain_eq_iff (a b : Fields P E) :
    (a.plain pattern).map exp ref = (b.plain pattern).map exp ref ↔ a.Alike ap ae b := by
  have bindings (n : Fields P E) : ((n.plain pattern).map exp ref).bindings
      = n.bindings.plain fun field => (field.plain pattern).map exp ref := by
    rw [SurfaceTree.Fields.bindings_map, bindings_plain, HashTable.plain_map]
  rw [Alike, ← HashTable.plain_eq_iff (Field.plain_eq_iff patterns exps), ← bindings, ← bindings]
  refine ⟨fun same => ⟨by rw [same], ?_⟩,
    fun ⟨same, order⟩ => SurfaceTree.Fields.eq_of_bindings_eq same order⟩
  exact congrArg SurfaceTree.Fields.order same

theorem Case.plain_eq_iff (a b : Case P E) :
    (a.plain pattern).map exp ref = (b.plain pattern).map exp ref ↔ a.Alike ap ae b := by
  simp only [plain, SurfaceTree.Case.map, SurfaceTree.Case.mk.injEq, patterns, exps, Alike]

theorem Definition.plain_eq_iff (a b : Definition P E) :
    (a.plain pattern).map exp ref = (b.plain pattern).map exp ref ↔ a.Alike ap ae b := by
  simp only [plain, SurfaceTree.Definition.map, SurfaceTree.Definition.mk.injEq, patterns,
    option_map_eq_map_iff exps, Alike]

theorem Builder.plain_eq_iff (a b : Builder P E) :
    (a.plain pattern).map exp ref = (b.plain pattern).map exp ref ↔ a.Alike ap ae b := by
  simp only [plain, SurfaceTree.Builder.map, SurfaceTree.Builder.mk.injEq, exps,
    Fields.plain_eq_iff patterns exps, map_eq_map_iff_forall₂ exps, Alike]

theorem Item.plain_eq_iff (a b : Item P E) :
    (a.plain pattern).map exp ref = (b.plain pattern).map exp ref ↔ a.Alike ap ae b := by
  cases a <;> cases b <;>
    simp [plain, SurfaceTree.Item.map, exps, Definition.plain_eq_iff patterns exps, Alike]

include refs

/-- Layers of patterns list the same if and only if they are alike. -/
theorem PatternForm.plain_eq_iff (a b : PatternForm P E R) :
    (a.plain pattern).map exp ref = (b.plain pattern).map exp ref ↔ a.Alike ap ae b := by
  have lists := map_eq_map_iff_forall₂ patterns
  have tables := HashTable.plain_eq_iff patterns
  cases a <;> cases b <;>
    simp [plain, SurfaceTree.Pattern.map, Pattern.map_split, HashTable.plain_map, Function.comp_def,
      patterns, exps, refs, lists, tables, Alike]

/-- Scopes list the same if and only if their namespaces bind the same, however they came to it. -/
theorem Scope.plain_eq_iff (a b : Scope P E R) :
    (a.plain pattern).map exp ref = (b.plain pattern).map exp ref ↔ a.Alike ap ae b := by
  have definitions := map_eq_map_iff_forall₂ (Definition.plain_eq_iff patterns exps)
  rw [Alike, ← HashTable.plain_eq_iff (Builder.plain_eq_iff patterns exps),
    ← HashTable.plain_eq_iff (Operator.map_eq_map_iff exps),
    ← HashTable.plain_eq_iff (Truth.map_eq_map_iff exps),
    ← VisibilityTable.map_eq_map_iff definitions,
    ← map_eq_map_iff_forall₂ (Proof.map_eq_map_iff exps refs),
    ← map_eq_map_iff_forall₂ (Import.map_eq_map_iff exps)]
  simp only [plain, SurfaceTree.Scope.map, SurfaceTree.Scope.mk.injEq, HashTable.plain_map,
    VisibilityTable.map_map, Function.comp_def, List.map_map]

theorem Component.plain_eq_iff (a b : Component P E R) :
    (a.plain pattern).map exp ref = (b.plain pattern).map exp ref ↔ a.Alike ap ae b := by
  simp only [plain, SurfaceTree.Component.map, SurfaceTree.Component.mk.injEq,
    Scope.plain_eq_iff patterns exps refs, Alike]

/-- Layers of expressions list the same if and only if they are alike. -/
theorem Form.plain_eq_iff (a b : Form P E R) :
    (a.plain pattern).map exp ref = (b.plain pattern).map exp ref ↔ a.Alike ap ae b := by
  have items := map_eq_map_iff_forall₂ (Item.plain_eq_iff patterns exps)
  have cases := map_eq_map_iff_forall₂ (Case.plain_eq_iff patterns exps)
  have supers := map_eq_map_iff_forall₂ exps
  have records := HashTable.plain_eq_iff exps
  cases a <;> cases b <;>
    simp [plain, SurfaceTree.Form.map, HashTable.plain_map, Function.comp_def, exps, refs, items, cases,
      supers, records, Fields.plain_eq_iff patterns exps, Scope.plain_eq_iff patterns exps refs, Alike]

/-- Layers of nodes of any kind list the same if and only if they are alike. -/
theorem Tree.plain_eq_iff (k : Kind) (a b : Tree P E R k) :
    k.rewrite exp ref (Tree.plain pattern k a) = k.rewrite exp ref (Tree.plain pattern k b)
      ↔ Tree.Alike ap ae k a b := by
  cases k with
  | ref => exact refs a b
  | span => exact Iff.rfl
  | literal => exact Iff.rfl
  | entry => exact Entry.plain_eq_iff patterns a b
  | field => exact Field.plain_eq_iff patterns exps a b
  | fields => exact Fields.plain_eq_iff patterns exps a b
  | case => exact Case.plain_eq_iff patterns exps a b
  | definition => exact Definition.plain_eq_iff patterns exps a b
  | imported => exact Import.map_eq_map_iff exps a b
  | proof => exact Proof.map_eq_map_iff exps refs a b
  | truth => exact Truth.map_eq_map_iff exps a b
  | builder => exact Builder.plain_eq_iff patterns exps a b
  | precedence => exact Precedence.map_eq_map_iff exps a b
  | operator => exact Operator.map_eq_map_iff exps a b
  | scope => exact Scope.plain_eq_iff patterns exps refs a b
  | component => exact Component.plain_eq_iff patterns exps refs a b
  | pattern => exact patterns a b
  | item => exact Item.plain_eq_iff patterns exps a b
  | expr => exact Form.plain_eq_iff patterns exps refs a b

omit patterns

/-- Patterns list the same at every depth if and only if they are alike at every depth. -/
theorem Pattern.plain_eq_iff (depth : Nat) (a b : Pattern E R depth) :
    (a.plain depth).map exp ref = (b.plain depth).map exp ref ↔ Pattern.Alike ae depth a b := by
  induction depth with
  | zero => exact nomatch a
  | succ depth ih => exact PatternForm.plain_eq_iff ih exps refs a b

omit exps refs

/-- Expressions list the same if and only if they are alike at every depth. -/
theorem Expr.plain_eq_iff (depth : Nat) (a b : Expr R depth) :
    a.plain depth = b.plain depth ↔ Expr.Alike depth a b := by
  induction depth with
  | zero => exact nomatch a
  | succ depth ih =>
    rw [plain, plain, SurfaceTree.Expr.mk.injEq]
    exact Form.plain_eq_iff (Pattern.plain_eq_iff ih (fun _ _ => Iff.rfl) depth) ih
      (fun _ _ => Iff.rfl) a b

theorem Expr.alike_refl (depth : Nat) (e : Expr R depth) : Expr.Alike depth e e :=
  (plain_eq_iff depth e e).mp rfl

theorem Pattern.alike_refl {depth : Nat} (nesting : Nat) (p : Pattern (Expr R depth) R nesting) :
    Pattern.Alike (Expr.Alike depth) nesting p p :=
  (plain_eq_iff (Expr.plain_eq_iff depth) (fun r s => show id r = id s ↔ r = s from Iff.rfl) nesting
    p p).mp rfl

/-- Two nodes are listed as the same tree if and only if they differ at most in how their tables
hold what they bind. -/
theorem Node.plain_eq_iff {depth : Nat} (k : Kind) (a b : Node R depth k) :
    Node.plain k a = Node.plain k b ↔ Node.Alike k a b := by
  have exps := Expr.plain_eq_iff (R := R) depth
  exact Tree.plain_eq_iff (Pattern.plain_eq_iff exps (fun _ _ => Iff.rfl) depth) exps
    (fun _ _ => Iff.rfl) k a b

end Hashed

end SurfaceTree
