import SurfaceTree.Proofs.Canonical.Order
import SurfaceTree.Proofs.Hashed.Tree

namespace SurfaceTree

namespace Hashed

variable {P E R : Type}

/-- The variant of a pattern by its rank. -/
def PatternForm.tag : PatternForm P E R → Nat
  | .alternatives .. => 0
  | .construct .. => 1
  | .split .. => 2
  | .typed .. => 3
  | .named .. => 4
  | .bind .. => 5
  | .literal .. => 6

def Item.tag : Item P E → Nat
  | .statement _ => 0
  | .declaration _ => 1

/-- The variant of an expression by its rank. -/
def Form.tag : Form P E R → Nat
  | .block .. => 0
  | .abstraction .. => 1
  | .matching .. => 2
  | .ascription .. => 3
  | .chain .. => 4
  | .record .. => 5
  | .recordType .. => 6
  | .tuple .. => 7
  | .projection .. => 8
  | .reference .. => 9
  | .application .. => 10
  | .refinement .. => 11
  | .anonymous .. => 12
  | .literal .. => 13

section Compare

variable (pat : P → P → Ordering) (exp : E → E → Ordering) (ref : R → R → Ordering)

/-- Compares two layers of patterns, and the tables of two splits by their sorted listings. -/
def PatternForm.compare : PatternForm P E R → PatternForm P E R → Ordering
  | .alternatives _ choices, .alternatives _ choices' => compareLists pat choices choices'
  | .construct _ head argument, .construct _ head' argument' =>
    (ref head head').then (pat argument argument')
  | .split _ fields strict, .split _ fields' strict' =>
    (fields.compare pat fields').then (Ord.compare strict strict')
  | .typed _ pattern type, .typed _ pattern' type' => (pat pattern pattern').then (exp type type')
  | .named _ name pattern, .named _ name' pattern' => (name.compare name').then (pat pattern pattern')
  | .bind _ name, .bind _ name' => name.compare name'
  | .literal l, .literal l' => l.compare l'
  | a, b => Ord.compare a.tag b.tag

def Entry.compare (a b : Entry P) : Ordering :=
  (Ord.compare a.implicit b.implicit).then (pat a.pattern b.pattern)

def Field.compare (a b : Field P E) : Ordering :=
  (a.entry.compare pat b.entry).then (compareOptions exp a.default b.default)

/-- Compares the tables of two field lists by their sorted listings, and then the declared
orders. -/
def Fields.compare (a b : Fields P E) : Ordering :=
  (a.bindings.compare (Field.compare pat exp) b.bindings).then
    (compareLists Name.compare a.order b.order)

def Case.compare (a b : Case P E) : Ordering :=
  (pat a.pattern b.pattern).then (exp a.body b.body)

def Definition.compare (a b : Definition P E) : Ordering :=
  (pat a.pattern b.pattern).then (compareOptions exp a.init b.init)

/-- Compares two builders by kind and visibility, and then part by part. -/
def Builder.compare (a b : Builder P E) : Ordering :=
  (Keyword.compare a.kind b.kind).then <| (Keyword.compare a.visibility b.visibility).then <|
    (a.params.compare pat exp b.params).then <| (compareLists exp a.supers b.supers).then
      (exp a.body b.body)

/-- Compares two items, a statement before a declaration. -/
def Item.compare : Item P E → Item P E → Ordering
  | .statement e, .statement e' => exp e e'
  | .declaration d, .declaration d' => d.compare pat exp d'
  | a, b => Ord.compare a.tag b.tag

/-- Compares two scopes, and their namespaces by their sorted listings. -/
def Scope.compare (a b : Scope P E R) : Ordering :=
  (a.id.compare b.id).then <|
  (a.builders.compare (Builder.compare pat exp) b.builders).then <|
  (a.operators.compare (Operator.compare exp) b.operators).then <|
  (a.truths.compare (Truth.compare exp) b.truths).then <|
  (a.definitions.compare (compareLists (Definition.compare pat exp)) b.definitions).then <|
  (compareLists (Proof.compare exp ref) a.proofs b.proofs).then
    (compareLists (Import.compare exp) a.imports b.imports)

def Component.compare (a b : Component P E R) : Ordering :=
  (compareOptions Name.compare a.expected b.expected).then (a.scope.compare pat exp ref b.scope)

/-- Compares two layers of expressions, and the tables of two records by their sorted listings. -/
def Form.compare : Form P E R → Form P E R → Ordering
  | .block _ items, .block _ items' => compareLists (Item.compare pat exp) items items'
  | .abstraction _ binder cases, .abstraction _ binder' cases' =>
    (Keyword.compare binder binder').then (compareLists (Case.compare pat exp) cases cases')
  | .matching _ scrutinee cases, .matching _ scrutinee' cases' =>
    (exp scrutinee scrutinee').then (compareLists (Case.compare pat exp) cases cases')
  | .ascription _ value type, .ascription _ value' type' => (exp value value').then (exp type type')
  | .chain _ items, .chain _ items' | .tuple _ items, .tuple _ items' =>
    compareLists exp items items'
  | .record _ fields, .record _ fields' => fields.compare exp fields'
  | .recordType _ fields, .recordType _ fields' => fields.compare pat exp fields'
  | .projection _ value path, .projection _ value' path' =>
    (exp value value').then (compareLists Name.compare path path')
  | .reference _ target, .reference _ target' => ref target target'
  | .application _ function argument, .application _ function' argument' =>
    (exp function function').then (exp argument argument')
  | .refinement _ value proposition, .refinement _ value' proposition' =>
    (exp value value').then (exp proposition proposition')
  | .anonymous _ kind supers params body, .anonymous _ kind' supers' params' body' =>
    (Keyword.compare kind kind').then <| (compareLists exp supers supers').then <|
      (params.compare pat exp params').then (body.compare pat exp ref body')
  | .literal l, .literal l' => l.compare l'
  | a, b => Ord.compare a.tag b.tag

/-- Compares two layers of nodes of any kind. -/
def Tree.compare : (k : Kind) → Tree P E R k → Tree P E R k → Ordering
  | .ref, a, b => ref a b
  | .span, a, b => Span.compare a b
  | .literal, a, b => Literal.compare a b
  | .entry, a, b => Entry.compare pat a b
  | .field, a, b => Field.compare pat exp a b
  | .fields, a, b => Fields.compare pat exp a b
  | .case, a, b => Case.compare pat exp a b
  | .definition, a, b => Definition.compare pat exp a b
  | .imported, a, b => Import.compare exp a b
  | .proof, a, b => Proof.compare exp ref a b
  | .truth, a, b => Truth.compare exp a b
  | .builder, a, b => Builder.compare pat exp a b
  | .precedence, a, b => Precedence.compare exp a b
  | .operator, a, b => Operator.compare exp a b
  | .scope, a, b => Scope.compare pat exp ref a b
  | .component, a, b => Component.compare pat exp ref a b
  | .pattern, a, b => pat a b
  | .item, a, b => Item.compare pat exp a b
  | .expr, a, b => Form.compare pat exp ref a b

/-- Compares two patterns, with the tables at every depth by their sorted listings. -/
def Pattern.compare : (depth : Nat) → Pattern E R depth → Pattern E R depth → Ordering
  | depth + 1, a, b => PatternForm.compare (Pattern.compare depth) exp ref a b

end Compare

section

variable {pattern : P → SurfaceTree.Pattern E R} {pat : P → P → Ordering}
  {exp : E → E → Ordering} {ref : R → R → Ordering}
  (patterns : ∀ p q, pat p q = (pattern p).compare exp ref (pattern q))

include patterns

/-- Comparing layers of patterns is comparing their listed forms if the slots agree. -/
theorem PatternForm.compare_plain (a b : PatternForm P E R) :
    a.compare pat exp ref b = (a.plain pattern).compare exp ref (b.plain pattern) := by
  cases a with
  | alternatives pos choices =>
    cases b with
    | alternatives pos' choices' =>
      rw [compare, compareLists_map_both patterns]
      exact (Pattern.compareAll_eq ..).symm
    | _ => rfl
  | split pos fields strict =>
    cases b with
    | split pos' fields' strict' =>
      rw [compare, HashTable.compare_plain patterns]
      exact (Pattern.compare_split ..).symm
    | _ => rfl
  | _ => cases b <;> simp only [compare, patterns] <;> rfl

theorem Entry.compare_plain (a b : Entry P) :
    a.compare pat b = (a.plain pattern).compare exp ref (b.plain pattern) := by
  rw [compare, patterns]
  rfl

theorem Field.compare_plain (a b : Field P E) :
    a.compare pat exp b = (a.plain pattern).compare exp ref (b.plain pattern) := by
  rw [compare, Entry.compare_plain patterns]
  rfl

theorem Fields.compare_plain (a b : Fields P E) :
    a.compare pat exp b = (a.plain pattern).compare exp ref (b.plain pattern) := by
  rw [SurfaceTree.Fields.compare, bindings_plain, bindings_plain,
    ← HashTable.compare_plain (Field.compare_plain patterns)]
  rfl

theorem Case.compare_plain (a b : Case P E) :
    a.compare pat exp b = (a.plain pattern).compare exp ref (b.plain pattern) := by
  rw [compare, patterns]
  rfl

theorem Definition.compare_plain (a b : Definition P E) :
    a.compare pat exp b = (a.plain pattern).compare exp ref (b.plain pattern) := by
  rw [compare, patterns]
  rfl

theorem Builder.compare_plain (a b : Builder P E) :
    a.compare pat exp b = (a.plain pattern).compare exp ref (b.plain pattern) := by
  rw [compare, Fields.compare_plain patterns]
  rfl

theorem Item.compare_plain (a b : Item P E) :
    a.compare pat exp b = (a.plain pattern).compare exp ref (b.plain pattern) := by
  cases a with
  | statement e => cases b <;> rfl
  | declaration d =>
    cases b with
    | statement e => rfl
    | declaration d' => exact d.compare_plain patterns d'

theorem Scope.compare_plain (a b : Scope P E R) :
    a.compare pat exp ref b = (a.plain pattern).compare exp ref (b.plain pattern) := by
  have definitions := compareLists_map_both
    (compareLists_map_both (Definition.compare_plain patterns)) a.definitions.values
    b.definitions.values
  rw [compare, HashTable.compare_plain (Builder.compare_plain patterns),
    HashTable.compare_plain (f := fun o => o) (g := fun o => o) (fun _ _ => rfl),
    HashTable.compare_plain (f := fun t => t) (g := fun t => t) (fun _ _ => rfl),
    VisibilityTable.compare, definitions]
  rfl

theorem Component.compare_plain (a b : Component P E R) :
    a.compare pat exp ref b = (a.plain pattern).compare exp ref (b.plain pattern) := by
  rw [compare, Scope.compare_plain patterns]
  rfl

/-- Comparing layers of expressions is comparing their listed forms if the slots agree. -/
theorem Form.compare_plain (a b : Form P E R) :
    a.compare pat exp ref b = (a.plain pattern).compare exp ref (b.plain pattern) := by
  cases a with
  | block pos items =>
    cases b with
    | block pos' items' => exact compareLists_map_both (Item.compare_plain patterns) items items'
    | _ => rfl
  | abstraction pos binder cases =>
    cases b with
    | abstraction pos' binder' cases' =>
      exact congrArg (Ordering.then _)
        (compareLists_map_both (Case.compare_plain patterns) cases cases')
    | _ => rfl
  | matching pos scrutinee cases =>
    cases b with
    | matching pos' scrutinee' cases' =>
      exact congrArg (Ordering.then _)
        (compareLists_map_both (Case.compare_plain patterns) cases cases')
    | _ => rfl
  | record pos fields =>
    cases b with
    | record pos' fields' => exact HashTable.compare_plain (fun _ _ => rfl) fields fields'
    | _ => rfl
  | recordType pos fields =>
    cases b with
    | recordType pos' fields' => exact fields.compare_plain patterns fields'
    | _ => rfl
  | anonymous pos kind supers params body =>
    cases b with
    | anonymous pos' kind' supers' params' body' =>
      rw [compare, params.compare_plain patterns, body.compare_plain patterns]
      rfl
    | _ => rfl
  | _ => cases b <;> rfl

/-- Comparing layers of nodes of any kind is comparing their listed forms if the slots agree. -/
theorem Tree.compare_plain (k : Kind) (a b : Tree P E R k) :
    Tree.compare pat exp ref k a b
      = k.compare exp ref (Tree.plain pattern k a) (Tree.plain pattern k b) := by
  cases k with
  | entry => exact Entry.compare_plain patterns a b
  | field => exact Field.compare_plain patterns a b
  | fields => exact Fields.compare_plain patterns a b
  | case => exact Case.compare_plain patterns a b
  | definition => exact Definition.compare_plain patterns a b
  | builder => exact Builder.compare_plain patterns a b
  | scope => exact Scope.compare_plain patterns a b
  | component => exact Component.compare_plain patterns a b
  | pattern => exact patterns a b
  | item => exact Item.compare_plain patterns a b
  | expr => exact Form.compare_plain patterns a b
  | _ => rfl

end

/-- Comparing patterns is comparing their listed forms at every depth. -/
theorem Pattern.compare_plain (exp : E → E → Ordering) (ref : R → R → Ordering) (depth : Nat)
    (a b : Pattern E R depth) :
    Pattern.compare exp ref depth a b = (a.plain depth).compare exp ref (b.plain depth) := by
  induction depth with
  | zero => exact nomatch a
  | succ depth ih => exact PatternForm.compare_plain ih a b

end Hashed

end SurfaceTree
