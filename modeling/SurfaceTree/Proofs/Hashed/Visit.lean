import SurfaceTree.Proofs.Hashed.Tree
import SurfaceTree.Proofs.Traversal.Attempt

namespace SurfaceTree

namespace Hashed

variable {P E R α : Type}

section Visit

variable (pat : P → List α) (exp : E → List α) (ref : R → List α)

/-- What a layer of a pattern shows to a visitor. The table of a split is walked by ascending
name. -/
def PatternForm.visit : PatternForm P E R → List α
  | .alternatives _ choices => choices.flatMap pat
  | .construct _ head argument => ref head ++ pat argument
  | .split _ fields _ => fields.sorted.flatMap fun (_, p) => pat p
  | .typed _ pattern type => pat pattern ++ exp type
  | .named _ _ pattern => pat pattern
  | .bind _ _ => []
  | .literal _ => []

/-- What a field shows to a visitor, its default last. -/
def Field.visit (n : Field P E) : List α := pat n.entry.pattern ++ n.default.toList.flatMap exp

/-- What a field list shows to a visitor, each field looked up in declared order. -/
def Fields.visit (n : Fields P E) : List α := n.listed.flatMap fun (_, f) => f.visit pat exp

def Case.visit (n : Case P E) : List α := pat n.pattern ++ exp n.body

def Definition.visit (n : Definition P E) : List α := pat n.pattern ++ n.init.toList.flatMap exp

def Builder.visit (n : Builder P E) : List α :=
  n.params.visit pat exp ++ n.supers.flatMap exp ++ exp n.body

def Item.visit : Item P E → List α
  | .statement e => exp e
  | .declaration d => d.visit pat exp

/-- What a scope shows to a visitor. Its namespaces are walked by ascending name. -/
def Scope.visit (n : Scope P E R) : List α :=
  n.builders.sorted.flatMap (fun (_, b) => b.visit pat exp)
    ++ n.operators.sorted.flatMap (fun (_, o) => o.leaves.flatMap (Leaf.elim exp ref))
    ++ n.truths.sorted.flatMap (fun (_, t) => t.leaves.flatMap (Leaf.elim exp ref))
    ++ n.definitions.values.flatMap (fun ds => ds.flatMap fun d => d.visit pat exp)
    ++ n.proofs.flatMap (fun p => p.leaves.flatMap (Leaf.elim exp ref))
    ++ n.imports.flatMap (fun i => i.leaves.flatMap (Leaf.elim exp ref))

/-- What a layer of an expression shows to a visitor. The table of a record is walked by ascending
name. -/
def Form.visit : Form P E R → List α
  | .block _ items => items.flatMap fun i => i.visit pat exp
  | .abstraction _ _ cases => cases.flatMap fun c => c.visit pat exp
  | .matching _ scrutinee cases => exp scrutinee ++ cases.flatMap fun c => c.visit pat exp
  | .ascription _ value type => exp value ++ exp type
  | .chain _ items => items.flatMap exp
  | .record _ fields => fields.sorted.flatMap fun (_, e) => exp e
  | .recordType _ fields => fields.visit pat exp
  | .tuple _ items => items.flatMap exp
  | .projection _ value _ => exp value
  | .reference _ target => ref target
  | .application _ function argument => exp function ++ exp argument
  | .refinement _ value proposition => exp value ++ exp proposition
  | .anonymous _ _ supers params body =>
    supers.flatMap exp ++ params.visit pat exp ++ body.visit pat exp ref
  | .literal _ => []

/-- What a layer of a node of any kind shows to a visitor. -/
def Tree.visit : (k : Kind) → Tree P E R k → List α
  | .ref, n => ref n
  | .span, _ => []
  | .literal, _ => []
  | .entry, n => pat (Entry.pattern n)
  | .field, n => Field.visit pat exp n
  | .fields, n => Fields.visit pat exp n
  | .case, n => Case.visit pat exp n
  | .definition, n => Definition.visit pat exp n
  | .imported, n => exp (Import.target n)
  | .proof, n => ref (Proof.fact n) ++ exp (Proof.body n)
  | .truth, n => exp (Truth.prop n) ++ (Truth.proof n).toList.flatMap exp
  | .builder, n => Builder.visit pat exp n
  | .precedence, n => exp (Precedence.operator n)
  | .operator, n => (Operator.precedence n).flatMap fun p => exp p.operator
  | .scope, n => Scope.visit pat exp ref n
  | .component, n => Scope.visit pat exp ref (Component.scope n)
  | .pattern, n => pat n
  | .item, n => Item.visit pat exp n
  | .expr, n => Form.visit pat exp ref n

/-- What a pattern shows to a visitor, with the tables at every depth walked by ascending name. -/
def Pattern.visit : (depth : Nat) → Pattern E R depth → List α
  | depth + 1, p => PatternForm.visit (Pattern.visit depth) exp ref p

end Visit

section

variable {pattern : P → SurfaceTree.Pattern E R} {pat : P → List α} {exp : E → List α}
  {ref : R → List α}
  (patterns : ∀ p, pat p = (pattern p).leaves.flatMap (Leaf.elim exp ref))

theorem leavesOfOption_flatMap (e : Option E) :
    (leavesOfOption e).flatMap (Leaf.elim exp ref) = e.toList.flatMap exp := by
  cases e with
  | none => rfl
  | some e => simp [leavesOfOption, Leaf.elim]

include patterns

/-- A visitor of a layer of a pattern meets what stands at the leaves of its listed form. -/
theorem PatternForm.visit_plain (p : PatternForm P E R) :
    p.visit pat exp ref = (p.plain pattern).leaves.flatMap (Leaf.elim exp ref) := by
  cases p with
  | alternatives pos choices =>
    simp only [visit, plain, SurfaceTree.Pattern.leaves, Pattern.leavesOfList_eq, List.flatMap_map,
      List.flatMap_assoc, ← patterns]
  | split pos fields strict =>
    rw [visit, plain, Pattern.leaves_split, HashTable.toList_plain, List.flatMap_map,
      List.flatMap_assoc]
    simp only [patterns]
  | construct pos head argument =>
    rw [visit, patterns]
    rfl
  | typed pos p type => simp [visit, patterns, plain, SurfaceTree.Pattern.leaves, Leaf.elim]
  | named pos name p => exact patterns p
  | bind pos name => rfl
  | literal l => rfl

theorem Field.visit_plain (n : Field P E) :
    n.visit pat exp = (n.plain pattern).leaves.flatMap (Leaf.elim exp ref) := by
  rw [SurfaceTree.Field.leaves, List.flatMap_append, leavesOfOption_flatMap, visit, patterns]
  rfl

theorem Fields.visit_plain (n : Fields P E) :
    n.visit pat exp = (n.plain pattern).leaves.flatMap (Leaf.elim exp ref) := by
  rw [SurfaceTree.Fields.leaves, toList_plain, List.flatMap_map, List.flatMap_assoc]
  exact List.flatMap_congr fun entry _ => entry.2.visit_plain patterns

theorem Case.visit_plain (n : Case P E) :
    n.visit pat exp = (n.plain pattern).leaves.flatMap (Leaf.elim exp ref) := by
  simp [visit, patterns, plain, SurfaceTree.Case.leaves, Leaf.elim]

theorem Definition.visit_plain (n : Definition P E) :
    n.visit pat exp = (n.plain pattern).leaves.flatMap (Leaf.elim exp ref) := by
  rw [SurfaceTree.Definition.leaves, List.flatMap_append, leavesOfOption_flatMap, visit, patterns]
  rfl

theorem Builder.visit_plain (n : Builder P E) :
    n.visit pat exp = (n.plain pattern).leaves.flatMap (Leaf.elim exp ref) := by
  simp [visit, Fields.visit_plain patterns, plain, SurfaceTree.Builder.leaves, Leaf.elim,
    List.flatMap_map]

theorem Item.visit_plain (n : Item P E) :
    n.visit pat exp = (n.plain pattern).leaves.flatMap (Leaf.elim exp ref) := by
  cases n with
  | statement e => exact (List.append_nil (exp e)).symm
  | declaration d => exact d.visit_plain patterns

theorem Scope.visit_plain (n : Scope P E R) :
    n.visit pat exp ref = (n.plain pattern).leaves.flatMap (Leaf.elim exp ref) := by
  simp only [visit, plain, SurfaceTree.Scope.leaves, List.flatMap_append, HashTable.toList_plain,
    VisibilityTable.values_map, List.flatMap_map, List.flatMap_assoc, Builder.visit_plain patterns,
    Definition.visit_plain patterns]

/-- A visitor of a layer of an expression meets what stands at the leaves of its listed form. -/
theorem Form.visit_plain (n : Form P E R) :
    n.visit pat exp ref = (n.plain pattern).leaves.flatMap (Leaf.elim exp ref) := by
  cases n with
  | block pos items =>
    simp only [visit, plain, SurfaceTree.Form.leaves, List.flatMap_map, List.flatMap_assoc,
      Item.visit_plain patterns]
  | abstraction pos binder cases =>
    simp only [visit, plain, SurfaceTree.Form.leaves, List.flatMap_map, List.flatMap_assoc,
      Case.visit_plain patterns]
  | matching pos scrutinee cases =>
    simp only [visit, plain, SurfaceTree.Form.leaves, List.flatMap_cons, List.flatMap_map,
      List.flatMap_assoc, Case.visit_plain patterns, Leaf.elim]
  | record pos fields =>
    simp only [visit, plain, SurfaceTree.Form.leaves, HashTable.toList_plain, List.flatMap_map,
      Leaf.elim]
  | recordType pos fields => exact fields.visit_plain patterns
  | anonymous pos kind supers params body =>
    simp only [visit, plain, SurfaceTree.Form.leaves, List.flatMap_append, List.flatMap_map,
      Fields.visit_plain patterns, Scope.visit_plain patterns, Leaf.elim]
  | _ => simp [visit, plain, SurfaceTree.Form.leaves, Leaf.elim, List.flatMap_map]

/-- A visitor of a layer of a node of any kind meets what stands at the leaves of its listed
form. -/
theorem Tree.visit_plain (k : Kind) (n : Tree P E R k) :
    Tree.visit pat exp ref k n = (k.leaves (Tree.plain pattern k n)).flatMap (Leaf.elim exp ref) := by
  cases k with
  | ref => exact (List.append_nil (ref n)).symm
  | span => rfl
  | literal => rfl
  | entry => exact patterns (Entry.pattern n)
  | field => exact Field.visit_plain patterns n
  | fields => exact Fields.visit_plain patterns n
  | case => exact Case.visit_plain patterns n
  | definition => exact Definition.visit_plain patterns n
  | imported => exact (List.append_nil (exp n.target)).symm
  | proof => exact congrArg _ (List.append_nil (exp n.body)).symm
  | truth => exact congrArg _ (leavesOfOption_flatMap n.proof).symm
  | builder => exact Builder.visit_plain patterns n
  | precedence => exact (List.append_nil (exp n.operator)).symm
  | operator => simp [Tree.visit, Tree.plain, Kind.leaves, Operator.leaves, Precedence.leaves, Leaf.elim,
      List.flatMap_assoc]
  | scope => exact Scope.visit_plain patterns n
  | component => exact Scope.visit_plain patterns n.scope
  | pattern => exact patterns n
  | item => exact Item.visit_plain patterns n
  | expr => exact Form.visit_plain patterns n

end

/-- A visitor of a pattern meets what stands at the leaves of its listed form. -/
theorem Pattern.visit_plain (exp : E → List α) (ref : R → List α) (depth : Nat)
    (p : Pattern E R depth) :
    Pattern.visit exp ref depth p = (p.plain depth).leaves.flatMap (Leaf.elim exp ref) := by
  induction depth with
  | zero => exact nomatch p
  | succ depth ih => exact PatternForm.visit_plain ih p

/-- The names that a layer of a pattern binds. The table of a split is walked by ascending name. -/
def PatternForm.binders (pat : P → List Name) : PatternForm P E R → List Name
  | .alternatives _ choices => choices.head?.toList.flatMap pat
  | .construct _ _ argument => pat argument
  | .split _ fields _ => fields.sorted.flatMap fun (_, p) => pat p
  | .typed _ p _ => pat p
  | .named _ name p => name :: pat p
  | .bind _ name => [name]
  | .literal _ => []

/-- The names that a pattern binds. -/
def Pattern.binders : (depth : Nat) → Pattern E R depth → List Name
  | depth + 1, p => PatternForm.binders (Pattern.binders depth) p

theorem PatternForm.binders_plain {pattern : P → SurfaceTree.Pattern E R} {pat : P → List Name}
    (patterns : ∀ p, pat p = (pattern p).binders) (p : PatternForm P E R) :
    p.binders pat = (p.plain pattern).binders := by
  cases p with
  | alternatives pos choices =>
    cases choices with
    | nil => rfl
    | cons first rest => exact (List.append_nil _).trans (patterns first)
  | construct pos head argument => exact patterns argument
  | split pos fields strict =>
    rw [binders, plain, Pattern.binders_split, HashTable.toList_plain, List.flatMap_map]
    simp only [patterns]
  | typed pos p type => exact patterns p
  | named pos name p => exact congrArg (name :: ·) (patterns p)
  | bind pos name => rfl
  | literal l => rfl

/-- A pattern binds the names that its listed form binds, in the same order. -/
theorem Pattern.binders_plain (depth : Nat) (p : Pattern E R depth) :
    Pattern.binders depth p = (p.plain depth).binders := by
  induction depth with
  | zero => exact nomatch p
  | succ depth ih => exact PatternForm.binders_plain ih p

end Hashed

end SurfaceTree
