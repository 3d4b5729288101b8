import SurfaceTree.Tree.Form

namespace SurfaceTree

/-- What a slot holds: an expression or a reference. -/
inductive Leaf (E R : Type) where
  | exp (value : E)
  | ref (value : R)
deriving DecidableEq

namespace Leaf

variable {E R : Type}

/-- The expression of a leaf that holds one. -/
def exp? : Leaf E R → Option E
  | exp e => some e
  | ref _ => none

/-- The reference of a leaf that holds one. -/
def ref? : Leaf E R → Option R
  | exp _ => none
  | ref r => some r

end Leaf

variable {E R : Type}

mutual
/-- The leaves of a pattern, from left to right. Those of a split come by ascending name. -/
def Pattern.leaves : Pattern E R → List (Leaf E R)
  | .alternatives _ choices => Pattern.leavesOfList choices
  | .construct _ head argument => .ref head :: Pattern.leaves argument
  | .split _ fields _ => Pattern.leavesOfRow fields.row
  | .typed _ pattern type => Pattern.leaves pattern ++ [.exp type]
  | .named _ _ pattern => Pattern.leaves pattern
  | .bind _ _ => []
  | .literal _ => []

def Pattern.leavesOfList : List (Pattern E R) → List (Leaf E R)
  | [] => []
  | p :: rest => Pattern.leaves p ++ Pattern.leavesOfList rest

def Pattern.leavesOfRow : {keys : List Name} → Row (Pattern E R) keys → List (Leaf E R)
  | _, .nil => []
  | _, .cons _ p rest => Pattern.leaves p ++ Pattern.leavesOfRow rest
end

/-- The leaf of an optional slot. -/
def leavesOfOption : Option E → List (Leaf E R)
  | none => []
  | some e => [.exp e]

def Entry.leaves (n : Entry E R) : List (Leaf E R) := n.pattern.leaves

def Field.leaves (n : Field E R) : List (Leaf E R) := n.entry.leaves ++ leavesOfOption n.default

/-- The leaves of a field list, in declared order. -/
def Fields.leaves (n : Fields E R) : List (Leaf E R) := n.toList.flatMap fun (_, f) => f.leaves

def Case.leaves (n : Case E R) : List (Leaf E R) := n.pattern.leaves ++ [.exp n.body]

def Definition.leaves (n : Definition E R) : List (Leaf E R) :=
  n.pattern.leaves ++ leavesOfOption n.init

def Import.leaves (n : Import E) : List (Leaf E R) := [.exp n.target]

def Proof.leaves (n : Proof E R) : List (Leaf E R) := [.ref n.fact, .exp n.body]

def Truth.leaves (n : Truth E) : List (Leaf E R) := .exp n.prop :: leavesOfOption n.proof

/-- The leaves of a builder: its parameters, its supers and its body. -/
def Builder.leaves (n : Builder E R) : List (Leaf E R) :=
  n.params.leaves ++ n.supers.map .exp ++ [.exp n.body]

def Precedence.leaves (n : Precedence E) : List (Leaf E R) := [.exp n.operator]

/-- The operators that an operator is ranked against. -/
def Operator.leaves (n : Operator E) : List (Leaf E R) := n.precedence.flatMap Precedence.leaves

def Item.leaves : Item E R → List (Leaf E R)
  | .statement e => [.exp e]
  | .declaration d => d.leaves

/-- The leaves of a scope: its namespaces by ascending name, its definitions by visibility, and then
its proofs and imports. -/
def Scope.leaves (n : Scope E R) : List (Leaf E R) :=
  n.builders.toList.flatMap (fun (_, b) => b.leaves)
    ++ n.operators.toList.flatMap (fun (_, o) => o.leaves)
    ++ n.truths.toList.flatMap (fun (_, t) => t.leaves)
    ++ n.definitions.values.flatMap (fun ds => ds.flatMap Definition.leaves)
    ++ n.proofs.flatMap Proof.leaves
    ++ n.imports.flatMap Import.leaves

def Component.leaves (n : Component E R) : List (Leaf E R) := n.scope.leaves

/-- The leaves of a form. Its subexpressions are leaves, and so is the reference it may consist
of. -/
def Form.leaves : Form E R → List (Leaf E R)
  | .block _ items => items.flatMap Item.leaves
  | .abstraction _ _ cases => cases.flatMap Case.leaves
  | .matching _ scrutinee cases => .exp scrutinee :: cases.flatMap Case.leaves
  | .ascription _ value type => [.exp value, .exp type]
  | .chain _ items => items.map .exp
  | .record _ fields => fields.toList.map fun (_, e) => .exp e
  | .recordType _ fields => fields.leaves
  | .tuple _ items => items.map .exp
  | .projection _ value _ => [.exp value]
  | .reference _ target => [.ref target]
  | .application _ function argument => [.exp function, .exp argument]
  | .refinement _ value proposition => [.exp value, .exp proposition]
  | .anonymous _ _ supers params body => supers.map .exp ++ params.leaves ++ body.leaves
  | .literal _ => []

end SurfaceTree
