import SurfaceTree.Tree.Kind

namespace SurfaceTree

variable {E R : Type}

/-- The literal without its position. -/
def Literal.bare (l : Literal) : Literal := ⟨.dummy, l.value⟩

mutual
/-- The pattern with every position in it, at any depth, replaced by that of a node which comes from
no source. Here and below nothing else is touched. -/
def Pattern.bare : Pattern E R → Pattern E R
  | .alternatives _ choices => .alternatives .dummy (Pattern.bareAll choices)
  | .construct _ head argument => .construct .dummy head (Pattern.bare argument)
  | .split _ fields strict =>
    .split .dummy (fields.withRow (Pattern.bareRow fields.row)) strict
  | .typed _ pattern type => .typed .dummy (Pattern.bare pattern) type
  | .named _ name pattern => .named .dummy name (Pattern.bare pattern)
  | .bind _ name => .bind .dummy name
  | .literal l => .literal l.bare

def Pattern.bareAll : List (Pattern E R) → List (Pattern E R)
  | [] => []
  | p :: rest => Pattern.bare p :: Pattern.bareAll rest

def Pattern.bareRow : {keys : List Name} → Row (Pattern E R) keys → Row (Pattern E R) keys
  | _, .nil => .nil
  | _, .cons key p rest => .cons key (Pattern.bare p) (Pattern.bareRow rest)
end

def Entry.bare (n : Entry E R) : Entry E R := ⟨.dummy, n.implicit, n.pattern.bare⟩

def Field.bare (n : Field E R) : Field E R := ⟨.dummy, n.entry.bare, n.default⟩

/-- The field list with the positions of its fields taken out. Names and order stay. -/
def Fields.bare (n : Fields E R) : Fields E R := ⟨n.order, n.distinct, n.row.map Field.bare⟩

def Case.bare (n : Case E R) : Case E R := ⟨.dummy, n.pattern.bare, n.body⟩

def Definition.bare (n : Definition E R) : Definition E R := ⟨.dummy, n.pattern.bare, n.init⟩

def Import.bare (n : Import E) : Import E := { n with pos := .dummy }

def Proof.bare (n : Proof E R) : Proof E R := { n with pos := .dummy }

def Truth.bare (n : Truth E) : Truth E := { n with pos := .dummy }

/-- The builder and its parameters without positions. -/
def Builder.bare (n : Builder E R) : Builder E R :=
  { n with pos := .dummy, params := n.params.bare }

def Operator.bare (n : Operator E) : Operator E := { n with pos := .dummy }

/-- A statement has no position of its own. -/
def Item.bare : Item E R → Item E R
  | .statement e => .statement e
  | .declaration d => .declaration d.bare

/-- The scope and all it holds without positions. -/
def Scope.bare (n : Scope E R) : Scope E R where
  pos := .dummy
  id := n.id
  builders := n.builders.map Builder.bare
  operators := n.operators.map Operator.bare
  truths := n.truths.map Truth.bare
  definitions := n.definitions.map (List.map Definition.bare)
  proofs := n.proofs.map Proof.bare
  imports := n.imports.map Import.bare

def Component.bare (n : Component E R) : Component E R := { n with scope := n.scope.bare }

/-- The form without positions outside its slots. -/
def Form.bare : Form E R → Form E R
  | .block _ items => .block .dummy (items.map Item.bare)
  | .abstraction _ binder cases => .abstraction .dummy binder (cases.map Case.bare)
  | .matching _ scrutinee cases => .matching .dummy scrutinee (cases.map Case.bare)
  | .ascription _ value type => .ascription .dummy value type
  | .chain _ items => .chain .dummy items
  | .record _ fields => .record .dummy fields
  | .recordType _ fields => .recordType .dummy fields.bare
  | .tuple _ items => .tuple .dummy items
  | .projection _ value path => .projection .dummy value path
  | .reference _ target => .reference .dummy target
  | .application _ function argument => .application .dummy function argument
  | .refinement _ value proposition => .refinement .dummy value proposition
  | .anonymous _ kind supers params body => .anonymous .dummy kind supers params.bare body.bare
  | .literal l => .literal l.bare

/-- A node of any kind without the positions of its own layer. A span on its own is the position of
nothing and stays as it is. -/
def Kind.bare : (k : Kind) → k.Tree E R → k.Tree E R
  | ref, n => n
  | span, n => n
  | literal, n => Literal.bare n
  | entry, n => Entry.bare n
  | field, n => Field.bare n
  | fields, n => Fields.bare n
  | case, n => Case.bare n
  | definition, n => Definition.bare n
  | imported, n => Import.bare n
  | proof, n => Proof.bare n
  | truth, n => Truth.bare n
  | builder, n => Builder.bare n
  | precedence, n => n
  | operator, n => Operator.bare n
  | scope, n => Scope.bare n
  | component, n => Component.bare n
  | pattern, n => Pattern.bare n
  | item, n => Item.bare n
  | expr, n => Form.bare n

/-- An expression without positions at any depth. -/
def Expr.bare : Expr R → Expr R := fold fun form => .mk form.bare

/-- A node without positions at any depth. -/
def Node.bare (k : Kind) (n : Node R k) : Node R k := k.bare (k.map Expr.bare id n)

end SurfaceTree
