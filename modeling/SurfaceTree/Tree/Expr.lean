import SurfaceTree.Traversal.Traverse

namespace SurfaceTree

/-- An expression: a form whose subexpressions are expressions. -/
inductive Expr (R : Type) where
  | mk (form : Form (Expr R) R)

namespace Expr

variable {α R : Type}

/-- The form on the outside of an expression. -/
def form : Expr R → Form (Expr R) R
  | mk form => form

/-- Where an expression stands: where its form does. -/
def span (e : Expr R) : Span := e.form.span

mutual
/-- The value of an expression, given how a form with values in place of its subexpressions is
valued. -/
def fold (value : Form α R → α) : Expr R → α
  | mk form => value (foldForm value form)

/-- The values of the subexpressions of a form in their places. The functions below do the same for
each part of a form, one after the other. -/
def foldForm (value : Form α R → α) : Form (Expr R) R → Form α R
  | .block pos items => .block pos (foldItems value items)
  | .abstraction pos binder cases => .abstraction pos binder (foldCases value cases)
  | .matching pos scrutinee cases =>
    .matching pos (fold value scrutinee) (foldCases value cases)
  | .ascription pos e type => .ascription pos (fold value e) (fold value type)
  | .chain pos items => .chain pos (foldList value items)
  | .record pos ⟨keys, ascending, row⟩ => .record pos ⟨keys, ascending, foldRow value row⟩
  | .recordType pos fields => .recordType pos (foldFields value fields)
  | .tuple pos items => .tuple pos (foldList value items)
  | .projection pos e path => .projection pos (fold value e) path
  | .reference pos target => .reference pos target
  | .application pos function argument =>
    .application pos (fold value function) (fold value argument)
  | .refinement pos e proposition => .refinement pos (fold value e) (fold value proposition)
  | .anonymous pos kind supers params body =>
    .anonymous pos kind (foldList value supers) (foldFields value params) (foldScope value body)
  | .literal l => .literal l

def foldList (value : Form α R → α) : List (Expr R) → List α
  | [] => []
  | e :: rest => fold value e :: foldList value rest

def foldOption (value : Form α R → α) : Option (Expr R) → Option α
  | none => none
  | some e => some (fold value e)

def foldRow (value : Form α R → α) : {keys : List Name} → Row (Expr R) keys → Row α keys
  | _, .nil => .nil
  | _, .cons key e rest => .cons key (fold value e) (foldRow value rest)

/-- Patterns hold expressions in the types that are written in them. -/
def foldPattern (value : Form α R → α) : Pattern (Expr R) R → Pattern α R
  | .alternatives pos choices => .alternatives pos (foldPatterns value choices)
  | .construct pos head argument => .construct pos head (foldPattern value argument)
  | .split pos ⟨keys, ascending, row⟩ strict =>
    .split pos ⟨keys, ascending, foldPatternRow value row⟩ strict
  | .typed pos pattern type => .typed pos (foldPattern value pattern) (fold value type)
  | .named pos name pattern => .named pos name (foldPattern value pattern)
  | .bind pos name => .bind pos name
  | .literal l => .literal l

def foldPatterns (value : Form α R → α) : List (Pattern (Expr R) R) → List (Pattern α R)
  | [] => []
  | p :: rest => foldPattern value p :: foldPatterns value rest

def foldPatternRow (value : Form α R → α) :
    {keys : List Name} → Row (Pattern (Expr R) R) keys → Row (Pattern α R) keys
  | _, .nil => .nil
  | _, .cons key p rest => .cons key (foldPattern value p) (foldPatternRow value rest)

def foldEntry (value : Form α R → α) : Entry (Expr R) R → Entry α R
  | ⟨pos, implicit, pattern⟩ => ⟨pos, implicit, foldPattern value pattern⟩

def foldField (value : Form α R → α) : Field (Expr R) R → Field α R
  | ⟨pos, entry, default⟩ => ⟨pos, foldEntry value entry, foldOption value default⟩

def foldFieldRow (value : Form α R → α) :
    {keys : List Name} → Row (Field (Expr R) R) keys → Row (Field α R) keys
  | _, .nil => .nil
  | _, .cons key field rest => .cons key (foldField value field) (foldFieldRow value rest)

/-- Field lists keep their declared order. -/
def foldFields (value : Form α R → α) : Fields (Expr R) R → Fields α R
  | ⟨order, distinct, row⟩ => ⟨order, distinct, foldFieldRow value row⟩

def foldCase (value : Form α R → α) : Case (Expr R) R → Case α R
  | ⟨pos, pattern, body⟩ => ⟨pos, foldPattern value pattern, fold value body⟩

def foldCases (value : Form α R → α) : List (Case (Expr R) R) → List (Case α R)
  | [] => []
  | c :: rest => foldCase value c :: foldCases value rest

def foldDefinition (value : Form α R → α) : Definition (Expr R) R → Definition α R
  | ⟨pos, pattern, init⟩ => ⟨pos, foldPattern value pattern, foldOption value init⟩

def foldDefinitions (value : Form α R → α) : List (Definition (Expr R) R) → List (Definition α R)
  | [] => []
  | d :: rest => foldDefinition value d :: foldDefinitions value rest

def foldItem (value : Form α R → α) : Item (Expr R) R → Item α R
  | .statement e => .statement (fold value e)
  | .declaration d => .declaration (foldDefinition value d)

def foldItems (value : Form α R → α) : List (Item (Expr R) R) → List (Item α R)
  | [] => []
  | i :: rest => foldItem value i :: foldItems value rest

def foldBuilder (value : Form α R → α) : Builder (Expr R) R → Builder α R
  | ⟨pos, kind, visibility, params, supers, body⟩ =>
    ⟨pos, kind, visibility, foldFields value params, foldList value supers, fold value body⟩

def foldBuilderRow (value : Form α R → α) :
    {keys : List Name} → Row (Builder (Expr R) R) keys → Row (Builder α R) keys
  | _, .nil => .nil
  | _, .cons key b rest => .cons key (foldBuilder value b) (foldBuilderRow value rest)

def foldPrecedence (value : Form α R → α) : Precedence (Expr R) → Precedence α
  | ⟨relation, operator⟩ => ⟨relation, fold value operator⟩

def foldPrecedences (value : Form α R → α) : List (Precedence (Expr R)) → List (Precedence α)
  | [] => []
  | p :: rest => foldPrecedence value p :: foldPrecedences value rest

def foldOperator (value : Form α R → α) : Operator (Expr R) → Operator α
  | ⟨pos, fixity, precedence⟩ => ⟨pos, fixity, foldPrecedences value precedence⟩

def foldOperatorRow (value : Form α R → α) :
    {keys : List Name} → Row (Operator (Expr R)) keys → Row (Operator α) keys
  | _, .nil => .nil
  | _, .cons key o rest => .cons key (foldOperator value o) (foldOperatorRow value rest)

def foldTruth (value : Form α R → α) : Truth (Expr R) → Truth α
  | ⟨pos, kind, visibility, prop, proof⟩ =>
    ⟨pos, kind, visibility, fold value prop, foldOption value proof⟩

def foldTruthRow (value : Form α R → α) :
    {keys : List Name} → Row (Truth (Expr R)) keys → Row (Truth α) keys
  | _, .nil => .nil
  | _, .cons key t rest => .cons key (foldTruth value t) (foldTruthRow value rest)

def foldProof (value : Form α R → α) : Proof (Expr R) R → Proof α R
  | ⟨pos, fact, body⟩ => ⟨pos, fact, fold value body⟩

def foldProofs (value : Form α R → α) : List (Proof (Expr R) R) → List (Proof α R)
  | [] => []
  | p :: rest => foldProof value p :: foldProofs value rest

def foldImport (value : Form α R → α) : Import (Expr R) → Import α
  | ⟨pos, visibility, target⟩ => ⟨pos, visibility, fold value target⟩

def foldImports (value : Form α R → α) : List (Import (Expr R)) → List (Import α)
  | [] => []
  | i :: rest => foldImport value i :: foldImports value rest

/-- Scopes keep the names that each namespace binds. -/
def foldScope (value : Form α R → α) : Scope (Expr R) R → Scope α R
  | ⟨pos, id, ⟨builderNames, ascendingB, builders⟩, ⟨operatorNames, ascendingO, operators⟩,
      ⟨truthNames, ascendingT, truths⟩, ⟨hidden, priv, prot, pub⟩, proofs, imports⟩ =>
    ⟨pos, id, ⟨builderNames, ascendingB, foldBuilderRow value builders⟩,
      ⟨operatorNames, ascendingO, foldOperatorRow value operators⟩,
      ⟨truthNames, ascendingT, foldTruthRow value truths⟩,
      ⟨foldDefinitions value hidden, foldDefinitions value priv, foldDefinitions value prot,
        foldDefinitions value pub⟩,
      foldProofs value proofs, foldImports value imports⟩
end

end Expr

end SurfaceTree
