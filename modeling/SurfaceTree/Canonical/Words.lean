import SurfaceTree.Canonical.Order

namespace SurfaceTree

/-- The words of a list: its length and then its items. -/
def wordsOfList {α : Type} (item : α → List UInt64) (xs : List α) : List UInt64 :=
  .ofNat xs.length :: xs.flatMap item

/-- The words of an option: whether there is something, and then what is there. -/
def wordsOfOption {α : Type} (value : α → List UInt64) : Option α → List UInt64
  | none => [0]
  | some a => 1 :: value a

def wordsOfBool (b : Bool) : List UInt64 := [if b then 1 else 0]

/-- The place of a word in its vocabulary. -/
def Keyword.words {α : Type} [Keyword α] [DecidableEq α] (a : α) : List UInt64 :=
  [.ofNat (index a)]

def Name.words (n : Name) : List UInt64 := [n.raw.toUInt64]

def ScopeId.words (s : ScopeId) : List UInt64 := [s.number.toUInt64]

def Symbol.words (s : Symbol) : List UInt64 := s.scope.words ++ s.name.words

def Span.words (s : Span) : List UInt64 := [s.start.toUInt64, s.stop.toUInt64]

/-- The words of a fixity: its tag, and the side of an infix operator. -/
def Fixity.words (f : Fixity) : List UInt64 :=
  .ofNat f.tag ::
    match f with
    | .between side => Keyword.words side
    | .leading | .trailing => []

/-- The words of a value: the tag of its kind and its bits, name or code point. -/
def LiteralValue.words (v : LiteralValue) : List UInt64 :=
  .ofNat v.tag ::
    match v with
    | .int value => [value.toUInt64]
    | .float bits => [bits]
    | .str name => name.words
    | .char value => [value.val.toUInt64]

/-- Where a literal stands is not written. -/
def Literal.words (l : Literal) : List UInt64 := l.value.words

/-- The words of a mapping: how many names it binds, and then each binding by ascending name. -/
def NameMap.words {V : Type} (value : V → List UInt64) (m : NameMap V) : List UInt64 :=
  .ofNat m.size :: m.toList.flatMap fun (name, v) => name.words ++ value v

def VisibilityTable.words {α : Type} (value : α → List UInt64) (t : VisibilityTable α) :
    List UInt64 :=
  wordsOfList value t.values

variable {E R : Type}

mutual
/-- The words of a pattern: the tag of its variant and then its parts in the order of their
declaration. -/
def Pattern.words (exp : E → List UInt64) (ref : R → List UInt64) : Pattern E R → List UInt64
  | p@(.alternatives _ choices) =>
    .ofNat p.tag :: .ofNat choices.length :: Pattern.wordsOfAll exp ref choices
  | p@(.construct _ head argument) => .ofNat p.tag :: (ref head ++ Pattern.words exp ref argument)
  | p@(.split _ fields strict) =>
    .ofNat p.tag :: .ofNat fields.size ::
      (Pattern.wordsOfRow exp ref fields.row ++ wordsOfBool strict)
  | p@(.typed _ pattern type) => .ofNat p.tag :: (Pattern.words exp ref pattern ++ exp type)
  | p@(.named _ name pattern) => .ofNat p.tag :: (name.words ++ Pattern.words exp ref pattern)
  | p@(.bind _ name) => .ofNat p.tag :: name.words
  | p@(.literal l) => .ofNat p.tag :: l.words

def Pattern.wordsOfAll (exp : E → List UInt64) (ref : R → List UInt64) :
    List (Pattern E R) → List UInt64
  | [] => []
  | p :: rest => Pattern.words exp ref p ++ Pattern.wordsOfAll exp ref rest

def Pattern.wordsOfRow (exp : E → List UInt64) (ref : R → List UInt64) :
    {names : List Name} → Row (Pattern E R) names → List UInt64
  | _, .nil => []
  | _, .cons name p rest =>
    name.words ++ Pattern.words exp ref p ++ Pattern.wordsOfRow exp ref rest
end

variable (exp : E → List UInt64) (ref : R → List UInt64)

def Entry.words (n : Entry E R) : List UInt64 := wordsOfBool n.implicit ++ n.pattern.words exp ref

def Field.words (n : Field E R) : List UInt64 :=
  n.entry.words exp ref ++ wordsOfOption exp n.default

/-- The words of a field list: its bindings by ascending name, and then their declared order. -/
def Fields.words (n : Fields E R) : List UInt64 :=
  n.bindings.words (Field.words exp ref) ++ wordsOfList Name.words n.order

def Case.words (n : Case E R) : List UInt64 := n.pattern.words exp ref ++ exp n.body

def Definition.words (n : Definition E R) : List UInt64 :=
  n.pattern.words exp ref ++ wordsOfOption exp n.init

def Import.words (n : Import E) : List UInt64 := Keyword.words n.visibility ++ exp n.target

def Proof.words (n : Proof E R) : List UInt64 := ref n.fact ++ exp n.body

/-- The words of a truth, all parts but the position in the order of their declaration. -/
def Truth.words (n : Truth E) : List UInt64 :=
  Keyword.words n.kind ++ Keyword.words n.visibility ++ exp n.prop ++ wordsOfOption exp n.proof

/-- The words of a builder, all parts but the position in the order of their declaration. -/
def Builder.words (n : Builder E R) : List UInt64 :=
  Keyword.words n.kind ++ Keyword.words n.visibility ++ n.params.words exp ref
    ++ wordsOfList exp n.supers ++ exp n.body

def Precedence.words (n : Precedence E) : List UInt64 :=
  Keyword.words n.relation ++ exp n.operator

def Operator.words (n : Operator E) : List UInt64 :=
  n.fixity.words ++ wordsOfList (Precedence.words exp) n.precedence

/-- The words of an item: the tag of its variant and what it holds. -/
def Item.words (n : Item E R) : List UInt64 :=
  .ofNat n.tag ::
    match n with
    | .statement e => exp e
    | .declaration d => d.words exp ref

/-- The words of a scope: its number, its namespaces, and all else in the order of declaration. -/
def Scope.words (n : Scope E R) : List UInt64 :=
  n.id.words ++ n.builders.words (Builder.words exp ref) ++ n.operators.words (Operator.words exp)
    ++ n.truths.words (Truth.words exp)
    ++ n.definitions.words (wordsOfList (Definition.words exp ref))
    ++ wordsOfList (Proof.words exp ref) n.proofs ++ wordsOfList (Import.words exp) n.imports

def Component.words (n : Component E R) : List UInt64 :=
  wordsOfOption Name.words n.expected ++ n.scope.words exp ref

/-- The words of a form: the tag of its variant and then its parts in the order of their
declaration. Lists and mappings begin with their length. -/
def Form.words (n : Form E R) : List UInt64 :=
  .ofNat n.tag ::
    match n with
    | .block _ items => wordsOfList (Item.words exp ref) items
    | .abstraction _ binder cases =>
      Keyword.words binder ++ wordsOfList (Case.words exp ref) cases
    | .matching _ scrutinee cases => exp scrutinee ++ wordsOfList (Case.words exp ref) cases
    | .ascription _ value type => exp value ++ exp type
    | .chain _ items | .tuple _ items => wordsOfList exp items
    | .record _ fields => fields.words exp
    | .recordType _ fields => fields.words exp ref
    | .projection _ value path => exp value ++ wordsOfList Name.words path
    | .reference _ target => ref target
    | .application _ function argument => exp function ++ exp argument
    | .refinement _ value proposition => exp value ++ exp proposition
    | .anonymous _ kind supers params body =>
      Keyword.words kind ++ wordsOfList exp supers ++ params.words exp ref ++ body.words exp ref
    | .literal l => l.words

/-- The words of a node of any kind. Only a span on its own is written. -/
def Kind.words : (k : Kind) → k.Tree E R → List UInt64
  | Kind.ref, n => ref n
  | span, n => Span.words n
  | literal, n => Literal.words n
  | entry, n => Entry.words exp ref n
  | field, n => Field.words exp ref n
  | fields, n => Fields.words exp ref n
  | case, n => Case.words exp ref n
  | definition, n => Definition.words exp ref n
  | imported, n => Import.words exp n
  | proof, n => Proof.words exp ref n
  | truth, n => Truth.words exp n
  | builder, n => Builder.words exp ref n
  | precedence, n => Precedence.words exp n
  | operator, n => Operator.words exp n
  | scope, n => Scope.words exp ref n
  | component, n => Component.words exp ref n
  | pattern, n => Pattern.words exp ref n
  | item, n => Item.words exp ref n
  | expr, n => Form.words exp ref n

end SurfaceTree
