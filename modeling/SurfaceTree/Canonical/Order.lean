import SurfaceTree.Tree.Kind

namespace SurfaceTree

/-- Lists item by item; a list comes before those that go on after it. -/
def compareLists {A B : Type} (item : A → B → Ordering) : List A → List B → Ordering
  | [], [] => .eq
  | [], _ :: _ => .lt
  | _ :: _, [] => .gt
  | a :: as, b :: bs => (item a b).then (compareLists item as bs)

/-- Nothing comes before something. -/
def compareOptions {A B : Type} (value : A → B → Ordering) : Option A → Option B → Ordering
  | none, none => .eq
  | none, some _ => .lt
  | some _, none => .gt
  | some a, some b => value a b

/-- Members of a vocabulary by their places in it. -/
def Keyword.compare {α : Type} [Keyword α] [DecidableEq α] (a b : α) : Ordering :=
  Ord.compare (index a) (index b)

/-- Names are ordered by their numbers, not by the strings they stand for. -/
def Name.compare (a b : Name) : Ordering := Ord.compare a.raw b.raw

def ScopeId.compare (a b : ScopeId) : Ordering := Ord.compare a.number b.number

/-- Symbols are ordered by scope and then by name. -/
def Symbol.compare (a b : Symbol) : Ordering :=
  (a.scope.compare b.scope).then (a.name.compare b.name)

/-- Spans are ordered by start and then by end. -/
def Span.compare (a b : Span) : Ordering :=
  (Ord.compare a.start b.start).then (Ord.compare a.stop b.stop)

/-- The place of the variant in canonical order. -/
def Fixity.tag : Fixity → Nat
  | .leading => 0
  | .between _ => 1
  | .trailing => 2

/-- Infix operators are ordered by their associativity, all others by their tags. -/
def Fixity.compare : Fixity → Fixity → Ordering
  | .between a, .between b => Keyword.compare a b
  | a, b => Ord.compare a.tag b.tag

/-- The place of the variant in canonical order. -/
def LiteralValue.tag : LiteralValue → Nat
  | .int _ => 0
  | .float _ => 1
  | .str _ => 2
  | .char _ => 3

/-- Values of one kind by value, floats by their bits; different kinds by their tags. -/
def LiteralValue.compare : LiteralValue → LiteralValue → Ordering
  | .int a, .int b => Ord.compare a b
  | .float a, .float b => Ord.compare a b
  | .str a, .str b => a.compare b
  | .char a, .char b => Ord.compare a b
  | a, b => Ord.compare a.tag b.tag

/-- Where a literal stands does not count. -/
def Literal.compare (a b : Literal) : Ordering := a.value.compare b.value

/-- A binding of a mapping by its name and then by its value. -/
def compareBindings {V W : Type} (value : V → W → Ordering) (a : Name × V) (b : Name × W) :
    Ordering :=
  (a.1.compare b.1).then (value a.2 b.2)

/-- Mappings by their listings. -/
def NameMap.compare {V W : Type} (value : V → W → Ordering) (a : NameMap V) (b : NameMap W) :
    Ordering :=
  compareLists (compareBindings value) a.toList b.toList

/-- Bucket by bucket, from the least visible one on. -/
def VisibilityTable.compare {α β : Type} (value : α → β → Ordering) (a : VisibilityTable α)
    (b : VisibilityTable β) : Ordering :=
  compareLists value a.values b.values

variable {A B R : Type}

mutual
/-- Patterns of one variant part by part, where the first difference decides; different variants by
their tags alone. -/
def Pattern.compare (exp : A → B → Ordering) (ref : R → R → Ordering) :
    Pattern A R → Pattern B R → Ordering
  | .alternatives _ choices, .alternatives _ choices' =>
    Pattern.compareAll exp ref choices choices'
  | .construct _ head argument, .construct _ head' argument' =>
    (ref head head').then (Pattern.compare exp ref argument argument')
  | .split _ fields strict, .split _ fields' strict' =>
    (Pattern.compareRows exp ref fields.row fields'.row).then (Ord.compare strict strict')
  | .typed _ pattern type, .typed _ pattern' type' =>
    (Pattern.compare exp ref pattern pattern').then (exp type type')
  | .named _ name pattern, .named _ name' pattern' =>
    (name.compare name').then (Pattern.compare exp ref pattern pattern')
  | .bind _ name, .bind _ name' => name.compare name'
  | .literal l, .literal l' => l.compare l'
  | a, b => Ord.compare a.tag b.tag

def Pattern.compareAll (exp : A → B → Ordering) (ref : R → R → Ordering) :
    List (Pattern A R) → List (Pattern B R) → Ordering
  | [], [] => .eq
  | [], _ :: _ => .lt
  | _ :: _, [] => .gt
  | p :: rest, p' :: rest' =>
    (Pattern.compare exp ref p p').then (Pattern.compareAll exp ref rest rest')

def Pattern.compareRows (exp : A → B → Ordering) (ref : R → R → Ordering) :
    {names names' : List Name} → Row (Pattern A R) names → Row (Pattern B R) names' → Ordering
  | _, _, .nil, .nil => .eq
  | _, _, .nil, .cons .. => .lt
  | _, _, .cons .., .nil => .gt
  | _, _, .cons name p rest, .cons name' p' rest' =>
    ((name.compare name').then (Pattern.compare exp ref p p')).then
      (Pattern.compareRows exp ref rest rest')
end

variable (exp : A → B → Ordering) (ref : R → R → Ordering)

/-- Entries by whether they are implicit, then by pattern. -/
def Entry.compare (a : Entry A R) (b : Entry B R) : Ordering :=
  (Ord.compare a.implicit b.implicit).then (a.pattern.compare exp ref b.pattern)

def Field.compare (a : Field A R) (b : Field B R) : Ordering :=
  (a.entry.compare exp ref b.entry).then (compareOptions exp a.default b.default)

/-- Field lists by their bindings first and then by their declared order. -/
def Fields.compare (a : Fields A R) (b : Fields B R) : Ordering :=
  (a.bindings.compare (Field.compare exp ref) b.bindings).then
    (compareLists Name.compare a.order b.order)

def Case.compare (a : Case A R) (b : Case B R) : Ordering :=
  (a.pattern.compare exp ref b.pattern).then (exp a.body b.body)

/-- Definitions by pattern, then by value, of which none comes first. -/
def Definition.compare (a : Definition A R) (b : Definition B R) : Ordering :=
  (a.pattern.compare exp ref b.pattern).then (compareOptions exp a.init b.init)

def Import.compare (a : Import A) (b : Import B) : Ordering :=
  (Keyword.compare a.visibility b.visibility).then (exp a.target b.target)

def Proof.compare (a : Proof A R) (b : Proof B R) : Ordering :=
  (ref a.fact b.fact).then (exp a.body b.body)

/-- Truths part by part in the order of their declaration. -/
def Truth.compare (a : Truth A) (b : Truth B) : Ordering :=
  (Keyword.compare a.kind b.kind).then <| (Keyword.compare a.visibility b.visibility).then <|
    (exp a.prop b.prop).then (compareOptions exp a.proof b.proof)

/-- Builders part by part in the order of their declaration. -/
def Builder.compare (a : Builder A R) (b : Builder B R) : Ordering :=
  (Keyword.compare a.kind b.kind).then <| (Keyword.compare a.visibility b.visibility).then <|
    (a.params.compare exp ref b.params).then <| (compareLists exp a.supers b.supers).then
      (exp a.body b.body)

def Precedence.compare (a : Precedence A) (b : Precedence B) : Ordering :=
  (Keyword.compare a.relation b.relation).then (exp a.operator b.operator)

def Operator.compare (a : Operator A) (b : Operator B) : Ordering :=
  (a.fixity.compare b.fixity).then
    (compareLists (Precedence.compare exp) a.precedence b.precedence)

/-- Statements come before declarations. -/
def Item.compare : Item A R → Item B R → Ordering
  | .statement e, .statement e' => exp e e'
  | .declaration d, .declaration d' => d.compare exp ref d'
  | a, b => Ord.compare a.tag b.tag

/-- Scopes by number, then by their three namespaces, then by all else in the order of
declaration. -/
def Scope.compare (a : Scope A R) (b : Scope B R) : Ordering :=
  (a.id.compare b.id).then <|
  (a.builders.compare (Builder.compare exp ref) b.builders).then <|
  (a.operators.compare (Operator.compare exp) b.operators).then <|
  (a.truths.compare (Truth.compare exp) b.truths).then <|
  (a.definitions.compare (compareLists (Definition.compare exp ref)) b.definitions).then <|
  (compareLists (Proof.compare exp ref) a.proofs b.proofs).then
    (compareLists (Import.compare exp) a.imports b.imports)

def Component.compare (a : Component A R) (b : Component B R) : Ordering :=
  (compareOptions Name.compare a.expected b.expected).then (a.scope.compare exp ref b.scope)

/-- Forms of one variant part by part, different variants by their tags alone. The expressions of
the two sides are compared by a function that may hold them in different forms. -/
def Form.compare : Form A R → Form B R → Ordering
  | .block _ items, .block _ items' => compareLists (Item.compare exp ref) items items'
  | .abstraction _ binder cases, .abstraction _ binder' cases' =>
    (Keyword.compare binder binder').then (compareLists (Case.compare exp ref) cases cases')
  | .matching _ scrutinee cases, .matching _ scrutinee' cases' =>
    (exp scrutinee scrutinee').then (compareLists (Case.compare exp ref) cases cases')
  | .ascription _ value type, .ascription _ value' type' =>
    (exp value value').then (exp type type')
  | .chain _ items, .chain _ items' | .tuple _ items, .tuple _ items' =>
    compareLists exp items items'
  | .record _ fields, .record _ fields' => fields.compare exp fields'
  | .recordType _ fields, .recordType _ fields' => fields.compare exp ref fields'
  | .projection _ value path, .projection _ value' path' =>
    (exp value value').then (compareLists Name.compare path path')
  | .reference _ target, .reference _ target' => ref target target'
  | .application _ function argument, .application _ function' argument' =>
    (exp function function').then (exp argument argument')
  | .refinement _ value proposition, .refinement _ value' proposition' =>
    (exp value value').then (exp proposition proposition')
  | .anonymous _ kind supers params body, .anonymous _ kind' supers' params' body' =>
    (Keyword.compare kind kind').then <| (compareLists exp supers supers').then <|
      (params.compare exp ref params').then (body.compare exp ref body')
  | .literal l, .literal l' => l.compare l'
  | a, b => Ord.compare a.tag b.tag

/-- The order of nodes of any kind. Only spans on their own are compared by where they stand. -/
def Kind.compare : (k : Kind) → k.Tree A R → k.Tree B R → Ordering
  | Kind.ref, a, b => ref a b
  | span, a, b => Span.compare a b
  | literal, a, b => Literal.compare a b
  | entry, a, b => Entry.compare exp ref a b
  | field, a, b => Field.compare exp ref a b
  | fields, a, b => Fields.compare exp ref a b
  | case, a, b => Case.compare exp ref a b
  | definition, a, b => Definition.compare exp ref a b
  | imported, a, b => Import.compare exp a b
  | proof, a, b => Proof.compare exp ref a b
  | truth, a, b => Truth.compare exp a b
  | builder, a, b => Builder.compare exp ref a b
  | precedence, a, b => Precedence.compare exp a b
  | operator, a, b => Operator.compare exp a b
  | scope, a, b => Scope.compare exp ref a b
  | component, a, b => Component.compare exp ref a b
  | pattern, a, b => Pattern.compare exp ref a b
  | item, a, b => Item.compare exp ref a b
  | expr, a, b => Form.compare exp ref a b

end SurfaceTree
