import SurfaceTree.Canonical.Key
import SurfaceTree.Tree.Kind

namespace SurfaceTree

/-- The key of a member of a vocabulary is its place in canonical order. -/
def Keyword.key {α : Type} [Keyword α] [DecidableEq α] (a : α) : Key := .ofNat (index a)

def Name.key (n : Name) : Key := .ofNat n.raw.toNat

def ScopeId.key (s : ScopeId) : Key := .ofNat s.number.toNat

/-- The key of a symbol: its scope and its name. -/
def Symbol.key (s : Symbol) : Key := .record [s.scope.key, s.name.key]

/-- The key of a span. It is that of a node of its own; spans within nodes have no key. -/
def Span.key (s : Span) : Key := .record [.ofNat s.start.toNat, .ofNat s.stop.toNat]

/-- The key of a fixity: its tag, and the side of an infix operator. -/
def Fixity.key : Fixity → Key
  | .leading => .record [.ofNat 0]
  | .between side => .record [.ofNat 1, Keyword.key side]
  | .trailing => .record [.ofNat 2]

/-- The key of a value: the tag of its kind, and its number, bits, name or code point. -/
def LiteralValue.key : LiteralValue → Key
  | .int value => .record [.ofNat 0, .number value.toInt]
  | .float bits => .record [.ofNat 1, .ofNat bits.toNat]
  | .str name => .record [.ofNat 2, name.key]
  | .char value => .record [.ofNat 3, .ofNat value.toNat]

/-- A literal counts by its value only. -/
def Literal.key (l : Literal) : Key := l.value.key

/-- The key of a mapping whose values have keys. -/
def NameMap.key {V : Type} (value : V → Key) (m : NameMap V) : Key :=
  .list (m.toList.map fun (name, v) => .record [name.key, value v])

/-- The key of a table whose values have keys. -/
def VisibilityTable.key {α : Type} (value : α → Key) (t : VisibilityTable α) : Key :=
  .list (t.values.map value)

mutual
/-- The key of a pattern: the tag of its variant and the keys of its parts. -/
def Pattern.key : Pattern Key Key → Key
  | .alternatives _ choices => .record [.ofNat 0, .list (Pattern.keys choices)]
  | .construct _ head argument => .record [.ofNat 1, head, Pattern.key argument]
  | .split _ fields strict =>
    .record [.ofNat 2, .list (Pattern.keysOfRow fields.row), .ofBool strict]
  | .typed _ pattern type => .record [.ofNat 3, Pattern.key pattern, type]
  | .named _ name pattern => .record [.ofNat 4, name.key, Pattern.key pattern]
  | .bind _ name => .record [.ofNat 5, name.key]
  | .literal l => .record [.ofNat 6, l.key]

def Pattern.keys : List (Pattern Key Key) → List Key
  | [] => []
  | p :: rest => Pattern.key p :: Pattern.keys rest

def Pattern.keysOfRow : {names : List Name} → Row (Pattern Key Key) names → List Key
  | _, .nil => []
  | _, .cons name p rest => .record [name.key, Pattern.key p] :: Pattern.keysOfRow rest
end

def Entry.key (n : Entry Key Key) : Key := .record [.ofBool n.implicit, n.pattern.key]

/-- A field counts by its entry and its default value. -/
def Field.key (n : Field Key Key) : Key := .record [n.entry.key, .ofOption n.default]

/-- Field lists are compared by their bindings first and then by their order. -/
def Fields.key (n : Fields Key Key) : Key :=
  .record [n.bindings.key Field.key, .list (n.order.map Name.key)]

def Case.key (n : Case Key Key) : Key := .record [n.pattern.key, n.body]

def Definition.key (n : Definition Key Key) : Key := .record [n.pattern.key, .ofOption n.init]

def Import.key (n : Import Key) : Key := .record [Keyword.key n.visibility, n.target]

def Proof.key (n : Proof Key Key) : Key := .record [n.fact, n.body]

/-- A truth counts by all its parts but its position. -/
def Truth.key (n : Truth Key) : Key :=
  .record [Keyword.key n.kind, Keyword.key n.visibility, n.prop, .ofOption n.proof]

/-- A builder counts by all its parts but its position. -/
def Builder.key (n : Builder Key Key) : Key :=
  .record [Keyword.key n.kind, Keyword.key n.visibility, n.params.key, .list n.supers, n.body]

def Precedence.key (n : Precedence Key) : Key := .record [Keyword.key n.relation, n.operator]

def Operator.key (n : Operator Key) : Key :=
  .record [n.fixity.key, .list (n.precedence.map Precedence.key)]

/-- The key of an item: the tag of its variant and what it holds. -/
def Item.key : Item Key Key → Key
  | .statement e => .record [.ofNat 0, e]
  | .declaration d => .record [.ofNat 1, d.key]

/-- A scope counts by its number and all it holds, of which mappings are listed by ascending
name. -/
def Scope.key (n : Scope Key Key) : Key :=
  .record [n.id.key, n.builders.key Builder.key, n.operators.key Operator.key,
    n.truths.key Truth.key, n.definitions.key fun ds => .list (ds.map Definition.key),
    .list (n.proofs.map Proof.key), .list (n.imports.map Import.key)]

def Component.key (n : Component Key Key) : Key :=
  .record [.ofOption (n.expected.map Name.key), n.scope.key]

/-- The key of a form: the tag of its variant and the keys of its parts. -/
def Form.key : Form Key Key → Key
  | .block _ items => .record [.ofNat 0, .list (items.map Item.key)]
  | .abstraction _ binder cases =>
    .record [.ofNat 1, Keyword.key binder, .list (cases.map Case.key)]
  | .matching _ scrutinee cases => .record [.ofNat 2, scrutinee, .list (cases.map Case.key)]
  | .ascription _ value type => .record [.ofNat 3, value, type]
  | .chain _ items => .record [.ofNat 4, .list items]
  | .record _ fields => .record [.ofNat 5, fields.key id]
  | .recordType _ fields => .record [.ofNat 6, fields.key]
  | .tuple _ items => .record [.ofNat 7, .list items]
  | .projection _ value path => .record [.ofNat 8, value, .list (path.map Name.key)]
  | .reference _ target => .record [.ofNat 9, target]
  | .application _ function argument => .record [.ofNat 10, function, argument]
  | .refinement _ value proposition => .record [.ofNat 11, value, proposition]
  | .anonymous _ kind supers params body =>
    .record [.ofNat 12, Keyword.key kind, .list supers, params.key, body.key]
  | .literal l => .record [.ofNat 13, l.key]

/-- The key of a node of any kind. Only a span on its own counts where it stands. -/
def Kind.key : (k : Kind) → k.Tree Key Key → Key
  | ref, n => n
  | span, n => n.key
  | literal, n => n.key
  | entry, n => n.key
  | field, n => n.key
  | fields, n => n.key
  | case, n => n.key
  | definition, n => n.key
  | imported, n => n.key
  | proof, n => n.key
  | truth, n => n.key
  | builder, n => n.key
  | precedence, n => n.key
  | operator, n => n.key
  | scope, n => n.key
  | component, n => n.key
  | pattern, n => n.key
  | item, n => n.key
  | expr, n => n.key

end SurfaceTree
