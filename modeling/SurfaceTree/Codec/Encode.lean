import SurfaceTree.Codec.Element

namespace SurfaceTree

/-- A position is an element with the two offsets. -/
def Span.toElement (s : Span) : Element :=
  .node "pos" [("start", toString s.start), ("end", toString s.stop)] []

def Name.toElement (n : Name) : Element := .node "name" [("id", toString n.raw)] []

/-- A symbol is an element with the numbers of its scope and its name. -/
def Symbol.toElement (s : Symbol) : Element :=
  .node "symbol" [("scope", toString s.scope.number), ("name", toString s.name.raw)] []

/-- What encodings call the kind of a literal value. -/
def LiteralValue.kindName : LiteralValue → String
  | .int _ => "int"
  | .float _ => "float"
  | .str _ => "str"
  | .char _ => "char"

/-- A literal value as one number: floats by their bits, strings by their name, characters by
their code point. -/
def LiteralValue.numeral : LiteralValue → String
  | .int value => Digits.ofInt value.toInt
  | .float bits => toString bits
  | .str name => toString name.raw
  | .char value => toString value.toNat

/-- The element of a literal. Its value is the text of the element. -/
def Literal.toElement (l : Literal) : Element :=
  ⟨"literal", [("kind", l.value.kindName)], [l.pos.toElement], some l.value.numeral⟩

mutual
/-- The element of a pattern, named after its variant. Scalars are attributes, and every other part
sits in a child named after it. -/
def Pattern.toElement : Pattern Element Element → Element
  | .alternatives pos choices =>
    .node "option" [] [pos.toElement, .ofSlots "alternatives" (Pattern.toElements choices)]
  | .construct pos head argument =>
    .node "deconstruct" []
      [pos.toElement, .ofSlot "constructor" head, .ofSlot "argument" (Pattern.toElement argument)]
  | .split pos fields strict =>
    .node "split" [("strict", toString strict)]
      [pos.toElement, .node "fields" [] (Pattern.entriesOfRow fields.row)]
  | .typed pos pattern type =>
    .node "typed" []
      [pos.toElement, .ofSlot "pattern" (Pattern.toElement pattern), .ofSlot "type" type]
  | .named pos name pattern =>
    .node "as" [("name", toString name.raw)]
      [pos.toElement, .ofSlot "pattern" (Pattern.toElement pattern)]
  | .bind pos name => .node "name" [("name", toString name.raw)] [pos.toElement]
  | .literal l => .node "exact" [] [l.toElement]

def Pattern.toElements : List (Pattern Element Element) → List Element
  | [] => []
  | p :: rest => Pattern.toElement p :: Pattern.toElements rest

/-- The entries of a split by ascending name. -/
def Pattern.entriesOfRow : {keys : List Name} → Row (Pattern Element Element) keys → List Element
  | _, .nil => []
  | _, .cons key p rest => .ofEntry key (Pattern.toElement p) :: Pattern.entriesOfRow rest
end

def Entry.toElement (n : Entry Element Element) : Element :=
  .node "entry" [("implicit", toString n.implicit)]
    [n.pos.toElement, .ofSlot "pattern" n.pattern.toElement]

/-- The element of a field. A default value is left out if there is none. -/
def Field.toElement (n : Field Element Element) : Element :=
  .node "field" [] ([n.pos.toElement, n.entry.toElement] ++ Element.ofSlot? "default" n.default)

/-- The key of an order list. -/
def Name.toOrderKey (n : Name) : Element := .node "key" [("id", toString n.raw)] []

/-- The element of a field list: its bindings by ascending name, and beside them its order. -/
def Fields.toElement (n : Fields Element Element) : Element :=
  .node "fields" []
    [.ofMapping "bindings" Field.toElement n.bindings,
      .ofSlots "order" (n.order.map Name.toOrderKey)]

def Case.toElement (n : Case Element Element) : Element :=
  .node "case" []
    [n.pos.toElement, .ofSlot "pattern" n.pattern.toElement, .ofSlot "body" n.body]

def Definition.toElement (n : Definition Element Element) : Element :=
  .node "def" []
    ([n.pos.toElement, .ofSlot "pattern" n.pattern.toElement] ++ Element.ofSlot? "init" n.init)

def Import.toElement (n : Import Element) : Element :=
  .node "import" [("visibility", Keyword.spelling n.visibility)]
    [n.pos.toElement, .ofSlot "target" n.target]

def Proof.toElement (n : Proof Element Element) : Element :=
  .node "proof" [] [n.pos.toElement, .ofSlot "theorem" n.fact, .ofSlot "body" n.body]

/-- The element of a truth. A proof is left out if there is none. -/
def Truth.toElement (n : Truth Element) : Element :=
  .node "truth"
    [("kind", Keyword.spelling n.kind), ("visibility", Keyword.spelling n.visibility)]
    ([n.pos.toElement, .ofSlot "prop" n.prop] ++ Element.ofSlot? "proof" n.proof)

def Builder.toElement (n : Builder Element Element) : Element :=
  .node "builder"
    [("kind", Keyword.spelling n.kind), ("visibility", Keyword.spelling n.visibility)]
    [n.pos.toElement, .ofSlot "params" n.params.toElement, .ofSlots "supers" n.supers,
      .ofSlot "body" n.body]

def Precedence.toElement (n : Precedence Element) : Element :=
  .node "precedence" [("relation", Keyword.spelling n.relation)] [.ofSlot "operator" n.operator]

def Operator.toElement (n : Operator Element) : Element :=
  .node "syntax" [("fixity", Keyword.spelling n.fixity)]
    [n.pos.toElement, .ofSlots "constraints" (n.precedence.map Precedence.toElement)]

/-- An item wraps the element of what it holds. -/
def Item.toElement : Item Element Element → Element
  | .statement e => .node "statement" [] [e]
  | .declaration d => .node "declaration" [] [d.toElement]

/-- The element of a scope. Each visibility has its bucket of definitions, empty or not. -/
def Scope.toElement (n : Scope Element Element) : Element :=
  .node "scope" [("id", toString n.id.number)]
    [n.pos.toElement,
      .ofMapping "builders" Builder.toElement n.builders,
      .ofMapping "syntax" Operator.toElement n.operators,
      .ofMapping "truths" Truth.toElement n.truths,
      .node "defs" [] (n.definitions.toList.map fun (v, ds) =>
        .ofSlots (Keyword.spelling v) (ds.map Definition.toElement)),
      .ofSlots "proofs" (n.proofs.map Proof.toElement),
      .ofSlots "imports" (n.imports.map Import.toElement)]

/-- The element of a component. The name to export is an attribute, if there is one. -/
def Component.toElement (n : Component Element Element) : Element :=
  .node "component" (n.expected.map fun name => ("expected", toString name.raw)).toList
    [n.scope.toElement]

/-- The element of a form, named after its variant, with a child for its position. -/
def Form.toElement : Form Element Element → Element
  | .block pos items =>
    .node "compound" [] [pos.toElement, .ofSlots "items" (items.map Item.toElement)]
  | .abstraction pos binder cases =>
    .node "abs" [("kind", Keyword.spelling binder)]
      [pos.toElement, .ofSlots "cases" (cases.map Case.toElement)]
  | .matching pos scrutinee cases =>
    .node "match" []
      [pos.toElement, .ofSlot "scrutinee" scrutinee, .ofSlots "cases" (cases.map Case.toElement)]
  | .ascription pos value type =>
    .node "ascribe" [] [pos.toElement, .ofSlot "value" value, .ofSlot "type" type]
  | .chain pos items => .node "seq" [] [pos.toElement, .ofSlots "items" items]
  | .record pos fields => .node "record" [] [pos.toElement, .ofMapping "fields" id fields]
  | .recordType pos fields => .node "record-type" [] [pos.toElement, fields.toElement]
  | .tuple pos items => .node "tuple" [] [pos.toElement, .ofSlots "items" items]
  | .projection pos value path =>
    .node "project" []
      [pos.toElement, .ofSlot "value" value, .ofSlots "path" (path.map Name.toElement)]
  | .reference pos target => .node "sym" [] [pos.toElement, .ofSlot "reference" target]
  | .application pos function argument =>
    .node "with" []
      [pos.toElement, .ofSlot "function" function, .ofSlot "argument" argument]
  | .refinement pos value proposition =>
    .node "where" []
      [pos.toElement, .ofSlot "value" value, .ofSlot "proposition" proposition]
  | .anonymous pos kind supers params body =>
    .node "anon" [("kind", Keyword.spelling kind)]
      [pos.toElement, .ofSlots "supers" supers, .ofSlot "params" params.toElement,
        .ofSlot "body" body.toElement]
  | .literal l => l.toElement

/-- The element of a node of any kind. -/
def Kind.toElement : (k : Kind) → k.Tree Element Element → Element
  | ref, n => n
  | span, n => n.toElement
  | literal, n => n.toElement
  | entry, n => n.toElement
  | field, n => n.toElement
  | fields, n => n.toElement
  | case, n => n.toElement
  | definition, n => n.toElement
  | imported, n => n.toElement
  | proof, n => n.toElement
  | truth, n => n.toElement
  | builder, n => n.toElement
  | precedence, n => n.toElement
  | operator, n => n.toElement
  | scope, n => n.toElement
  | component, n => n.toElement
  | pattern, n => n.toElement
  | item, n => n.toElement
  | expr, n => n.toElement

end SurfaceTree
