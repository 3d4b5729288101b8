import SurfaceTree.Codec.Element

namespace SurfaceTree

variable {E R : Type}

/-- Reads the offsets of a position. -/
def Span.decode (x : Element) : Except DecodeError Span := do
  x.checkName "pos"
  return ⟨← x.attrAs "start" Digits.word32?, ← x.attrAs "end" Digits.word32?⟩

/-- The position child of an element. -/
def Element.pos (x : Element) : Except DecodeError Span := do
  Span.decode (← x.child "pos")

def Name.decode (x : Element) : Except DecodeError Name := do
  x.checkName "name"
  x.nameAttr "id"

/-- Reads a symbol from its scope and its name. -/
def Symbol.decode (x : Element) : Except DecodeError Symbol := do
  x.checkName "symbol"
  return ⟨⟨← x.attrAs "scope" Digits.word32?⟩, ← x.nameAttr "name"⟩

/-- The character with a code point. Surrogates and numbers past the last code point have none. -/
def charOfCode? (code : UInt32) : Option Char :=
  if valid : code.isValidChar then some ⟨code, valid⟩ else none

/-- Reads a literal value of a kind from its number. -/
def LiteralValue.read? (numeral : String) : (kind : String) → Option (Option LiteralValue)
  | "int" => some ((Digits.int64? numeral).map .int)
  | "float" => some ((Digits.word64? numeral).map .float)
  | "str" => some ((Digits.word32? numeral).map fun raw => .str ⟨raw⟩)
  | "char" => some ((Digits.word32? numeral >>= charOfCode?).map .char)
  | _ => none

/-- Reads a literal. Its value is in the text of the element, and the attribute `kind` says of what
kind it is. -/
def Literal.decode (x : Element) : Except DecodeError Literal := do
  x.checkName "literal"
  let numeral := x.text.getD ""
  let kind ← x.attr "kind"
  match LiteralValue.read? numeral kind with
  | none => .error (.badAttribute x.name "kind" kind)
  | some none => .error (.badAttribute x.name "value" numeral)
  | some (some value) => return ⟨← x.pos, value⟩

/-- Reads a pattern, given how the patterns inside it are read. -/
def Pattern.decodeVariant (pattern : Element → Except DecodeError (Pattern E R))
    (expr : Element → Except DecodeError E) (ref : Element → Except DecodeError R) (x : Element) :
    Except DecodeError (Pattern E R) :=
  match x.name with
  | "option" => do return .alternatives (← x.pos) (← x.slots "alternatives" pattern)
  | "deconstruct" => do
    return .construct (← x.pos) (← ref (← x.slot "constructor"))
      (← pattern (← x.slot "argument"))
  | "split" => do
    return .split (← x.pos) (← x.mapping "fields" pattern) (← x.boolAttr "strict")
  | "typed" => do
    return .typed (← x.pos) (← pattern (← x.slot "pattern")) (← expr (← x.slot "type"))
  | "as" => do
    return .named (← x.pos) (← x.nameAttr "name") (← pattern (← x.slot "pattern"))
  | "name" => do return .bind (← x.pos) (← x.nameAttr "name")
  | "exact" => do return .literal (← Literal.decode (← x.child "literal"))
  | name => .error (.unknownElement "a pattern" name)

/-- Reads a pattern from an element of at most some depth. -/
def Pattern.decodeWithin (expr : Element → Except DecodeError E)
    (ref : Element → Except DecodeError R) : Nat → Element → Except DecodeError (Pattern E R)
  | 0, x => .error (.unknownElement "a pattern" x.name)
  | depth + 1, x => decodeVariant (decodeWithin expr ref depth) expr ref x

/-- Reads a pattern. An element is deeper than each of its children, so its depth is enough. -/
def Pattern.decode (expr : Element → Except DecodeError E) (ref : Element → Except DecodeError R)
    (x : Element) : Except DecodeError (Pattern E R) :=
  decodeWithin expr ref x.depth x

/-- Reads an entry. Of several faults the one that is met first is reported, here as below. -/
def Entry.decode (expr : Element → Except DecodeError E) (ref : Element → Except DecodeError R)
    (x : Element) : Except DecodeError (Entry E R) := do
  x.checkName "entry"
  return ⟨← x.pos, ← x.boolAttr "implicit", ← Pattern.decode expr ref (← x.slot "pattern")⟩

def Field.decode (expr : Element → Except DecodeError E) (ref : Element → Except DecodeError R)
    (x : Element) : Except DecodeError (Field E R) := do
  x.checkName "field"
  return ⟨← x.pos, ← Entry.decode expr ref (← x.child "entry"), ← x.slot? "default" expr⟩

/-- Reads a key of the declared order. -/
def Name.decodeOrderKey (x : Element) : Except DecodeError Name := do
  x.checkName "key"
  x.nameAttr "id"

/-- Reads a field list. Its bindings and its order have to list the same names. -/
def Fields.decode (expr : Element → Except DecodeError E) (ref : Element → Except DecodeError R)
    (x : Element) : Except DecodeError (Fields E R) := do
  x.checkName "fields"
  let bindings ← x.mapping "bindings" (Field.decode expr ref)
  let order ← x.slots "order" Name.decodeOrderKey
  (Fields.ofBindings bindings order).mapError .fields

def Case.decode (expr : Element → Except DecodeError E) (ref : Element → Except DecodeError R)
    (x : Element) : Except DecodeError (Case E R) := do
  x.checkName "case"
  return ⟨← x.pos, ← Pattern.decode expr ref (← x.slot "pattern"), ← expr (← x.slot "body")⟩

/-- Reads a definition. Its value may be missing. -/
def Definition.decode (expr : Element → Except DecodeError E)
    (ref : Element → Except DecodeError R) (x : Element) :
    Except DecodeError (Definition E R) := do
  x.checkName "def"
  return ⟨← x.pos, ← Pattern.decode expr ref (← x.slot "pattern"), ← x.slot? "init" expr⟩

def Import.decode (expr : Element → Except DecodeError E) (x : Element) :
    Except DecodeError (Import E) := do
  x.checkName "import"
  return ⟨← x.pos, ← x.keywordAttr "visibility", ← expr (← x.slot "target")⟩

def Proof.decode (expr : Element → Except DecodeError E) (ref : Element → Except DecodeError R)
    (x : Element) : Except DecodeError (Proof E R) := do
  x.checkName "proof"
  return ⟨← x.pos, ← ref (← x.slot "theorem"), ← expr (← x.slot "body")⟩

/-- Reads a truth. Its proof may be missing. -/
def Truth.decode (expr : Element → Except DecodeError E) (x : Element) :
    Except DecodeError (Truth E) := do
  x.checkName "truth"
  return ⟨← x.pos, ← x.keywordAttr "kind", ← x.keywordAttr "visibility",
    ← expr (← x.slot "prop"), ← x.slot? "proof" expr⟩

def Builder.decode (expr : Element → Except DecodeError E) (ref : Element → Except DecodeError R)
    (x : Element) : Except DecodeError (Builder E R) := do
  x.checkName "builder"
  return ⟨← x.pos, ← x.keywordAttr "kind", ← x.keywordAttr "visibility",
    ← Fields.decode expr ref (← x.slot "params"), ← x.slots "supers" expr,
    ← expr (← x.slot "body")⟩

def Precedence.decode (expr : Element → Except DecodeError E) (x : Element) :
    Except DecodeError (Precedence E) := do
  x.checkName "precedence"
  return ⟨← x.keywordAttr "relation", ← expr (← x.slot "operator")⟩

def Operator.decode (expr : Element → Except DecodeError E) (x : Element) :
    Except DecodeError (Operator E) := do
  x.checkName "syntax"
  return ⟨← x.pos, ← x.keywordAttr "fixity", ← x.slots "constraints" (Precedence.decode expr)⟩

/-- Reads an item by the name of its element. -/
def Item.decode (expr : Element → Except DecodeError E) (ref : Element → Except DecodeError R)
    (x : Element) : Except DecodeError (Item E R) :=
  match x.name with
  | "statement" => do return .statement (← expr (← x.onlyChild))
  | "declaration" => do return .declaration (← Definition.decode expr ref (← x.onlyChild))
  | name => .error (.unknownElement "a compound item" name)

/-- Reads one visibility bucket of a scope. -/
def Scope.decodeBucket (expr : Element → Except DecodeError E)
    (ref : Element → Except DecodeError R) (x : Element) :
    Except DecodeError (Visibility × List (Definition E R)) :=
  match Keyword.ofSpelling? x.name with
  | some v => do return (v, ← x.children.mapM (Definition.decode expr ref))
  | none => .error (.unknownElement "a visibility bucket" x.name)

/-- Reads a scope. Its buckets are looked at before all else. -/
def Scope.decode (expr : Element → Except DecodeError E) (ref : Element → Except DecodeError R)
    (x : Element) : Except DecodeError (Scope E R) := do
  x.checkName "scope"
  let buckets ← x.slots "defs" (Scope.decodeBucket expr ref)
  return {
    pos := ← x.pos
    id := ⟨← x.attrAs "id" Digits.word32?⟩
    builders := ← x.mapping "builders" (Builder.decode expr ref)
    operators := ← x.mapping "syntax" (Operator.decode expr)
    truths := ← x.mapping "truths" (Truth.decode expr)
    definitions := ← (VisibilityTable.ofList buckets).mapError .table
    proofs := ← x.slots "proofs" (Proof.decode expr ref)
    imports := ← x.slots "imports" (Import.decode expr) }

/-- Reads a component. The name it is expected to export may be missing. -/
def Component.decode (expr : Element → Except DecodeError E)
    (ref : Element → Except DecodeError R) (x : Element) :
    Except DecodeError (Component E R) := do
  x.checkName "component"
  let expected ←
    if (x.attrs.lookup "expected").isSome then some <$> x.nameAttr "expected" else pure none
  return ⟨expected, ← Scope.decode expr ref (← x.child "scope")⟩

/-- Reads a form by the name of its element. What a form does not ask for is passed over. -/
def Form.decode (expr : Element → Except DecodeError E) (ref : Element → Except DecodeError R)
    (x : Element) : Except DecodeError (Form E R) :=
  match x.name with
  | "compound" => do return .block (← x.pos) (← x.slots "items" (Item.decode expr ref))
  | "abs" => do
    return .abstraction (← x.pos) (← x.keywordAttr "kind")
      (← x.slots "cases" (Case.decode expr ref))
  | "match" => do
    return .matching (← x.pos) (← expr (← x.slot "scrutinee"))
      (← x.slots "cases" (Case.decode expr ref))
  | "ascribe" => do
    return .ascription (← x.pos) (← expr (← x.slot "value")) (← expr (← x.slot "type"))
  | "seq" => do return .chain (← x.pos) (← x.slots "items" expr)
  | "record" => do return .record (← x.pos) (← x.mapping "fields" expr)
  | "record-type" => do
    return .recordType (← x.pos) (← Fields.decode expr ref (← x.child "fields"))
  | "tuple" => do return .tuple (← x.pos) (← x.slots "items" expr)
  | "project" => do
    return .projection (← x.pos) (← expr (← x.slot "value")) (← x.slots "path" Name.decode)
  | "sym" => do return .reference (← x.pos) (← ref (← x.slot "reference"))
  | "with" => do
    return .application (← x.pos) (← expr (← x.slot "function"))
      (← expr (← x.slot "argument"))
  | "where" => do
    return .refinement (← x.pos) (← expr (← x.slot "value"))
      (← expr (← x.slot "proposition"))
  | "anon" => do
    return .anonymous (← x.pos) (← x.keywordAttr "kind") (← x.slots "supers" expr)
      (← Fields.decode expr ref (← x.slot "params"))
      (← Scope.decode expr ref (← x.slot "body"))
  | "literal" => do return .literal (← Literal.decode x)
  | name => .error (.unknownElement "an expression" name)

/-- Reads an expression from an element of at most some depth. -/
def Expr.decodeWithin (ref : Element → Except DecodeError R) :
    Nat → Element → Except DecodeError (Expr R)
  | 0, x => .error (.unknownElement "an expression" x.name)
  | depth + 1, x => .mk <$> Form.decode (decodeWithin ref depth) ref x

/-- Reads an expression. Its depth is enough, as each part lies deeper in the element. -/
def Expr.decode (ref : Element → Except DecodeError R) (x : Element) :
    Except DecodeError (Expr R) :=
  decodeWithin ref x.depth x

/-- Reads a node of any kind. -/
def Kind.decode (expr : Element → Except DecodeError E) (ref : Element → Except DecodeError R)
    (x : Element) : (k : Kind) → Except DecodeError (k.Tree E R)
  | Kind.ref => ref x
  | span => Span.decode x
  | literal => Literal.decode x
  | entry => Entry.decode expr ref x
  | field => Field.decode expr ref x
  | fields => Fields.decode expr ref x
  | case => Case.decode expr ref x
  | definition => Definition.decode expr ref x
  | imported => Import.decode expr x
  | proof => Proof.decode expr ref x
  | truth => Truth.decode expr x
  | builder => Builder.decode expr ref x
  | precedence => Precedence.decode expr x
  | operator => Operator.decode expr x
  | scope => Scope.decode expr ref x
  | component => Component.decode expr ref x
  | pattern => Pattern.decode expr ref x
  | item => Item.decode expr ref x
  | Kind.expr => Form.decode expr ref x

end SurfaceTree
