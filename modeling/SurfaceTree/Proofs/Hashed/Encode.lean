import SurfaceTree.Proofs.Codec.Nodes
import SurfaceTree.Proofs.Hashed.Tree

namespace SurfaceTree

/-- Items may be rewritten before a list is mapped. -/
theorem map_eq_map_map {α β γ : Type} {f : α → γ} {g : α → β} {h : β → γ} (agree : ∀ a, f a = h (g a))
    (xs : List α) : xs.map f = (xs.map g).map h := by
  rw [List.map_map]
  exact List.map_congr_left fun a _ => agree a

namespace Hashed

variable {P E R : Type}

section Elements

variable (pat : P → Element) (exp : E → Element) (ref : R → Element)

/-- The element of a layer of a pattern. The table of a split is written by its sorted listing. -/
def PatternForm.toElement : PatternForm P E R → Element
  | .alternatives pos choices =>
    .node "option" [] [pos.toElement, .ofSlots "alternatives" (choices.map pat)]
  | .construct pos head argument =>
    .node "deconstruct" []
      [pos.toElement, .ofSlot "constructor" (ref head), .ofSlot "argument" (pat argument)]
  | .split pos fields strict =>
    .node "split" [("strict", toString strict)] [pos.toElement, fields.toElement "fields" pat]
  | .typed pos pattern type =>
    .node "typed" [] [pos.toElement, .ofSlot "pattern" (pat pattern), .ofSlot "type" (exp type)]
  | .named pos name pattern =>
    .node "as" [("name", toString name.raw)] [pos.toElement, .ofSlot "pattern" (pat pattern)]
  | .bind pos name => .node "name" [("name", toString name.raw)] [pos.toElement]
  | .literal l => .node "exact" [] [l.toElement]

def Entry.toElement (n : Entry P) : Element :=
  .node "entry" [("implicit", toString n.implicit)]
    [n.pos.toElement, .ofSlot "pattern" (pat n.pattern)]

def Field.toElement (n : Field P E) : Element :=
  .node "field" []
    ([n.pos.toElement, n.entry.toElement pat] ++ Element.ofSlot? "default" (n.default.map exp))

/-- The element of a field list: its table by its sorted listing, and then the declared order. -/
def Fields.toElement (n : Fields P E) : Element :=
  .node "fields" []
    [n.bindings.toElement "bindings" (Field.toElement pat exp),
      .ofSlots "order" (n.order.map Name.toOrderKey)]

def Case.toElement (n : Case P E) : Element :=
  .node "case" []
    [n.pos.toElement, .ofSlot "pattern" (pat n.pattern), .ofSlot "body" (exp n.body)]

def Definition.toElement (n : Definition P E) : Element :=
  .node "def" []
    ([n.pos.toElement, .ofSlot "pattern" (pat n.pattern)]
      ++ Element.ofSlot? "init" (n.init.map exp))

def Builder.toElement (n : Builder P E) : Element :=
  .node "builder"
    [("kind", Keyword.spelling n.kind), ("visibility", Keyword.spelling n.visibility)]
    [n.pos.toElement, .ofSlot "params" (n.params.toElement pat exp),
      .ofSlots "supers" (n.supers.map exp), .ofSlot "body" (exp n.body)]

def Item.toElement : Item P E → Element
  | .statement e => .node "statement" [] [exp e]
  | .declaration d => .node "declaration" [] [d.toElement pat exp]

/-- The element of a scope. Its namespaces are written by their sorted listings. -/
def Scope.toElement (n : Scope P E R) : Element :=
  .node "scope" [("id", toString n.id.number)]
    [n.pos.toElement,
      n.builders.toElement "builders" (Builder.toElement pat exp),
      n.operators.toElement "syntax" fun o => (o.map exp).toElement,
      n.truths.toElement "truths" fun t => (t.map exp).toElement,
      .node "defs" [] (n.definitions.toList.map fun (v, ds) =>
        .ofSlots (Keyword.spelling v) (ds.map (Definition.toElement pat exp))),
      .ofSlots "proofs" (n.proofs.map fun p => (p.map exp ref).toElement),
      .ofSlots "imports" (n.imports.map fun i => (i.map exp).toElement)]

def Component.toElement (n : Component P E R) : Element :=
  .node "component" (n.expected.map fun name => ("expected", toString name.raw)).toList
    [n.scope.toElement pat exp ref]

/-- The element of a layer of an expression. The table of a record is written by its sorted
listing. -/
def Form.toElement : Form P E R → Element
  | .block pos items =>
    .node "compound" [] [pos.toElement, .ofSlots "items" (items.map (Item.toElement pat exp))]
  | .abstraction pos binder cases =>
    .node "abs" [("kind", Keyword.spelling binder)]
      [pos.toElement, .ofSlots "cases" (cases.map (Case.toElement pat exp))]
  | .matching pos scrutinee cases =>
    .node "match" []
      [pos.toElement, .ofSlot "scrutinee" (exp scrutinee),
        .ofSlots "cases" (cases.map (Case.toElement pat exp))]
  | .ascription pos value type =>
    .node "ascribe" [] [pos.toElement, .ofSlot "value" (exp value), .ofSlot "type" (exp type)]
  | .chain pos items => .node "seq" [] [pos.toElement, .ofSlots "items" (items.map exp)]
  | .record pos fields => .node "record" [] [pos.toElement, fields.toElement "fields" exp]
  | .recordType pos fields => .node "record-type" [] [pos.toElement, fields.toElement pat exp]
  | .tuple pos items => .node "tuple" [] [pos.toElement, .ofSlots "items" (items.map exp)]
  | .projection pos value path =>
    .node "project" []
      [pos.toElement, .ofSlot "value" (exp value), .ofSlots "path" (path.map Name.toElement)]
  | .reference pos target => .node "sym" [] [pos.toElement, .ofSlot "reference" (ref target)]
  | .application pos function argument =>
    .node "with" []
      [pos.toElement, .ofSlot "function" (exp function), .ofSlot "argument" (exp argument)]
  | .refinement pos value proposition =>
    .node "where" []
      [pos.toElement, .ofSlot "value" (exp value), .ofSlot "proposition" (exp proposition)]
  | .anonymous pos kind supers params body =>
    .node "anon" [("kind", Keyword.spelling kind)]
      [pos.toElement, .ofSlots "supers" (supers.map exp),
        .ofSlot "params" (params.toElement pat exp), .ofSlot "body" (body.toElement pat exp ref)]
  | .literal l => l.toElement

/-- The element of a layer of a node of any kind. -/
def Tree.toElement : (k : Kind) → Tree P E R k → Element
  | .ref, n => ref n
  | .span, n => Span.toElement n
  | .literal, n => Literal.toElement n
  | .entry, n => Entry.toElement pat n
  | .field, n => Field.toElement pat exp n
  | .fields, n => Fields.toElement pat exp n
  | .case, n => Case.toElement pat exp n
  | .definition, n => Definition.toElement pat exp n
  | .imported, n => (Import.map exp n).toElement
  | .proof, n => (Proof.map exp ref n).toElement
  | .truth, n => (Truth.map exp n).toElement
  | .builder, n => Builder.toElement pat exp n
  | .precedence, n => (Precedence.map exp n).toElement
  | .operator, n => (Operator.map exp n).toElement
  | .scope, n => Scope.toElement pat exp ref n
  | .component, n => Component.toElement pat exp ref n
  | .pattern, n => pat n
  | .item, n => Item.toElement pat exp n
  | .expr, n => Form.toElement pat exp ref n

/-- The element of a pattern, with the tables at every depth written by their sorted listings. -/
def Pattern.toElement : (depth : Nat) → Pattern E R depth → Element
  | depth + 1, p => PatternForm.toElement (Pattern.toElement depth) exp ref p

end Elements

section

variable {pattern : P → SurfaceTree.Pattern E R} {pat : P → Element} {exp : E → Element}
  {ref : R → Element} (patterns : ∀ p, pat p = ((pattern p).map exp ref).toElement)

include patterns

/-- The element of a layer of a pattern is that of its listed form if the slots agree. -/
theorem PatternForm.toElement_plain (p : PatternForm P E R) :
    p.toElement pat exp ref = ((p.plain pattern).map exp ref).toElement := by
  cases p with
  | alternatives pos choices =>
    simp only [toElement, map_eq_map_map patterns, plain, SurfaceTree.Pattern.map,
      Pattern.mapAll_eq, SurfaceTree.Pattern.toElement, Pattern.toElements_eq, List.map_map,
      Function.comp_def]
  | split pos fields strict =>
    rw [toElement, HashTable.toElement_plain _ patterns, plain, Pattern.map_split,
      HashTable.plain_map, SurfaceTree.Pattern.toElement, Pattern.entriesOfRow_eq]
    rfl
  | _ =>
    simp only [toElement, patterns]
    rfl

theorem Entry.toElement_plain (n : Entry P) :
    n.toElement pat = ((n.plain pattern).map exp ref).toElement := by
  rw [toElement, patterns]
  rfl

theorem Field.toElement_plain (n : Field P E) :
    n.toElement pat exp = ((n.plain pattern).map exp ref).toElement := by
  rw [toElement, Entry.toElement_plain patterns]
  rfl

theorem Fields.toElement_plain (n : Fields P E) :
    n.toElement pat exp = ((n.plain pattern).map exp ref).toElement := by
  rw [SurfaceTree.Fields.toElement, SurfaceTree.Fields.bindings_map, bindings_plain,
    HashTable.plain_map, ← HashTable.toElement_plain _ (Field.toElement_plain patterns)]
  rfl

theorem Case.toElement_plain (n : Case P E) :
    n.toElement pat exp = ((n.plain pattern).map exp ref).toElement := by
  rw [toElement, patterns]
  rfl

theorem Definition.toElement_plain (n : Definition P E) :
    n.toElement pat exp = ((n.plain pattern).map exp ref).toElement := by
  rw [toElement, patterns]
  rfl

theorem Builder.toElement_plain (n : Builder P E) :
    n.toElement pat exp = ((n.plain pattern).map exp ref).toElement := by
  rw [toElement, Fields.toElement_plain patterns]
  rfl

theorem Item.toElement_plain (n : Item P E) :
    n.toElement pat exp = ((n.plain pattern).map exp ref).toElement := by
  cases n with
  | statement e => rfl
  | declaration d =>
    rw [toElement, d.toElement_plain patterns]
    rfl

theorem Scope.toElement_plain (n : Scope P E R) :
    n.toElement pat exp ref = ((n.plain pattern).map exp ref).toElement := by
  have operators (o : Operator E) : (o.map exp).toElement = Operator.toElement (o.map exp) := rfl
  have truths (t : Truth E) : (t.map exp).toElement = Truth.toElement (t.map exp) := rfl
  rw [toElement, HashTable.toElement_plain "builders" (Builder.toElement_plain patterns),
    HashTable.toElement_plain "syntax" operators, HashTable.toElement_plain "truths" truths]
  simp only [map_eq_map_map (Definition.toElement_plain patterns), plain, SurfaceTree.Scope.map,
    SurfaceTree.Scope.toElement, HashTable.plain_map, VisibilityTable.toList, VisibilityTable.map,
    List.map_cons, List.map_nil, List.map_map, Function.comp_def]

theorem Component.toElement_plain (n : Component P E R) :
    n.toElement pat exp ref = ((n.plain pattern).map exp ref).toElement := by
  rw [toElement, Scope.toElement_plain patterns]
  rfl

/-- The element of a layer of an expression is that of its listed form if the slots agree. -/
theorem Form.toElement_plain (n : Form P E R) :
    n.toElement pat exp ref = ((n.plain pattern).map exp ref).toElement := by
  have cases := map_eq_map_map (Case.toElement_plain patterns)
  cases n with
  | block pos items =>
    rw [toElement, map_eq_map_map (Item.toElement_plain patterns)]
    simp only [plain, SurfaceTree.Form.map, SurfaceTree.Form.toElement, List.map_map,
      Function.comp_def]
  | abstraction pos binder branches =>
    simp only [toElement, cases, plain, SurfaceTree.Form.map, SurfaceTree.Form.toElement,
      List.map_map, Function.comp_def]
  | matching pos scrutinee branches =>
    simp only [toElement, cases, plain, SurfaceTree.Form.map, SurfaceTree.Form.toElement,
      List.map_map, Function.comp_def]
  | record pos fields =>
    rw [toElement, HashTable.toElement_plain "fields" fun e => show exp e = id (exp e) from rfl]
    simp only [plain, SurfaceTree.Form.map, SurfaceTree.Form.toElement, HashTable.plain_map]
  | recordType pos fields =>
    rw [toElement, fields.toElement_plain patterns]
    rfl
  | anonymous pos kind supers params body =>
    rw [toElement, params.toElement_plain patterns, body.toElement_plain patterns]
    rfl
  | _ => rfl

/-- The element of a layer of a node of any kind is that of its listed form if the slots agree. -/
theorem Tree.toElement_plain (k : Kind) (n : Tree P E R k) :
    Tree.toElement pat exp ref k n = k.toElement (k.rewrite exp ref (Tree.plain pattern k n)) := by
  cases k with
  | entry => exact Entry.toElement_plain patterns n
  | field => exact Field.toElement_plain patterns n
  | fields => exact Fields.toElement_plain patterns n
  | case => exact Case.toElement_plain patterns n
  | definition => exact Definition.toElement_plain patterns n
  | builder => exact Builder.toElement_plain patterns n
  | scope => exact Scope.toElement_plain patterns n
  | component => exact Component.toElement_plain patterns n
  | pattern => exact patterns n
  | item => exact Item.toElement_plain patterns n
  | expr => exact Form.toElement_plain patterns n
  | _ => rfl

end

/-- The element of a pattern is that of its listed form at every depth. -/
theorem Pattern.toElement_plain (exp : E → Element) (ref : R → Element) (depth : Nat)
    (p : Pattern E R depth) :
    Pattern.toElement exp ref depth p = ((p.plain depth).map exp ref).toElement := by
  induction depth with
  | zero => exact nomatch p
  | succ depth ih => exact PatternForm.toElement_plain ih p

end Hashed

end SurfaceTree
