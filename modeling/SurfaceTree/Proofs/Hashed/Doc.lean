import SurfaceTree.Proofs.Hashed.Encode
import SurfaceTree.Proofs.Printing

namespace SurfaceTree

namespace HashTable

variable {V W : Type}

/-- The documents of the bindings of a table, by ascending name. -/
def docs (doc : Name → V → Doc) (t : HashTable V) : List Doc :=
  t.sorted.map fun (name, v) => doc name v

/-- The documents of a table are those of its mapping if the values agree. -/
theorem docs_plain {f : V → W} {doc : Name → V → Doc} (doc' : Name → W → Doc)
    (agree : ∀ name v, doc name v = doc' name (f v)) (t : HashTable V) :
    t.docs doc = (t.plain f).toList.map fun (name, w) => doc' name w := t.map_sorted agree

end HashTable

namespace Hashed

variable {P E R : Type}

/-- Parenthesizes a pattern that would otherwise reach past its place. -/
def PatternForm.atomic (p : PatternForm P E R) (doc : Doc) : Doc :=
  match p with
  | .alternatives .. | .construct .. | .typed .. => .concat [.text "(", doc, .text ")"]
  | .split .. | .named .. | .bind .. | .literal .. => doc

/-- Parenthesizes a nested pattern by its outer layer. -/
def Pattern.atomic : (depth : Nat) → Pattern E R depth → Doc → Doc
  | _ + 1, p, doc => PatternForm.atomic p doc

section Docs

variable (look : Lookups) (pat : P → Doc) (exp : E → Doc) (ref : R → Doc)

/-- The document of a layer of a pattern, given those of the patterns in it on their own and as
`atom` parenthesizes them. The table of a split prints by ascending name. -/
def PatternForm.doc (atom : P → Doc) : PatternForm P E R → Doc
  | .alternatives _ choices => .group (.join (.concat [.line, .text "| "]) (choices.map pat))
  | .construct _ head argument => .concat [ref head, .text " ", atom argument]
  | .split _ fields strict =>
    .bracket "\x7b"
      ((fields.docs fun name p => look.binding " = " name (pat p))
        ++ if strict then [] else [.text ".."]) "," "\x7d"
  | .typed _ pattern type => .concat [atom pattern, .text " : ", exp type]
  | .named _ name pattern => .concat [look.name name, .text " @ ", atom pattern]
  | .bind _ name => look.name name
  | .literal l => l.doc look

/-- The document of an entry, in braces if it is implicit. -/
def Entry.doc (n : Entry P) : Doc :=
  if n.implicit then .concat [.text "\x7b", pat n.pattern, .text "\x7d"] else pat n.pattern

/-- The document of a field, with its default behind it. -/
def Field.doc (n : Field P E) : Doc :=
  match n.default with
  | some default => .concat [n.entry.doc pat, .text " = ", exp default]
  | none => n.entry.doc pat

/-- The documents of fields, each looked up in declared order. -/
def Fields.docs (sep : String) (n : Fields P E) : List Doc :=
  n.listed.map fun (name, field) => look.binding sep name (field.doc pat exp)

def Fields.doc (n : Fields P E) : Doc := .bracket "(" (n.docs look pat exp ": ") "," ")"

def Case.doc (n : Case P E) : Doc :=
  .group (.concat [pat n.pattern, .text " =>", .indented (.concat [.line, exp n.body])])

def Definition.doc (n : Definition P E) : Doc :=
  let head := Doc.concat [.text "def ", pat n.pattern]
  match n.init with
  | some init => .group (.concat [head, .text " =", .indented (.concat [.line, exp init])])
  | none => head

/-- The document of a builder that a scope binds to a name. -/
def Builder.doc (name : Name) (n : Builder P E) : Doc :=
  .group (.concat
    [Keyword.doc n.visibility, .text " ", Keyword.doc n.kind, .text " ", look.name name,
      n.params.doc look pat exp, .supers (n.supers.map exp), .text " =",
      .indented (.concat [.line, exp n.body])])

def Item.doc : Item P E → Doc
  | .statement e => exp e
  | .declaration d => d.doc pat exp

/-- The documents of what a scope holds. Its namespaces print by ascending name. -/
def Scope.itemDocs (n : Scope P E R) : List Doc :=
  n.imports.map (fun i => (i.map exp).doc)
    ++ (n.operators.docs fun name o => (o.map exp).doc look name)
    ++ n.builders.docs (Builder.doc look pat exp)
    ++ (n.definitions.toList.flatMap fun (v, ds) =>
      ds.map fun d => .concat [Keyword.doc v, .text " ", d.doc pat exp])
    ++ (n.truths.docs fun name t => (t.map exp).doc look name)
    ++ n.proofs.map (fun p => (p.map exp ref).doc)

def Scope.doc (n : Scope P E R) : Doc :=
  .block (.text ("scope#" ++ toString n.id.number)) (n.itemDocs look pat exp ref)

def Component.doc (n : Component P E R) : Doc :=
  let head :=
    match n.expected with
    | some name => Doc.concat [.text "component ", look.name name, .text " "]
    | none => .text "component "
  .concat [head, n.scope.doc look pat exp ref]

/-- The document of a layer of an expression. The table of a record prints by ascending name. -/
def Form.doc : Form P E R → Doc
  | .block _ items => .bracket "\x7b" (items.map (Item.doc pat exp)) ";" "\x7d"
  | .abstraction _ binder cases => .cases (Keyword.doc binder) (cases.map (Case.doc pat exp))
  | .matching _ scrutinee cases =>
    .cases (.concat [.text "match ", exp scrutinee]) (cases.map (Case.doc pat exp))
  | .ascription _ value type =>
    .group (.concat
      [.text "(", exp value, .text " :", .indented (.concat [.line, exp type]), .text ")"])
  | .chain _ items => .bracket "(" (items.map exp) "" ")"
  | .record _ fields =>
    .bracket "\x7b" (fields.docs fun name e => look.binding " = " name (exp e)) "," "\x7d"
  | .recordType _ fields => .bracket "\x7b" (fields.docs look pat exp " : ") "," "\x7d"
  | .tuple _ items => .bracket "(" (items.map exp) "," ")"
  | .projection _ value path =>
    .concat (exp value :: path.flatMap fun field => [.text ".", look.name field])
  | .reference _ target => ref target
  | .application _ function argument =>
    .group (.concat [exp function, .text " with", .indented (.concat [.line, exp argument])])
  | .refinement _ value proposition =>
    .group (.concat [exp value, .indented (.concat [.line, .text "where ", exp proposition])])
  | .anonymous _ kind supers params body =>
    .concat [Keyword.doc kind, params.doc look pat exp, .supers (supers.map exp), .text " ",
      body.doc look pat exp ref]
  | .literal l => l.doc look

/-- The document of a layer of a node. Truths, builders and operators print only under a name. -/
def Tree.doc? : (k : Kind) → Tree P E R k → Option Doc
  | .ref, n => some (ref n)
  | .span, n => some (Span.doc look n)
  | .literal, n => some (Literal.doc look n)
  | .entry, n => some (Entry.doc pat n)
  | .field, n => some (Field.doc pat exp n)
  | .fields, n => some (Fields.doc look pat exp n)
  | .case, n => some (Case.doc pat exp n)
  | .definition, n => some (Definition.doc pat exp n)
  | .imported, n => some (Import.map exp n).doc
  | .proof, n => some (Proof.map exp ref n).doc
  | .truth, _ => none
  | .builder, _ => none
  | .precedence, n => some (Precedence.map exp n).doc
  | .operator, _ => none
  | .scope, n => some (Scope.doc look pat exp ref n)
  | .component, n => some (Component.doc look pat exp ref n)
  | .pattern, n => some (pat n)
  | .item, n => some (Item.doc pat exp n)
  | .expr, n => some (Form.doc look pat exp ref n)

/-- The document of a pattern, with the tables at every depth printed by ascending name. -/
def Pattern.doc : (depth : Nat) → Pattern E R depth → Doc
  | depth + 1, p =>
    PatternForm.doc look (Pattern.doc depth) exp ref
      (fun q => Pattern.atomic depth q (Pattern.doc depth q)) p

end Docs

section

variable {look : Lookups} {pattern : P → SurfaceTree.Pattern E R} {pat : P → Doc} {exp : E → Doc}
  {ref : R → Doc} (patterns : ∀ p, pat p = ((pattern p).map exp ref).doc look)

theorem PatternForm.atomic_plain (p : PatternForm P E R) (doc : Doc) :
    p.atomic doc = ((p.plain pattern).map exp ref).atomic doc := by
  cases p <;> rfl

include patterns

/-- The document of a layer of a pattern is that of its listed form if the slots agree. -/
theorem PatternForm.doc_plain {atom : P → Doc}
    (atoms : ∀ p, atom p = ((pattern p).map exp ref).atomic (pat p)) (p : PatternForm P E R) :
    p.doc look pat exp ref atom = ((p.plain pattern).map exp ref).doc look := by
  cases p with
  | alternatives pos choices =>
    simp only [doc, map_eq_map_map patterns, plain, SurfaceTree.Pattern.map, Pattern.mapAll_eq,
      SurfaceTree.Pattern.doc, Pattern.docs_eq, List.map_map, Function.comp_def]
  | split pos fields strict =>
    have rows := fields.docs_plain (f := fun p => (pattern p).map exp ref)
      (fun name p => look.binding " = " name (p.doc look))
      fun name p => congrArg (look.binding " = " name) (patterns p)
    rw [plain, Pattern.map_split, HashTable.plain_map, SurfaceTree.Pattern.doc,
      Pattern.docsOfRow_eq, doc, rows]
    rfl
  | _ =>
    simp only [doc, atoms, patterns]
    rfl

theorem Entry.doc_plain (n : Entry P) : n.doc pat = ((n.plain pattern).map exp ref).doc look := by
  rw [doc, patterns]
  rfl

theorem Field.doc_plain (n : Field P E) :
    n.doc pat exp = ((n.plain pattern).map exp ref).doc look := by
  obtain ⟨pos, entry, default⟩ := n
  have shown := entry.doc_plain patterns
  cases default <;> simp only [doc, shown] <;> rfl

/-- The documents of a field list are those of its listed form. -/
theorem Fields.docs_plain (sep : String) (n : Fields P E) :
    n.docs look pat exp sep = ((n.plain pattern).map exp ref).docs look sep := by
  rw [SurfaceTree.Fields.docs, SurfaceTree.Fields.toList_map, toList_plain, List.map_map,
    List.map_map]
  exact List.map_congr_left fun entry _ =>
    congrArg (look.binding sep entry.1) (entry.2.doc_plain patterns)

theorem Fields.doc_plain (n : Fields P E) :
    n.doc look pat exp = ((n.plain pattern).map exp ref).doc look := by
  rw [doc, Fields.docs_plain patterns]
  rfl

theorem Case.doc_plain (n : Case P E) :
    n.doc pat exp = ((n.plain pattern).map exp ref).doc look := by
  rw [doc, patterns]
  rfl

theorem Definition.doc_plain (n : Definition P E) :
    n.doc pat exp = ((n.plain pattern).map exp ref).doc look := by
  obtain ⟨pos, p, init⟩ := n
  cases init <;> simp only [doc, patterns] <;> rfl

theorem Builder.doc_plain (name : Name) (n : Builder P E) :
    n.doc look pat exp name = ((n.plain pattern).map exp ref).doc look name := by
  rw [doc, Fields.doc_plain patterns]
  rfl

theorem Item.doc_plain (n : Item P E) :
    n.doc pat exp = ((n.plain pattern).map exp ref).doc look := by
  cases n with
  | statement e => rfl
  | declaration d => exact d.doc_plain patterns

/-- A scope prints what its listed form prints, piece by piece. -/
theorem Scope.itemDocs_plain (n : Scope P E R) :
    n.itemDocs look pat exp ref = ((n.plain pattern).map exp ref).itemDocs look := by
  have operators := n.operators.docs_plain (f := Operator.map exp)
    (fun name o => o.doc look name) fun _ _ => rfl
  have builders := n.builders.docs_plain (f := fun b => (b.plain pattern).map exp ref)
    (fun name b => b.doc look name) fun name b => b.doc_plain patterns name
  have truths := n.truths.docs_plain (f := Truth.map exp)
    (fun name t => t.doc look name) fun _ _ => rfl
  simp only [itemDocs, operators, builders, truths, Definition.doc_plain patterns, plain,
    SurfaceTree.Scope.map, SurfaceTree.Scope.itemDocs, SurfaceTree.Scope.allDefinitions,
    HashTable.plain_map, VisibilityTable.toList, VisibilityTable.map, List.flatMap_cons,
    List.flatMap_nil, List.map_append, List.map_map, Function.comp_def]
  rfl

theorem Scope.doc_plain (n : Scope P E R) :
    n.doc look pat exp ref = ((n.plain pattern).map exp ref).doc look := by
  rw [doc, Scope.itemDocs_plain patterns]
  rfl

theorem Component.doc_plain (n : Component P E R) :
    n.doc look pat exp ref = ((n.plain pattern).map exp ref).doc look := by
  rw [doc, Scope.doc_plain patterns]
  rfl

/-- The document of a layer of an expression is that of its listed form if the slots agree. -/
theorem Form.doc_plain (n : Form P E R) :
    n.doc look pat exp ref = ((n.plain pattern).map exp ref).doc look := by
  have cases := map_eq_map_map (Case.doc_plain patterns)
  cases n with
  | block pos items =>
    rw [doc, map_eq_map_map (Item.doc_plain patterns)]
    simp only [plain, SurfaceTree.Form.map, SurfaceTree.Form.doc, List.map_map, Function.comp_def]
  | abstraction pos binder branches =>
    simp only [doc, cases, plain, SurfaceTree.Form.map, SurfaceTree.Form.doc, List.map_map,
      Function.comp_def]
  | matching pos scrutinee branches =>
    simp only [doc, cases, plain, SurfaceTree.Form.map, SurfaceTree.Form.doc, List.map_map,
      Function.comp_def]
  | record pos fields =>
    have rows := fields.docs_plain (f := exp) (look.binding " = ") fun _ _ => rfl
    simp only [doc, rows, plain, SurfaceTree.Form.map, SurfaceTree.Form.doc, HashTable.plain_map]
  | recordType pos fields =>
    rw [doc, fields.docs_plain patterns]
    rfl
  | anonymous pos kind supers params body =>
    rw [doc, params.doc_plain patterns, body.doc_plain patterns]
    rfl
  | _ => rfl

/-- The document of a layer of a node of any kind is that of its listed form if the slots agree. -/
theorem Tree.doc?_plain (k : Kind) (n : Tree P E R k) :
    Tree.doc? look pat exp ref k n = k.doc? look (k.rewrite exp ref (Tree.plain pattern k n)) := by
  cases k with
  | entry => exact congrArg some (Entry.doc_plain patterns n)
  | field => exact congrArg some (Field.doc_plain patterns n)
  | fields => exact congrArg some (Fields.doc_plain patterns n)
  | case => exact congrArg some (Case.doc_plain patterns n)
  | definition => exact congrArg some (Definition.doc_plain patterns n)
  | scope => exact congrArg some (Scope.doc_plain patterns n)
  | component => exact congrArg some (Component.doc_plain patterns n)
  | pattern => exact congrArg some (patterns n)
  | item => exact congrArg some (Item.doc_plain patterns n)
  | expr => exact congrArg some (Form.doc_plain patterns n)
  | _ => rfl

end

theorem Pattern.atomic_plain (exp : E → Doc) (ref : R → Doc) (depth : Nat) (p : Pattern E R depth)
    (doc : Doc) : Pattern.atomic depth p doc = ((p.plain depth).map exp ref).atomic doc := by
  cases depth with
  | zero => exact nomatch p
  | succ depth => exact PatternForm.atomic_plain p doc

/-- The document of a pattern is that of its listed form at every depth. -/
theorem Pattern.doc_plain (look : Lookups) (exp : E → Doc) (ref : R → Doc) (depth : Nat)
    (p : Pattern E R depth) :
    Pattern.doc look exp ref depth p = ((p.plain depth).map exp ref).doc look := by
  induction depth with
  | zero => exact nomatch p
  | succ depth ih => exact PatternForm.doc_plain ih (fun q => Pattern.atomic_plain exp ref depth q _) p

end Hashed

end SurfaceTree
