import SurfaceTree.Node
import SurfaceTree.Proofs.Hashed.Table

namespace SurfaceTree

namespace Hashed

/-- One layer of a pattern as it is held in memory, with the fields of a split in a hash table.
Patterns sit in the slots `P`, expressions in `E` and references in `R`. -/
inductive PatternForm (P E R : Type) where
  | alternatives (pos : Span) (choices : List P)
  | construct (pos : Span) (head : R) (argument : P)
  | split (pos : Span) (fields : HashTable P) (strict : Bool)
  | typed (pos : Span) (pattern : P) (type : E)
  | named (pos : Span) (name : Name) (pattern : P)
  | bind (pos : Span) (name : Name)
  | literal (literal : Literal)

/-- Patterns that are nested no deeper than `depth`. -/
def Pattern (E R : Type) : (depth : Nat) → Type
  | 0 => Empty
  | depth + 1 => PatternForm (Pattern E R depth) E R

/-- An entry whose pattern is held in memory. -/
structure Entry (P : Type) where
  pos : Span
  implicit : Bool
  pattern : P

/-- A field, with its entry and its default. -/
structure Field (P E : Type) where
  pos : Span
  entry : Entry P
  default : Option E

/-- A hash table of fields, and beside it the order in which they are declared. -/
structure Fields (P E : Type) where
  bindings : HashTable (Field P E)
  order : List Name
  distinct : order.Nodup
  lists : ∀ name, name ∈ order ↔ (bindings.get? name).isSome

/-- A case of an abstraction or of a match. -/
structure Case (P E : Type) where
  pos : Span
  pattern : P
  body : E

/-- A definition of a block or of a scope. -/
structure Definition (P E : Type) where
  pos : Span
  pattern : P
  init : Option E

/-- A builder of a scope. Its parameters are a field list with a hash table. -/
structure Builder (P E : Type) where
  pos : Span
  kind : BuilderKind
  visibility : Visibility
  params : Fields P E
  supers : List E
  body : E

/-- An item of a block. -/
inductive Item (P E : Type) where
  | statement (value : E)
  | declaration (definition : Definition P E)

/-- A scope with a hash table for each of its namespaces. -/
structure Scope (P E R : Type) where
  pos : Span
  id : ScopeId
  builders : HashTable (Builder P E)
  operators : HashTable (Operator E)
  truths : HashTable (Truth E)
  definitions : VisibilityTable (List (Definition P E))
  proofs : List (Proof E R)
  imports : List (Import E)

/-- A component around a scope with hash tables. -/
structure Component (P E R : Type) where
  expected : Option Name
  scope : Scope P E R

/-- One layer of an expression as it is held in memory, with the fields of a record in a hash
table. -/
inductive Form (P E R : Type) where
  | block (pos : Span) (items : List (Item P E))
  | abstraction (pos : Span) (binder : Binder) (cases : List (Case P E))
  | matching (pos : Span) (scrutinee : E) (cases : List (Case P E))
  | ascription (pos : Span) (value type : E)
  | chain (pos : Span) (items : List E)
  | record (pos : Span) (fields : HashTable E)
  | recordType (pos : Span) (fields : Fields P E)
  | tuple (pos : Span) (items : List E)
  | projection (pos : Span) (value : E) (path : List Name)
  | reference (pos : Span) (target : R)
  | application (pos : Span) (function argument : E)
  | refinement (pos : Span) (value proposition : E)
  | anonymous (pos : Span) (kind : BuilderKind) (supers : List E) (params : Fields P E)
      (body : Scope P E R)
  | literal (literal : Literal)

/-- Expressions that are nested no deeper than `depth`, with patterns in them that are not
either. -/
def Expr (R : Type) : (depth : Nat) → Type
  | 0 => Empty
  | depth + 1 => Form (Pattern (Expr R depth) R depth) (Expr R depth) R

/-- One layer of a node of any kind. Kinds that hold neither patterns nor mappings are those of
listed trees. -/
def Tree (P E R : Type) : Kind → Type
  | .ref => R
  | .span => Span
  | .literal => Literal
  | .entry => Entry P
  | .field => Field P E
  | .fields => Fields P E
  | .case => Case P E
  | .definition => Definition P E
  | .imported => Import E
  | .proof => Proof E R
  | .truth => Truth E
  | .builder => Builder P E
  | .precedence => Precedence E
  | .operator => Operator E
  | .scope => Scope P E R
  | .component => Component P E R
  | .pattern => P
  | .item => Item P E
  | .expr => Form P E R

/-- A node as it is held in memory, with expressions and patterns nested no deeper than `depth` in
it. -/
abbrev Node (R : Type) (depth : Nat) (k : Kind) : Type :=
  Tree (Pattern (Expr R depth) R depth) (Expr R depth) R k

namespace Fields

variable {P E : Type}

/-- The fields in declared order, each looked up by its name. -/
def listed (n : Fields P E) : List (Name × Field P E) :=
  n.order.filterMap fun name => (n.bindings.get? name).map (name, ·)

/-- The fields in declared order, each moved out of the table by its name. -/
def taken (n : Fields P E) : List (Name × Field P E) := HashTable.takeAll n.order n.bindings

/-- Moving the fields out by the declared order takes each of them, since none is declared twice. -/
theorem taken_eq_listed (n : Fields P E) : n.taken = n.listed := by
  rw [taken, n.bindings.holds_toMap.takeAll_eq, NameMap.takeAll_eq n.distinct, listed]
  simp only [n.bindings.holds_toMap.get?_eq]

@[simp] theorem map_fst_listed (n : Fields P E) : n.listed.map Prod.fst = n.order := by
  rw [listed, List.map_filterMap]
  refine (List.filterMap_congr fun name member => ?_).trans List.filterMap_some
  obtain ⟨field, bound⟩ := Option.isSome_iff_exists.mp ((n.lists name).mp member)
  rw [bound]
  rfl

theorem map_fst_taken (n : Fields P E) : n.taken.map Prod.fst = n.order := by
  rw [taken_eq_listed, map_fst_listed]

/-- Every field that is bound is listed once. -/
theorem mem_listed_iff {n : Fields P E} {name : Name} {field : Field P E} :
    (name, field) ∈ n.listed ↔ n.bindings.get? name = some field := by
  rw [listed, List.mem_filterMap]
  constructor
  · rintro ⟨name', -, found⟩
    obtain ⟨field', bound, same⟩ := Option.map_eq_some_iff.mp found
    cases same
    exact bound
  · intro bound
    exact ⟨name, (n.lists name).mpr (by rw [bound]; rfl), by rw [bound]; rfl⟩

/-- The fields under the names of the declared order. -/
def row (n : Fields P E) : Row (Field P E) n.order := .ofEntries n.order n.listed n.map_fst_listed

@[simp] theorem toList_row (n : Fields P E) : n.row.toList = n.listed :=
  Row.toList_ofEntries n.map_fst_listed

/-- The fields of a row, bound one after the other in declared order. -/
def ofRow {order : List Name} (distinct : order.Nodup) (row : Row (Field P E) order) : Fields P E where
  bindings := .ofRow distinct row
  order := order
  distinct := distinct
  lists name := by rw [HashTable.get?_ofRow, lookup_isSome_iff_mem, row.map_fst_toList]

/-- Filling a table from a row and reading it by the declared order gives the row back. -/
theorem row_ofRow {order : List Name} (distinct : order.Nodup) (row : Row (Field P E) order) :
    (ofRow distinct row).row = row := by
  have distinctRow : (row.toList.map Prod.fst).Nodup := by rwa [row.map_fst_toList]
  have found := filterMap_lookup distinctRow
  refine Row.toList_inj ((toList_row _).trans (Eq.trans ?_ found))
  rw [row.map_fst_toList]
  exact congrArg (List.filterMap · order)
    (funext fun name => by rw [← HashTable.get?_ofRow distinct row]; rfl)

end Fields

section Plain

variable {P E R : Type} (pattern : P → SurfaceTree.Pattern E R)

/-- The pattern with its mapping listed by ascending name. -/
def PatternForm.plain : PatternForm P E R → SurfaceTree.Pattern E R
  | .alternatives pos choices => .alternatives pos (choices.map pattern)
  | .construct pos head argument => .construct pos head (pattern argument)
  | .split pos fields strict => .split pos (fields.plain pattern) strict
  | .typed pos p type => .typed pos (pattern p) type
  | .named pos name p => .named pos name (pattern p)
  | .bind pos name => .bind pos name
  | .literal l => .literal l

/-- The pattern with all its mappings listed by ascending name. -/
def Pattern.plain : (depth : Nat) → Pattern E R depth → SurfaceTree.Pattern E R
  | depth + 1, form => PatternForm.plain (Pattern.plain depth) form

def Entry.plain (n : Entry P) : SurfaceTree.Entry E R := ⟨n.pos, n.implicit, pattern n.pattern⟩

def Field.plain (n : Field P E) : SurfaceTree.Field E R := ⟨n.pos, n.entry.plain pattern, n.default⟩

/-- The field list with its fields in declared order. -/
def Fields.plain (n : Fields P E) : SurfaceTree.Fields E R :=
  ⟨n.order, n.distinct, n.row.map (Field.plain pattern)⟩

def Case.plain (n : Case P E) : SurfaceTree.Case E R := ⟨n.pos, pattern n.pattern, n.body⟩

def Definition.plain (n : Definition P E) : SurfaceTree.Definition E R :=
  ⟨n.pos, pattern n.pattern, n.init⟩

def Builder.plain (n : Builder P E) : SurfaceTree.Builder E R :=
  ⟨n.pos, n.kind, n.visibility, n.params.plain pattern, n.supers, n.body⟩

def Item.plain : Item P E → SurfaceTree.Item E R
  | .statement e => .statement e
  | .declaration d => .declaration (d.plain pattern)

/-- The scope with its namespaces listed by ascending name. -/
def Scope.plain (n : Scope P E R) : SurfaceTree.Scope E R where
  pos := n.pos
  id := n.id
  builders := n.builders.plain (Builder.plain pattern)
  operators := n.operators.plain fun o => o
  truths := n.truths.plain fun t => t
  definitions := n.definitions.map (List.map (Definition.plain pattern))
  proofs := n.proofs
  imports := n.imports

def Component.plain (n : Component P E R) : SurfaceTree.Component E R :=
  ⟨n.expected, n.scope.plain pattern⟩

/-- The form with its mappings listed by ascending name. -/
def Form.plain : Form P E R → SurfaceTree.Form E R
  | .block pos items => .block pos (items.map (Item.plain pattern))
  | .abstraction pos binder cases => .abstraction pos binder (cases.map (Case.plain pattern))
  | .matching pos scrutinee cases => .matching pos scrutinee (cases.map (Case.plain pattern))
  | .ascription pos value type => .ascription pos value type
  | .chain pos items => .chain pos items
  | .record pos fields => .record pos (fields.plain fun e => e)
  | .recordType pos fields => .recordType pos (fields.plain pattern)
  | .tuple pos items => .tuple pos items
  | .projection pos value path => .projection pos value path
  | .reference pos target => .reference pos target
  | .application pos function argument => .application pos function argument
  | .refinement pos value proposition => .refinement pos value proposition
  | .anonymous pos kind supers params body =>
    .anonymous pos kind supers (params.plain pattern) (body.plain pattern)
  | .literal l => .literal l

/-- One layer of a node with its mappings listed by ascending name. -/
def Tree.plain : (k : Kind) → Tree P E R k → k.Tree E R
  | .ref, n => n
  | .span, n => n
  | .literal, n => n
  | .entry, n => Entry.plain pattern n
  | .field, n => Field.plain pattern n
  | .fields, n => Fields.plain pattern n
  | .case, n => Case.plain pattern n
  | .definition, n => Definition.plain pattern n
  | .imported, n => n
  | .proof, n => n
  | .truth, n => n
  | .builder, n => Builder.plain pattern n
  | .precedence, n => n
  | .operator, n => n
  | .scope, n => Scope.plain pattern n
  | .component, n => Component.plain pattern n
  | .pattern, n => pattern n
  | .item, n => Item.plain pattern n
  | .expr, n => Form.plain pattern n

end Plain

/-- The expression with all its mappings listed by ascending name, at every depth. -/
def Expr.plain {R : Type} : (depth : Nat) → Expr R depth → SurfaceTree.Expr R
  | depth + 1, form =>
    .mk ((Form.plain (Pattern.plain depth) form).map (Expr.plain depth) id)

/-- The node with all its mappings listed by ascending name, at every depth. -/
def Node.plain {R : Type} {depth : Nat} (k : Kind) (n : Node R depth k) : SurfaceTree.Node R k :=
  k.rewrite (Expr.plain depth) id (Tree.plain (Pattern.plain depth) k n)

/-- A listed field list goes through its fields in declared order. -/
theorem Fields.toList_plain {P E R : Type} (pattern : P → SurfaceTree.Pattern E R) (n : Fields P E) :
    (n.plain pattern).toList = n.listed.map fun entry => (entry.1, entry.2.plain pattern) := by
  rw [SurfaceTree.Fields.toList, plain, Row.toList_map, toList_row]

theorem Fields.bindings_plain {P E R : Type} (pattern : P → SurfaceTree.Pattern E R)
    (n : Fields P E) : (n.plain pattern).bindings = n.bindings.plain (Field.plain pattern) := by
  refine NameMap.ext_get? fun name => Option.ext fun field => ?_
  rw [SurfaceTree.Fields.get?_bindings, SurfaceTree.Fields.get?,
    lookup_eq_some_iff_mem (n.plain pattern).distinct_names, toList_plain, HashTable.get?_plain,
    List.mem_map, Option.map_eq_some_iff]
  constructor
  · rintro ⟨⟨_, field⟩, member, same⟩
    cases same
    exact ⟨field, mem_listed_iff.mp member, rfl⟩
  · rintro ⟨field, bound, rfl⟩
    exact ⟨(name, field), mem_listed_iff.mpr bound, rfl⟩

end Hashed

end SurfaceTree
