import SurfaceTree.Proofs.Hashed.Tree

namespace SurfaceTree

namespace Hashed

variable {m : Type → Type} [Monad m] {P E R P' E' R' : Type}

section Traversals

variable (pat : P → m P') (exp : E → m E') (ref : R → m R')

/-- Rebuilds a layer of a pattern. The table of a split is rebuilt by ascending name. -/
def PatternForm.traverse : PatternForm P E R → m (PatternForm P' E' R')
  | .alternatives pos choices => do return .alternatives pos (← choices.mapM pat)
  | .construct pos head argument => do return .construct pos (← ref head) (← pat argument)
  | .split pos fields strict => do return .split pos (← fields.traverse pat) strict
  | .typed pos pattern type => do return .typed pos (← pat pattern) (← exp type)
  | .named pos name pattern => do return .named pos name (← pat pattern)
  | .bind pos name => pure (.bind pos name)
  | .literal l => pure (.literal l)

/-- Rebuilds an entry around what comes back for its pattern. -/
def Entry.traverse (n : Entry P) : m (Entry P') := do
  return ⟨n.pos, n.implicit, ← pat n.pattern⟩

def Field.traverse (n : Field P E) : m (Field P' E') := do
  return ⟨n.pos, ← n.entry.traverse pat, ← traverseOption exp n.default⟩

/-- Rebuilds a field list. Its fields are taken out of the table in declared order and bound in
that order in the new one. -/
def Fields.traverse (n : Fields P E) : m (Fields P' E') := do
  let row ← (Row.ofEntries n.order n.taken n.map_fst_taken).traverse (Field.traverse pat exp)
  return .ofRow n.distinct row

/-- Rebuilds a case, its pattern first. -/
def Case.traverse (n : Case P E) : m (Case P' E') := do
  return ⟨n.pos, ← pat n.pattern, ← exp n.body⟩

def Definition.traverse (n : Definition P E) : m (Definition P' E') := do
  return ⟨n.pos, ← pat n.pattern, ← traverseOption exp n.init⟩

/-- Rebuilds a builder, its parameters first and its body last. -/
def Builder.traverse (n : Builder P E) : m (Builder P' E') := do
  return ⟨n.pos, n.kind, n.visibility, ← n.params.traverse pat exp, ← n.supers.mapM exp,
    ← exp n.body⟩

def Item.traverse : Item P E → m (Item P' E')
  | .statement e => do return .statement (← exp e)
  | .declaration d => do return .declaration (← d.traverse pat exp)

/-- Rebuilds a scope. Its namespaces are rebuilt by ascending name. -/
def Scope.traverse (n : Scope P E R) : m (Scope P' E' R') := do
  return {
    pos := n.pos
    id := n.id
    builders := ← n.builders.traverse (Builder.traverse pat exp)
    operators := ← n.operators.traverse (Operator.traverse exp)
    truths := ← n.truths.traverse (Truth.traverse exp)
    definitions := ← n.definitions.traverse fun _ ds => ds.mapM (Definition.traverse pat exp)
    proofs := ← n.proofs.mapM (Proof.traverse exp ref)
    imports := ← n.imports.mapM (Import.traverse exp) }

def Component.traverse (n : Component P E R) : m (Component P' E' R') := do
  return ⟨n.expected, ← n.scope.traverse pat exp ref⟩

/-- Rebuilds a layer of an expression. The table of a record is rebuilt by ascending name. -/
def Form.traverse : Form P E R → m (Form P' E' R')
  | .block pos items => do return .block pos (← items.mapM (Item.traverse pat exp))
  | .abstraction pos binder cases => do
    return .abstraction pos binder (← cases.mapM (Case.traverse pat exp))
  | .matching pos scrutinee cases => do
    return .matching pos (← exp scrutinee) (← cases.mapM (Case.traverse pat exp))
  | .ascription pos value type => do return .ascription pos (← exp value) (← exp type)
  | .chain pos items => do return .chain pos (← items.mapM exp)
  | .record pos fields => do return .record pos (← fields.traverse exp)
  | .recordType pos fields => do return .recordType pos (← fields.traverse pat exp)
  | .tuple pos items => do return .tuple pos (← items.mapM exp)
  | .projection pos value path => do return .projection pos (← exp value) path
  | .reference pos target => do return .reference pos (← ref target)
  | .application pos function argument => do
    return .application pos (← exp function) (← exp argument)
  | .refinement pos value proposition => do
    return .refinement pos (← exp value) (← exp proposition)
  | .anonymous pos kind supers params body => do
    return .anonymous pos kind (← supers.mapM exp) (← params.traverse pat exp)
      (← body.traverse pat exp ref)
  | .literal l => pure (.literal l)

/-- Rebuilds a layer of a node of any kind. -/
def Tree.traverse : (k : Kind) → Tree P E R k → m (Tree P' E' R' k)
  | .ref, n => ref n
  | .span, n => pure n
  | .literal, n => pure n
  | .entry, n => Entry.traverse pat n
  | .field, n => Field.traverse pat exp n
  | .fields, n => Fields.traverse pat exp n
  | .case, n => Case.traverse pat exp n
  | .definition, n => Definition.traverse pat exp n
  | .imported, n => Import.traverse exp n
  | .proof, n => Proof.traverse exp ref n
  | .truth, n => Truth.traverse exp n
  | .builder, n => Builder.traverse pat exp n
  | .precedence, n => Precedence.traverse exp n
  | .operator, n => Operator.traverse exp n
  | .scope, n => Scope.traverse pat exp ref n
  | .component, n => Component.traverse pat exp ref n
  | .pattern, n => pat n
  | .item, n => Item.traverse pat exp n
  | .expr, n => Form.traverse pat exp ref n

/-- Rebuilds a pattern, with the tables at every depth rebuilt by ascending name. -/
def Pattern.traverse : (depth : Nat) → Pattern E R depth → m (Pattern E' R' depth)
  | depth + 1, p => PatternForm.traverse (Pattern.traverse depth) exp ref p

end Traversals

section

variable [LawfulMonad m] {pattern : P → SurfaceTree.Pattern E R}
  {pattern' : P' → SurfaceTree.Pattern E' R'} {pat : P → m P'} {exp : E → m E'} {ref : R → m R'}
  (patterns : ∀ p, pattern' <$> pat p = (pattern p).traverse exp ref)

include patterns

/-- Rebuilding a layer of a pattern does what rebuilding its listed form does. -/
theorem PatternForm.traverse_plain (p : PatternForm P E R) :
    plain pattern' <$> p.traverse pat exp ref = (p.plain pattern).traverse exp ref := by
  cases p with
  | alternatives pos choices =>
    have parts : List.map pattern' <$> choices.mapM pat = _ :=
      map_mapM_comm fun p _ => patterns p
    simp only [plain, traverse, SurfaceTree.Pattern.traverse, Pattern.traverseList_eq, map_bind,
      map_pure, ← parts, bind_map_left]
  | split pos fields strict =>
    have table := HashTable.traverse_plain patterns fields
    have listed : (SurfaceTree.Pattern.split pos (fields.plain pattern) strict).traverse exp ref
        = (.split pos · strict) <$> (fields.plain pattern).traverse (SurfaceTree.Pattern.traverse exp ref) := by
      simp only [SurfaceTree.Pattern.traverse, Pattern.traverseRow_eq, NameMap.traverse, map_bind,
        map_pure]
    rw [plain, listed, ← table]
    simp only [plain, traverse, bind_pure_comp, Functor.map_map]
  | construct pos head argument =>
    simp only [plain, traverse, SurfaceTree.Pattern.traverse, map_bind, map_pure, ← patterns,
      bind_map_left]
  | typed pos p type =>
    simp only [plain, traverse, SurfaceTree.Pattern.traverse, map_bind, map_pure, ← patterns,
      bind_map_left]
  | named pos name p =>
    simp only [plain, traverse, SurfaceTree.Pattern.traverse, map_bind, map_pure, ← patterns,
      bind_map_left]
  | bind pos name => exact map_pure ..
  | literal l => exact map_pure ..

theorem Entry.traverse_plain (n : Entry P) :
    plain pattern' <$> n.traverse pat = (n.plain pattern).traverse exp ref := by
  simp only [plain, traverse, SurfaceTree.Entry.traverse, map_bind, map_pure, ← patterns,
    bind_map_left]

theorem Field.traverse_plain (n : Field P E) :
    plain pattern' <$> n.traverse pat exp = (n.plain pattern).traverse exp ref := by
  simp only [plain, traverse, SurfaceTree.Field.traverse, map_bind, map_pure,
    ← Entry.traverse_plain patterns, bind_map_left]

theorem Fields.traverse_plain (n : Fields P E) :
    plain pattern' <$> n.traverse pat exp = (n.plain pattern).traverse exp ref := by
  have taken : Row.ofEntries n.order n.taken n.map_fst_taken = n.row :=
    Row.toList_inj (by rw [Row.toList_ofEntries, toList_row, taken_eq_listed])
  have fields := Row.map_traverse_comm n.row fun entry _ => entry.2.traverse_plain patterns
  have rebuilt (row : Row (Field P' E') n.order) :
      (ofRow n.distinct row).plain pattern' = ⟨n.order, n.distinct, row.map (Field.plain pattern')⟩ := by
    rw [plain, row_ofRow]
    rfl
  simp only [traverse, taken, SurfaceTree.Fields.traverse, map_bind, map_pure, rebuilt]
  rw [plain, ← fields, bind_map_left]

theorem Case.traverse_plain (n : Case P E) :
    plain pattern' <$> n.traverse pat exp = (n.plain pattern).traverse exp ref := by
  simp only [plain, traverse, SurfaceTree.Case.traverse, map_bind, map_pure, ← patterns,
    bind_map_left]

theorem Definition.traverse_plain (n : Definition P E) :
    plain pattern' <$> n.traverse pat exp = (n.plain pattern).traverse exp ref := by
  simp only [plain, traverse, SurfaceTree.Definition.traverse, map_bind, map_pure, ← patterns,
    bind_map_left]

theorem Builder.traverse_plain (n : Builder P E) :
    plain pattern' <$> n.traverse pat exp = (n.plain pattern).traverse exp ref := by
  simp only [plain, traverse, SurfaceTree.Builder.traverse, map_bind, map_pure,
    ← Fields.traverse_plain patterns, bind_map_left]

theorem Item.traverse_plain (n : Item P E) :
    plain pattern' <$> n.traverse pat exp = (n.plain pattern).traverse exp ref := by
  cases n with
  | statement e => simp only [plain, traverse, SurfaceTree.Item.traverse, map_bind, map_pure]
  | declaration d =>
    simp only [plain, traverse, SurfaceTree.Item.traverse, map_bind, map_pure,
      ← Definition.traverse_plain patterns, bind_map_left]

theorem Scope.traverse_plain (n : Scope P E R) :
    plain pattern' <$> n.traverse pat exp ref = (n.plain pattern).traverse exp ref := by
  have builders := HashTable.traverse_plain (Builder.traverse_plain patterns) n.builders
  have operators := HashTable.traverse_plain (fun o => id_map' (Operator.traverse exp o)) n.operators
  have truths := HashTable.traverse_plain (fun t => id_map' (Truth.traverse exp t)) n.truths
  have bucket (ds : List (Definition P E)) :
      List.map (Definition.plain pattern') <$> ds.mapM (Definition.traverse pat exp) = _ :=
    map_mapM_comm fun d _ => d.traverse_plain patterns
  have definitions := VisibilityTable.map_traverse_comm n.definitions fun ds _ => bucket ds
  simp only [plain, traverse, SurfaceTree.Scope.traverse, map_bind, map_pure, ← builders,
    ← operators, ← truths, ← definitions, bind_map_left]

theorem Component.traverse_plain (n : Component P E R) :
    plain pattern' <$> n.traverse pat exp ref = (n.plain pattern).traverse exp ref := by
  simp only [plain, traverse, SurfaceTree.Component.traverse, map_bind, map_pure,
    ← Scope.traverse_plain patterns, bind_map_left]

/-- Rebuilding a layer of an expression does what rebuilding its listed form does. -/
theorem Form.traverse_plain (n : Form P E R) :
    plain pattern' <$> n.traverse pat exp ref = (n.plain pattern).traverse exp ref := by
  cases n with
  | block pos items =>
    have parts : List.map (Item.plain pattern') <$> items.mapM (Item.traverse pat exp) = _ :=
      map_mapM_comm fun i _ => i.traverse_plain patterns
    simp only [plain, traverse, SurfaceTree.Form.traverse, map_bind, map_pure, ← parts,
      bind_map_left]
  | abstraction pos binder cases =>
    have parts : List.map (Case.plain pattern') <$> cases.mapM (Case.traverse pat exp) = _ :=
      map_mapM_comm fun c _ => c.traverse_plain patterns
    simp only [plain, traverse, SurfaceTree.Form.traverse, map_bind, map_pure, ← parts,
      bind_map_left]
  | matching pos scrutinee cases =>
    have parts : List.map (Case.plain pattern') <$> cases.mapM (Case.traverse pat exp) = _ :=
      map_mapM_comm fun c _ => c.traverse_plain patterns
    simp only [plain, traverse, SurfaceTree.Form.traverse, map_bind, map_pure, ← parts,
      bind_map_left]
  | record pos fields =>
    have table := HashTable.traverse_plain (fun e => id_map' (exp e)) fields
    simp only [plain, traverse, SurfaceTree.Form.traverse, map_bind, map_pure, ← table,
      bind_map_left]
  | recordType pos fields =>
    simp only [plain, traverse, SurfaceTree.Form.traverse, map_bind, map_pure,
      ← Fields.traverse_plain patterns, bind_map_left]
  | anonymous pos kind supers params body =>
    simp only [plain, traverse, SurfaceTree.Form.traverse, map_bind, map_pure,
      ← Fields.traverse_plain patterns, ← Scope.traverse_plain patterns, bind_map_left]
  | _ => simp only [plain, traverse, SurfaceTree.Form.traverse, map_bind, map_pure]

/-- Rebuilding a layer of a node of any kind does what rebuilding its listed form does. -/
theorem Tree.traverse_plain (k : Kind) (n : Tree P E R k) :
    Tree.plain pattern' k <$> Tree.traverse pat exp ref k n
      = k.traverse exp ref (Tree.plain pattern k n) := by
  cases k with
  | entry => exact Entry.traverse_plain patterns n
  | field => exact Field.traverse_plain patterns n
  | fields => exact Fields.traverse_plain patterns n
  | case => exact Case.traverse_plain patterns n
  | definition => exact Definition.traverse_plain patterns n
  | builder => exact Builder.traverse_plain patterns n
  | scope => exact Scope.traverse_plain patterns n
  | component => exact Component.traverse_plain patterns n
  | pattern => exact patterns n
  | item => exact Item.traverse_plain patterns n
  | expr => exact Form.traverse_plain patterns n
  | _ => exact id_map' _

end

/-- Rebuilding a pattern does what rebuilding its listed form does, at every depth. -/
theorem Pattern.traverse_plain [LawfulMonad m] (exp : E → m E') (ref : R → m R') (depth : Nat)
    (p : Pattern E R depth) :
    Pattern.plain depth <$> Pattern.traverse exp ref depth p = (p.plain depth).traverse exp ref := by
  induction depth with
  | zero => exact nomatch p
  | succ depth ih => exact PatternForm.traverse_plain ih p

end Hashed

end SurfaceTree
