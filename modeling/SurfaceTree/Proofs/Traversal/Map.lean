import SurfaceTree.Proofs.NameMap
import SurfaceTree.Tree.Kind

namespace SurfaceTree

variable {m : Type → Type} [Monad m] {E R E' R' E'' R'' : Type}

/-- Rewrites what a slot holds. -/
def Leaf.map (f : E → E') (g : R → R') : Leaf E R → Leaf E' R'
  | .exp e => .exp (f e)
  | .ref r => .ref (g r)

/-- Steps without effects have none one after the other. -/
theorem mapM_eq_pure [LawfulMonad m] {α β : Type} {f : α → m β} {g : α → β} {xs : List α}
    (plain : ∀ x ∈ xs, f x = pure (g x)) : xs.mapM f = pure (xs.map g) := by
  induction xs with
  | nil => simp
  | cons x rest ih =>
    obtain ⟨first, others⟩ := List.forall_mem_cons.mp plain
    simp only [List.mapM_cons, first, ih others, pure_bind, List.map_cons]

namespace Row

variable {V W : Type}

theorem toList_map (f : V → W) {keys : List Name} (row : Row V keys) :
    (row.map f).toList = row.toList.map fun entry => (entry.1, f entry.2) := by
  induction row with
  | nil => rfl
  | cons key value rest ih => simp only [map, toList, List.map_cons, ih]

theorem traverse_eq_pure [LawfulMonad m] {f : V → m W} {g : V → W} {keys : List Name}
    (row : Row V keys) (plain : ∀ entry ∈ row.toList, f entry.2 = pure (g entry.2)) :
    row.traverse f = pure (row.map g) := by
  induction row with
  | nil => rfl
  | cons key value rest ih =>
    obtain ⟨first, others⟩ := List.forall_mem_cons.mp plain
    simp only [traverse, map, first, ih others, pure_bind]

end Row

namespace NameMap

variable {V W : Type}

@[simp] theorem toList_map (f : V → W) (map : NameMap V) :
    (map.map f).toList = map.toList.map fun entry => (entry.1, f entry.2) :=
  Row.toList_map f map.row

/-- What is bound is rewritten, and nothing else comes to be bound. -/
theorem get?_map (f : V → W) (map : NameMap V) (name : Name) :
    (map.map f).get? name = (map.get? name).map f := by
  simp only [get?, toList_map]
  induction map.toList with
  | nil => rfl
  | cons first rest ih =>
    simp only [List.map_cons, lookup_cons_eq, ih]
    split <;> rfl

theorem traverse_eq_pure [LawfulMonad m] {f : V → m W} {g : V → W} (map : NameMap V)
    (plain : ∀ entry ∈ map.toList, f entry.2 = pure (g entry.2)) :
    map.traverse f = pure (map.map g) := by
  simp only [traverse, NameMap.map, Row.traverse_eq_pure map.row plain, pure_bind]

theorem map_map {U : Type} (f : V → W) (g : W → U) (map : NameMap V) :
    (map.map f).map g = map.map (g ∘ f) := by
  apply ext
  simp only [toList_map, List.map_map, Function.comp_def]

/-- A mapping whose values stay the same stays the same. -/
theorem map_eq_self {f : V → V} (map : NameMap V)
    (same : ∀ entry ∈ map.toList, f entry.2 = entry.2) : map.map f = map := by
  apply ext
  rw [toList_map]
  refine (List.map_congr_left fun entry member => ?_).trans (List.map_id _)
  exact Prod.ext rfl (same entry member)

theorem place_map (f : V → W) (key : Name) (value : V) (entries : List (Name × V)) :
    place key (f value) (entries.map fun entry => (entry.1, f entry.2))
      = (place key value entries).map fun entry => (entry.1, f entry.2) := by
  induction entries with
  | nil => rfl
  | cons first rest ih =>
    simp only [List.map_cons, place, ih]
    split
    · rfl
    · split <;> rfl

/-- Rewriting commutes with binding. -/
theorem insert_map (f : V → W) (map : NameMap V) (key : Name) (value : V) :
    (map.map f).insert key (f value) = (map.insert key value).map f := by
  apply ext
  simp only [toList_insert, toList_map, place_map]

theorem ofList_map (f : V → W) (entries : List (Name × V)) :
    ofList (entries.map fun entry => (entry.1, f entry.2)) = (ofList entries).map f := by
  have general (map : NameMap V) :
      (entries.map fun entry => (entry.1, f entry.2)).foldl
          (fun m entry => m.insert entry.1 entry.2) (map.map f)
        = (entries.foldl (fun m entry => m.insert entry.1 entry.2) map).map f := by
    induction entries generalizing map with
    | nil => rfl
    | cons first rest ih => simp only [List.map_cons, List.foldl_cons, insert_map, ih]
  exact general .empty

end NameMap

mutual
def Pattern.map (f : E → E') (g : R → R') : Pattern E R → Pattern E' R'
  | .alternatives pos choices => .alternatives pos (Pattern.mapAll f g choices)
  | .construct pos head argument => .construct pos (g head) (Pattern.map f g argument)
  | .split pos fields strict =>
    .split pos (fields.withRow (Pattern.mapRow f g fields.row)) strict
  | .typed pos pattern type => .typed pos (Pattern.map f g pattern) (f type)
  | .named pos name pattern => .named pos name (Pattern.map f g pattern)
  | .bind pos name => .bind pos name
  | .literal l => .literal l

def Pattern.mapAll (f : E → E') (g : R → R') : List (Pattern E R) → List (Pattern E' R')
  | [] => []
  | p :: rest => Pattern.map f g p :: Pattern.mapAll f g rest

def Pattern.mapRow (f : E → E') (g : R → R') :
    {keys : List Name} → Row (Pattern E R) keys → Row (Pattern E' R') keys
  | _, .nil => .nil
  | _, .cons key p rest => .cons key (Pattern.map f g p) (Pattern.mapRow f g rest)
end

def Entry.map (f : E → E') (g : R → R') (n : Entry E R) : Entry E' R' :=
  ⟨n.pos, n.implicit, n.pattern.map f g⟩

def Field.map (f : E → E') (g : R → R') (n : Field E R) : Field E' R' :=
  ⟨n.pos, n.entry.map f g, n.default.map f⟩

/-- Rewrites what is in the slots of a field list. Names and their order stay. -/
def Fields.map (f : E → E') (g : R → R') (n : Fields E R) : Fields E' R' :=
  ⟨n.order, n.distinct, n.row.map (Field.map f g)⟩

def Case.map (f : E → E') (g : R → R') (n : Case E R) : Case E' R' :=
  ⟨n.pos, n.pattern.map f g, f n.body⟩

def Definition.map (f : E → E') (g : R → R') (n : Definition E R) : Definition E' R' :=
  ⟨n.pos, n.pattern.map f g, n.init.map f⟩

def Import.map (f : E → E') (n : Import E) : Import E' := ⟨n.pos, n.visibility, f n.target⟩

def Proof.map (f : E → E') (g : R → R') (n : Proof E R) : Proof E' R' :=
  ⟨n.pos, g n.fact, f n.body⟩

def Truth.map (f : E → E') (n : Truth E) : Truth E' :=
  ⟨n.pos, n.kind, n.visibility, f n.prop, n.proof.map f⟩

def Builder.map (f : E → E') (g : R → R') (n : Builder E R) : Builder E' R' :=
  ⟨n.pos, n.kind, n.visibility, n.params.map f g, n.supers.map f, f n.body⟩

def Precedence.map (f : E → E') (n : Precedence E) : Precedence E' := ⟨n.relation, f n.operator⟩

def Operator.map (f : E → E') (n : Operator E) : Operator E' :=
  ⟨n.pos, n.fixity, n.precedence.map (Precedence.map f)⟩

def Item.map (f : E → E') (g : R → R') : Item E R → Item E' R'
  | .statement e => .statement (f e)
  | .declaration d => .declaration (d.map f g)

def Scope.map (f : E → E') (g : R → R') (n : Scope E R) : Scope E' R' where
  pos := n.pos
  id := n.id
  builders := n.builders.map (Builder.map f g)
  operators := n.operators.map (Operator.map f)
  truths := n.truths.map (Truth.map f)
  definitions := n.definitions.map (List.map (Definition.map f g))
  proofs := n.proofs.map (Proof.map f g)
  imports := n.imports.map (Import.map f)

def Component.map (f : E → E') (g : R → R') (n : Component E R) : Component E' R' :=
  ⟨n.expected, n.scope.map f g⟩

/-- Rewrites the subexpressions and the reference of a layer of an expression. -/
def Form.map (f : E → E') (g : R → R') : Form E R → Form E' R'
  | .block pos items => .block pos (items.map (Item.map f g))
  | .abstraction pos binder cases => .abstraction pos binder (cases.map (Case.map f g))
  | .matching pos scrutinee cases => .matching pos (f scrutinee) (cases.map (Case.map f g))
  | .ascription pos value type => .ascription pos (f value) (f type)
  | .chain pos items => .chain pos (items.map f)
  | .record pos fields => .record pos (fields.map f)
  | .recordType pos fields => .recordType pos (fields.map f g)
  | .tuple pos items => .tuple pos (items.map f)
  | .projection pos value path => .projection pos (f value) path
  | .reference pos target => .reference pos (g target)
  | .application pos function argument => .application pos (f function) (f argument)
  | .refinement pos value proposition => .refinement pos (f value) (f proposition)
  | .anonymous pos kind supers params body =>
    .anonymous pos kind (supers.map f) (params.map f g) (body.map f g)
  | .literal l => .literal l

/-- Rewrites every slot of a node of any kind. -/
def Kind.rewrite (f : E → E') (g : R → R') : (k : Kind) → k.Tree E R → k.Tree E' R'
  | Kind.ref, n => g n
  | span, n => n
  | literal, n => n
  | entry, n => Entry.map f g n
  | field, n => Field.map f g n
  | fields, n => Fields.map f g n
  | case, n => Case.map f g n
  | definition, n => Definition.map f g n
  | imported, n => Import.map f n
  | proof, n => Proof.map f g n
  | truth, n => Truth.map f n
  | builder, n => Builder.map f g n
  | precedence, n => Precedence.map f n
  | operator, n => Operator.map f n
  | scope, n => Scope.map f g n
  | component, n => Component.map f g n
  | pattern, n => Pattern.map f g n
  | item, n => Item.map f g n
  | expr, n => Form.map f g n

end SurfaceTree
