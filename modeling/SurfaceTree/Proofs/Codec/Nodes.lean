import SurfaceTree.Proofs.Codec.Element
import SurfaceTree.Proofs.Codec.Unfold
import SurfaceTree.Proofs.Traversal.Laws

namespace SurfaceTree

open Element

variable {E R E' R' : Type} {write : E → Element} {writeRef : R → Element}
  {expr : Element → Except DecodeError E'} {ref : Element → Except DecodeError R'}
  {fault : DecodeError} {foreign : Leaf E R → Bool} {f : E → E'} {g : R → R'}

/-- Reading what was written for a leaf gives what the leaf is rewritten to, unless it is
foreign. -/
def Leaf.ReadAs (write : E → Element) (writeRef : R → Element)
    (expr : Element → Except DecodeError E') (ref : Element → Except DecodeError R')
    (fault : DecodeError) (foreign : Leaf E R → Bool) (f : E → E') (g : R → R') :
    Leaf E R → Prop
  | .exp e => expr (write e) = verdict fault (foreign (.exp e)) (f e)
  | .ref r => ref (writeRef r) = verdict fault (foreign (.ref r)) (g r)

/-- An expression at a leaf is read if reading its element gives what it is rewritten to. -/
@[simp] theorem Leaf.readAs_exp {e : E} :
    (Leaf.exp e).ReadAs write writeRef expr ref fault foreign f g ↔
      expr (write e) = verdict fault (foreign (.exp e)) (f e) := Iff.rfl

@[simp] theorem Leaf.readAs_ref {r : R} :
    (Leaf.ref r).ReadAs write writeRef expr ref fault foreign f g ↔
      ref (writeRef r) = verdict fault (foreign (.ref r)) (g r) := Iff.rfl

@[simp] theorem Span.name_toElement (s : Span) : s.toElement.name = "pos" := rfl

/-- A position is read back from its element. -/
@[simp] theorem Span.decode_toElement (s : Span) : decode s.toElement = .ok s := by
  simp [decode, toElement]

@[simp] theorem Element.pos_cons {name : String} {attrs : List (String × String)} (s : Span)
    (children : List Element) : (node name attrs (s.toElement :: children)).pos = .ok s := by
  simp [Element.pos]

theorem Name.decode_toElement (n : Name) : decode n.toElement = .ok n := by
  simp [decode, toElement]

/-- A name is read back from its place in a declared order. -/
theorem Name.decodeOrderKey_toOrderKey (n : Name) : decodeOrderKey n.toOrderKey = .ok n := by
  simp [decodeOrderKey, toOrderKey]

/-- A symbol is read back from its element. -/
theorem Symbol.decode_toElement (s : Symbol) : decode s.toElement = .ok s := by
  simp [decode, toElement]

@[simp] theorem Literal.name_toElement (l : Literal) : l.toElement.name = "literal" := rfl

/-- The element of a literal, read off as one without text. -/
theorem Literal.decode_toElement (l : Literal) : decode l.toElement = .ok l := by
  have named : l.toElement.checkName "literal" = .ok () := if_pos rfl
  have kind : l.toElement.attr "kind" = .ok l.value.kindName := rfl
  have pos : l.toElement.pos = .ok l.pos := Span.decode_toElement l.pos
  have value : LiteralValue.read? (l.toElement.text.getD "") l.value.kindName
      = some (some l.value) := l.value.read?_numeral
  simp only [decode, named, kind, value, pos, ok_bind, pure_eq_ok]

namespace Pattern

@[simp] theorem toElements_eq (choices : List (Pattern Element Element)) :
    toElements choices = choices.map toElement := by
  induction choices with
  | nil => rfl
  | cons p rest ih => simp only [toElements, ih, List.map_cons]

@[simp] theorem entriesOfRow_eq {keys : List Name} (row : Row (Pattern Element Element) keys) :
    entriesOfRow row = row.toList.map fun entry => .ofEntry entry.1 entry.2.toElement := by
  induction row with
  | nil => rfl
  | cons key p rest ih => simp only [entriesOfRow, ih, Row.toList, List.map_cons]

/-- A split is written as a mapping of its fields. -/
theorem toElement_split (pos : Span) (fields : NameMap (Pattern Element Element)) (strict : Bool) :
    (split pos fields strict).toElement
      = .node "split" [("strict", toString strict)]
        [pos.toElement, .ofMapping "fields" toElement fields] := by
  simp only [toElement, entriesOfRow_eq, Element.ofMapping, NameMap.toList]

/-- A pattern is read if its leaves are. -/
theorem decode_written (p : Pattern E R)
    (slots : ∀ leaf ∈ p.leaves, leaf.ReadAs write writeRef expr ref fault foreign f g) :
    decode expr ref (p.map write writeRef).toElement
      = verdict fault (p.leaves.any foreign) (p.map f g) := by
  induction p using Pattern.induction with
  | alternatives pos choices ih =>
    simp only [leaves, leavesOfList_eq, List.forall_mem_flatMap] at slots
    have read := mapM_verdict fun p member => ih p member (slots p member)
    rw [decode_eq]
    simp [decodeVariant, map, toElement, leaves, Function.comp_def, read, -List.mapM_map]
  | construct pos head argument ih =>
    simp only [leaves, List.forall_mem_cons, Leaf.readAs_ref] at slots
    rw [decode_eq]
    simp [decodeVariant, map, toElement, leaves, slots.1, ih slots.2]
  | split pos fields strict ih =>
    simp only [leaves_split, List.forall_mem_flatMap] at slots
    have parts (name : Name) (p : Pattern E R) (member : (name, p) ∈ fields.toList) :
        decode expr ref (p.map write writeRef).toElement
          = verdict fault (p.leaves.any foreign) (p.map f g) :=
      ih (name, p) member (slots (name, p) member)
    have read := readEntries_written "fields" toElement fields parts
    rw [decode_eq]
    simp [decodeVariant, map_split, toElement_split, leaves_split, read]
  | typed pos pattern type ih =>
    simp only [leaves, List.forall_mem_append, List.forall_mem_singleton,
      Leaf.readAs_exp] at slots
    rw [decode_eq]
    simp [decodeVariant, map, toElement, leaves, ih slots.1, slots.2]
  | named pos name pattern ih =>
    simp only [leaves] at slots
    rw [decode_eq]
    simp [decodeVariant, map, toElement, leaves, ih slots]
  | bind pos name =>
    rw [decode_eq]
    simp [decodeVariant, map, toElement, leaves]
  | literal l =>
    rw [decode_eq]
    simp [decodeVariant, map, toElement, leaves, l.decode_toElement]

end Pattern

/-- An optional slot is read, whatever comes before it under other names. -/
theorem Element.slot?_ofSlot? {name key : String} {attrs : List (String × String)} (e : Option E)
    (slots : ∀ leaf ∈ leavesOfOption e, leaf.ReadAs write writeRef expr ref fault foreign f g) :
    (node name attrs (ofSlot? key (e.map write))).slot? key expr
      = verdict fault ((leavesOfOption e).any foreign) (e.map f) := by
  cases e with
  | none => rfl
  | some e =>
    simp only [leavesOfOption, List.forall_mem_singleton, Leaf.readAs_exp] at slots
    simp [ofSlot?, leavesOfOption, slots]

namespace Entry

@[simp] theorem name_toElement (n : Entry Element Element) : n.toElement.name = "entry" := rfl

theorem decode_written (n : Entry E R)
    (slots : ∀ leaf ∈ n.leaves, leaf.ReadAs write writeRef expr ref fault foreign f g) :
    decode expr ref (n.map write writeRef).toElement
      = verdict fault (n.leaves.any foreign) (n.map f g) := by
  simp [decode, toElement, map, leaves, n.pattern.decode_written slots]

end Entry

namespace Field

theorem decode_written (n : Field E R)
    (slots : ∀ leaf ∈ n.leaves, leaf.ReadAs write writeRef expr ref fault foreign f g) :
    decode expr ref (n.map write writeRef).toElement
      = verdict fault (n.leaves.any foreign) (n.map f g) := by
  simp only [leaves, List.forall_mem_append] at slots
  obtain ⟨entry, default⟩ := slots
  simp [decode, toElement, map, leaves, n.entry.decode_written entry,
    slot?_ofSlot? n.default default]

end Field

namespace Fields

@[simp] theorem name_toElement (n : Fields Element Element) : n.toElement.name = "fields" := rfl

/-- A field list is read in its declared order if its leaves are. -/
theorem decode_written (n : Fields E R)
    (slots : ∀ leaf ∈ n.leaves, leaf.ReadAs write writeRef expr ref fault foreign f g) :
    decode expr ref (n.map write writeRef).toElement
      = verdict fault (n.leaves.any foreign) (n.map f g) := by
  simp only [leaves, List.forall_mem_flatMap] at slots
  have bindings := readEntries_written "bindings" Field.toElement n.bindings fun name field member =>
    field.decode_written (slots (name, field) (n.perm_bindings.mem_iff.mp member))
  have order := mapM_written fun name (_ : name ∈ n.order) => name.decodeOrderKey_toOrderKey
  have rebuilt := (n.map f g).ofBindings_bindings
  rw [bindings_map, order_map] at rebuilt
  simp only [n.perm_bindings.any_eq] at bindings
  cases anyForeign : n.toList.any fun entry => entry.2.leaves.any foreign with
  | true => simp [decode, toElement, bindings_map, bindings, leaves, anyForeign]
  | false =>
    simp [decode, toElement, bindings_map, bindings, order, rebuilt, leaves, anyForeign,
      Except.mapError, -List.mapM_map]

end Fields

namespace Case

theorem decode_written (n : Case E R)
    (slots : ∀ leaf ∈ n.leaves, leaf.ReadAs write writeRef expr ref fault foreign f g) :
    decode expr ref (n.map write writeRef).toElement
      = verdict fault (n.leaves.any foreign) (n.map f g) := by
  simp only [leaves, List.forall_mem_append, List.forall_mem_singleton, Leaf.readAs_exp] at slots
  obtain ⟨pattern, body⟩ := slots
  simp [decode, toElement, map, leaves, n.pattern.decode_written pattern, body]

end Case

namespace Definition

theorem decode_written (n : Definition E R)
    (slots : ∀ leaf ∈ n.leaves, leaf.ReadAs write writeRef expr ref fault foreign f g) :
    decode expr ref (n.map write writeRef).toElement
      = verdict fault (n.leaves.any foreign) (n.map f g) := by
  simp only [leaves, List.forall_mem_append] at slots
  obtain ⟨pattern, init⟩ := slots
  simp [decode, toElement, map, leaves, n.pattern.decode_written pattern,
    slot?_ofSlot? n.init init]

end Definition

namespace Import

theorem decode_written (n : Import E)
    (slots : ∀ leaf ∈ n.leaves, leaf.ReadAs write writeRef expr ref fault foreign f g) :
    decode expr (n.map write).toElement = verdict fault (n.leaves.any foreign) (n.map f) := by
  simp only [leaves, List.forall_mem_singleton, Leaf.readAs_exp] at slots
  simp [decode, toElement, map, leaves, slots]

end Import

namespace Proof

theorem decode_written (n : Proof E R)
    (slots : ∀ leaf ∈ n.leaves, leaf.ReadAs write writeRef expr ref fault foreign f g) :
    decode expr ref (n.map write writeRef).toElement
      = verdict fault (n.leaves.any foreign) (n.map f g) := by
  simp only [leaves, List.forall_mem_cons, Leaf.readAs_exp, Leaf.readAs_ref] at slots
  obtain ⟨fact, body, _⟩ := slots
  simp [decode, toElement, map, leaves, fact, body]

end Proof

namespace Truth

theorem decode_written (n : Truth E)
    (slots : ∀ leaf ∈ n.leaves, leaf.ReadAs write writeRef expr ref fault foreign f g) :
    decode expr (n.map write).toElement = verdict fault (n.leaves.any foreign) (n.map f) := by
  simp only [leaves, List.forall_mem_cons, Leaf.readAs_exp] at slots
  obtain ⟨prop, proof⟩ := slots
  simp [decode, toElement, map, leaves, prop, slot?_ofSlot? n.proof proof]

end Truth

namespace Builder

theorem decode_written (n : Builder E R)
    (slots : ∀ leaf ∈ n.leaves, leaf.ReadAs write writeRef expr ref fault foreign f g) :
    decode expr ref (n.map write writeRef).toElement
      = verdict fault (n.leaves.any foreign) (n.map f g) := by
  simp only [leaves, List.forall_mem_append, List.forall_mem_map, List.forall_mem_singleton,
    Leaf.readAs_exp] at slots
  obtain ⟨⟨params, supers⟩, body⟩ := slots
  simp [decode, toElement, map, leaves, n.params.decode_written params, mapM_verdict supers, body,
    Function.comp_def, -List.mapM_map]

end Builder

namespace Precedence

theorem decode_written (n : Precedence E)
    (slots : ∀ leaf ∈ n.leaves, leaf.ReadAs write writeRef expr ref fault foreign f g) :
    decode expr (n.map write).toElement = verdict fault (n.leaves.any foreign) (n.map f) := by
  simp only [leaves, List.forall_mem_singleton, Leaf.readAs_exp] at slots
  simp [decode, toElement, map, leaves, slots]

end Precedence

namespace Operator

theorem decode_written (n : Operator E)
    (slots : ∀ leaf ∈ n.leaves, leaf.ReadAs write writeRef expr ref fault foreign f g) :
    decode expr (n.map write).toElement = verdict fault (n.leaves.any foreign) (n.map f) := by
  simp only [leaves, List.forall_mem_flatMap] at slots
  have precedence := mapM_verdict fun p member => Precedence.decode_written p (slots p member)
  simp [decode, toElement, map, leaves, Function.comp_def, precedence, -List.mapM_map]

end Operator

namespace Item

theorem decode_written (n : Item E R)
    (slots : ∀ leaf ∈ n.leaves, leaf.ReadAs write writeRef expr ref fault foreign f g) :
    decode expr ref (n.map write writeRef).toElement
      = verdict fault (n.leaves.any foreign) (n.map f g) := by
  cases n with
  | statement e =>
    simp only [leaves, List.forall_mem_singleton, Leaf.readAs_exp] at slots
    simp [decode, toElement, map, leaves, slots]
  | declaration d => simp [decode, toElement, map, leaves, d.decode_written slots]

end Item

namespace VisibilityTable

variable {α β : Type}

/-- The buckets of a table fill a table. -/
theorem ofList_toList (t : VisibilityTable α) : ofList t.toList = .ok t := rfl

@[simp] theorem toList_map (f : α → β) (t : VisibilityTable α) :
    (t.map f).toList = t.toList.map fun bucket => (bucket.1, f bucket.2) := rfl

theorem mem_values {t : VisibilityTable α} {bucket : Visibility × α} (member : bucket ∈ t.toList) :
    bucket.2 ∈ t.values :=
  List.mem_map_of_mem member

/-- Asking every bucket is asking every value. -/
theorem any_toList (t : VisibilityTable α) (p : α → Bool) :
    (t.toList.any fun bucket => p bucket.2) = t.values.any p := rfl

end VisibilityTable

namespace Scope

@[simp] theorem name_toElement (n : Scope Element Element) : n.toElement.name = "scope" := rfl

/-- The definitions of one visibility are read if their leaves are. -/
theorem decodeBucket_written (bucket : Visibility × List (Definition E R))
    (slots : ∀ d ∈ bucket.2, ∀ leaf ∈ d.leaves,
      leaf.ReadAs write writeRef expr ref fault foreign f g) :
    decodeBucket expr ref (.ofSlots (Keyword.spelling bucket.1)
      ((bucket.2.map (Definition.map write writeRef)).map Definition.toElement))
        = verdict fault (bucket.2.any fun d => d.leaves.any foreign)
          (bucket.1, bucket.2.map (Definition.map f g)) := by
  have definitions := mapM_verdict fun d member => Definition.decode_written d (slots d member)
  simp [decodeBucket, Function.comp_def, definitions, -List.mapM_map]

/-- A scope is read, namespace by namespace, if its leaves are. -/
theorem decode_written (n : Scope E R)
    (slots : ∀ leaf ∈ n.leaves, leaf.ReadAs write writeRef expr ref fault foreign f g) :
    decode expr ref (n.map write writeRef).toElement
      = verdict fault (n.leaves.any foreign) (n.map f g) := by
  simp only [leaves, List.forall_mem_append, List.forall_mem_flatMap] at slots
  obtain ⟨⟨⟨⟨⟨builders, operators⟩, truths⟩, definitions⟩, proofs⟩, imports⟩ := slots
  have buckets := mapM_verdict fun bucket member =>
    decodeBucket_written bucket (definitions bucket.2 (VisibilityTable.mem_values member))
  have readBuilders := readEntries_written "builders" Builder.toElement n.builders
    fun name n member => Builder.decode_written n (builders (name, n) member)
  have readOperators := readEntries_written "syntax" Operator.toElement n.operators
    fun name n member => Operator.decode_written n (operators (name, n) member)
  have readTruths := readEntries_written "truths" Truth.toElement n.truths
    fun name n member => Truth.decode_written n (truths (name, n) member)
  have readProofs := mapM_verdict fun p member => Proof.decode_written p (proofs p member)
  have readImports := mapM_verdict fun i member => Import.decode_written i (imports i member)
  have table := (n.definitions.map (List.map (Definition.map f g))).ofList_toList
  rw [VisibilityTable.toList_map] at table
  simp only [List.map_map, Function.comp_def] at buckets
  have inBuckets := n.definitions.any_toList fun ds => ds.any fun d => d.leaves.any foreign
  cases first : n.definitions.values.any fun ds => ds.any fun d => d.leaves.any foreign with
  | true =>
    rw [inBuckets, first] at buckets
    simp [decode, toElement, map, Function.comp_def, buckets, leaves, first]
  | false =>
    rw [inBuckets, first] at buckets
    simp [decode, toElement, map, Function.comp_def, buckets, table, readBuilders, readOperators,
      readTruths, readProofs, readImports, leaves, first, Except.mapError, -List.mapM_map]

end Scope

namespace Component

theorem decode_written (n : Component E R)
    (slots : ∀ leaf ∈ n.leaves, leaf.ReadAs write writeRef expr ref fault foreign f g) :
    decode expr ref (n.map write writeRef).toElement
      = verdict fault (n.leaves.any foreign) (n.map f g) := by
  obtain ⟨expected, s⟩ := n
  have scope := s.decode_written slots
  cases expected with
  | none => simp [decode, toElement, map, leaves, scope]
  | some name => simp [decode, toElement, map, leaves, scope]

end Component

namespace Form

/-- A layer of an expression is read if its leaves are. -/
theorem decode_written (n : Form E R)
    (slots : ∀ leaf ∈ n.leaves, leaf.ReadAs write writeRef expr ref fault foreign f g) :
    decode expr ref (n.map write writeRef).toElement
      = verdict fault (n.leaves.any foreign) (n.map f g) := by
  cases n with
  | block pos items =>
    simp only [leaves, List.forall_mem_flatMap] at slots
    have read := mapM_verdict fun i member => Item.decode_written i (slots i member)
    simp [decode, toElement, map, leaves, Function.comp_def, read, -List.mapM_map]
  | abstraction pos binder cases =>
    simp only [leaves, List.forall_mem_flatMap] at slots
    have read := mapM_verdict fun c member => Case.decode_written c (slots c member)
    simp [decode, toElement, map, leaves, Function.comp_def, read, -List.mapM_map]
  | matching pos scrutinee cases =>
    simp only [leaves, List.forall_mem_cons, List.forall_mem_flatMap, Leaf.readAs_exp] at slots
    have read := mapM_verdict fun c member => Case.decode_written c (slots.2 c member)
    simp [decode, toElement, map, leaves, Function.comp_def, slots.1, read, -List.mapM_map]
  | chain pos items | tuple pos items =>
    simp only [leaves, List.forall_mem_map, Leaf.readAs_exp] at slots
    simp [decode, toElement, map, leaves, Function.comp_def, mapM_verdict slots, -List.mapM_map]
  | record pos fields =>
    simp only [leaves, List.forall_mem_map, Leaf.readAs_exp] at slots
    have parts (name : Name) (e : E) (member : (name, e) ∈ fields.toList) :
        expr (id (write e)) = verdict fault (foreign (.exp e)) (f e) := slots (name, e) member
    have read := readEntries_written "fields" id fields parts
    simp [decode, toElement, map, leaves, Function.comp_def, read]
  | recordType pos fields => simp [decode, toElement, map, leaves, fields.decode_written slots]
  | projection pos value path =>
    simp only [leaves, List.forall_mem_singleton, Leaf.readAs_exp] at slots
    have read := mapM_written fun name (_ : name ∈ path) => name.decode_toElement
    simp [decode, toElement, map, leaves, slots, read, -List.mapM_map]
  | anonymous pos kind supers params body =>
    simp only [leaves, List.forall_mem_append, List.forall_mem_map, Leaf.readAs_exp] at slots
    obtain ⟨⟨supersSlots, paramsSlots⟩, bodySlots⟩ := slots
    simp [decode, toElement, map, leaves, mapM_verdict supersSlots,
      params.decode_written paramsSlots, body.decode_written bodySlots, Function.comp_def,
      -List.mapM_map]
  | literal l =>
    simp [decode, toElement, map, leaves, l.decode_toElement]
  | _ =>
    simp only [leaves, List.forall_mem_cons, Leaf.readAs_exp, Leaf.readAs_ref] at slots
    simp [decode, toElement, map, leaves, slots]

end Form

/-- Reading what was written for a node of any kind gives the node that it is rewritten to, unless
one of its leaves is foreign. -/
theorem Kind.decode_written (k : Kind) (n : k.Tree E R)
    (slots : ∀ leaf ∈ k.leaves n, leaf.ReadAs write writeRef expr ref fault foreign f g) :
    k.decode expr ref (k.toElement (k.map write writeRef n))
      = verdict fault ((k.leaves n).any foreign) (k.map f g n) := by
  rw [map_eq_rewrite, map_eq_rewrite]
  cases k with
  | ref =>
    simp only [leaves, List.forall_mem_singleton, Leaf.readAs_ref] at slots
    rw [leaves, List.any_cons, List.any_nil, Bool.or_false]
    exact slots
  | span => exact Span.decode_toElement n
  | literal => exact Literal.decode_toElement n
  | entry => exact Entry.decode_written n slots
  | field => exact Field.decode_written n slots
  | fields => exact Fields.decode_written n slots
  | case => exact Case.decode_written n slots
  | definition => exact Definition.decode_written n slots
  | imported => exact Import.decode_written n slots
  | proof => exact Proof.decode_written n slots
  | truth => exact Truth.decode_written n slots
  | builder => exact Builder.decode_written n slots
  | precedence => exact Precedence.decode_written n slots
  | operator => exact Operator.decode_written n slots
  | scope => exact Scope.decode_written n slots
  | component => exact Component.decode_written n slots
  | pattern => exact Pattern.decode_written n slots
  | item => exact Item.decode_written n slots
  | expr => exact Form.decode_written n slots

/-- Reading what was written for a leaf gives back the leaf. -/
def Leaf.ReadsBack (write : E → Element) (writeRef : R → Element)
    (expr : Element → Except DecodeError E) (ref : Element → Except DecodeError R) :
    Leaf E R → Prop
  | .exp e => expr (write e) = .ok e
  | .ref r => ref (writeRef r) = .ok r

/-- A node of any kind reads back from its element, if its leaves do. -/
theorem Kind.decode_toElement {expr : Element → Except DecodeError E}
    {ref : Element → Except DecodeError R} (k : Kind) (n : k.Tree E R)
    (slots : ∀ leaf ∈ k.leaves n, leaf.ReadsBack write writeRef expr ref) :
    k.decode expr ref (k.toElement (k.map write writeRef n)) = .ok n := by
  have fault : DecodeError := .childCount "" 0
  have read : ∀ leaf ∈ k.leaves n,
      leaf.ReadAs write writeRef expr ref fault (fun _ => false) id id := fun leaf member => by
    cases leaf with
    | exp e => exact slots (.exp e) member
    | ref r => exact slots (.ref r) member
  rw [k.decode_written n read, List.any_eq_false.mpr fun _ _ => Bool.false_ne_true, k.map_id]
  rfl

end SurfaceTree
