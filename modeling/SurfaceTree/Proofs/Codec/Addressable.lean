import Mathlib.Data.Nat.Digits.Defs
import Mathlib.Data.String.Basic
import SurfaceTree.Proofs.Canonical.Readable
import SurfaceTree.Proofs.Codec.Bytes
import SurfaceTree.Proofs.Codec.Nodes

namespace SurfaceTree

/-- A text of which eight bytes can hold the length. -/
def Short (s : String) : Prop := s.utf8ByteSize < UInt64.size

instance : DecidablePred Short := fun s => inferInstanceAs (Decidable (s.utf8ByteSize < _))

/-- No character takes more than four bytes. -/
theorem utf8ByteSize_le (s : String) : s.utf8ByteSize ≤ 4 * s.length := by
  rw [← String.utf8Len_toList, ← String.length_toList]
  induction s.toList with
  | nil => exact Nat.le_refl 0
  | cons c cs ih =>
    have size := c.utf8Size_le_four
    rw [String.utf8Len_cons, List.length_cons]
    omega

/-- Twenty digits are enough for what 64 bits can hold. -/
theorem short_repr {n : Nat} (fits : n < 10 ^ 20) : Short n.repr := by
  have digits := Nat.repr_length n 20 (by decide) fits
  have size := utf8ByteSize_le n.repr
  exact Nat.lt_of_le_of_lt (show _ ≤ 80 by omega) (by decide)

@[simp] theorem short_word32 (n : UInt32) : Short (toString n) :=
  short_repr (Nat.lt_trans n.toNat_lt (by decide))

@[simp] theorem short_word64 (n : UInt64) : Short (toString n) :=
  short_repr (Nat.lt_trans n.toNat_lt (by decide))

@[simp] theorem short_bool (b : Bool) : Short (toString b) := by cases b <;> decide

/-- Every member of a vocabulary is spelled with a short word. -/
class ShortKeyword (α : Type) [Keyword α] : Prop where
  short_spelling : ∀ a : α, Short (Keyword.spelling a)

attribute [simp] ShortKeyword.short_spelling

instance : ShortKeyword Visibility := ⟨fun a => by cases a <;> decide⟩

instance : ShortKeyword TruthKind := ⟨fun a => by cases a <;> decide⟩

instance : ShortKeyword BuilderKind := ⟨fun a => by cases a <;> decide⟩

instance : ShortKeyword Binder := ⟨fun a => by cases a <;> decide⟩

instance : ShortKeyword Relation := ⟨fun a => by cases a <;> decide⟩

instance : ShortKeyword Fixity := ⟨fun a => by rcases a with _ | (_ | _ | _) | _ <;> decide⟩

/-- A number with a sign is spelled in a few digits. -/
theorem short_ofInt (value : Int64) : Short (Digits.ofInt value.toInt) := by
  have lower : -2 ^ 63 ≤ value.toInt := value.le_toInt
  have upper : value.toInt < 2 ^ 63 := value.toInt_lt
  have digits := Nat.repr_length value.toInt.natAbs 20 (by decide) (by omega)
  have size : (Digits.ofInt value.toInt).length ≤ 21 := by
    unfold Digits.ofInt
    split
    · have sign : "-".length = 1 := rfl
      rw [String.length_append, sign]
      exact Nat.add_le_add_left digits 1
    · exact Nat.le_succ_of_le digits
  have bytes := utf8ByteSize_le (Digits.ofInt value.toInt)
  exact Nat.lt_of_le_of_lt (show _ ≤ 84 by omega) (by decide)

theorem LiteralValue.short_numeral (v : LiteralValue) : Short v.numeral := by
  cases v with
  | int value => exact short_ofInt value
  | float bits => exact short_word64 bits
  | str name => exact short_word32 name.raw
  | char value => exact short_repr (Nat.lt_trans value.val.toNat_lt (by decide))

variable {V : Type}

namespace Element

variable {name : String} {attrs : List (String × String)} {children : List Element}

/-- An element is addressable if its texts are short, its lists are and its children are
addressable. -/
@[simp] theorem addressable_node :
    (node name attrs children).Addressable ↔ Short name ∧ attrs.length < UInt64.size ∧
      (∀ attr ∈ attrs, Short attr.1 ∧ Short attr.2) ∧ children.length < UInt64.size ∧
      ∀ y ∈ children, y.Addressable := by
  constructor
  · rintro ⟨shortName, fewAttrs, shortAttrs, fewChildren, each, -⟩
    exact ⟨shortName, fewAttrs, shortAttrs, fewChildren, each⟩
  · rintro ⟨shortName, fewAttrs, shortAttrs, fewChildren, each⟩
    exact .mk shortName fewAttrs shortAttrs fewChildren each nofun

/-- A slot for a list is addressable if the list is short and its items are addressable. -/
@[simp] theorem addressable_ofSlots {xs : List Element} :
    (ofSlots name xs).Addressable ↔
      Short name ∧ xs.length < UInt64.size ∧ ∀ x ∈ xs, x.Addressable := by
  simp +decide [ofSlots]

@[simp] theorem addressable_ofSlot {x : Element} :
    (ofSlot name x).Addressable ↔ Short name ∧ x.Addressable := by
  simp +decide [ofSlot]

end Element

namespace Key

@[simp] theorem addressable_record {parts : List Key} :
    (record parts).Addressable ↔ ∀ k ∈ parts, k.Addressable :=
  ⟨Addressable.of_record, .record⟩

@[simp] theorem addressable_list {items : List Key} :
    (list items).Addressable ↔ items.length < UInt64.size ∧ ∀ k ∈ items, k.Addressable :=
  ⟨Addressable.of_list, fun ⟨short, each⟩ => .list short each⟩

@[simp] theorem addressable_ofOption {k : Option Key} :
    (ofOption k).Addressable ↔ ∀ key ∈ k, key.Addressable := by
  cases k <;> simp [ofOption, Addressable.number]

end Key

variable {E R : Type} {write : E → Element} {writeRef : R → Element} {keyE : E → Key}
  {keyR : R → Key}

/-- The element of a leaf is addressable if its key is. -/
def Leaf.Fits (write : E → Element) (writeRef : R → Element) (keyE : E → Key) (keyR : R → Key) :
    Leaf E R → Prop
  | .exp e => (keyE e).Addressable → (write e).Addressable
  | .ref r => (keyR r).Addressable → (writeRef r).Addressable

@[simp] theorem Leaf.fits_exp {e : E} : (Leaf.exp e).Fits write writeRef keyE keyR
    ↔ ((keyE e).Addressable → (write e).Addressable) := Iff.rfl

@[simp] theorem Leaf.fits_ref {r : R} : (Leaf.ref r).Fits write writeRef keyE keyR
    ↔ ((keyR r).Addressable → (writeRef r).Addressable) := Iff.rfl

@[simp] theorem Span.addressable_toElement (s : Span) : s.toElement.Addressable := by
  simp +decide [toElement]

theorem Name.addressable_toElement (n : Name) : n.toElement.Addressable := by
  simp +decide [toElement]

theorem Symbol.addressable_toElement (s : Symbol) : s.toElement.Addressable := by
  simp +decide [toElement]

/-- A literal has a few short texts, whatever its value is. -/
theorem Literal.addressable_toElement (l : Literal) : l.toElement.Addressable := by
  obtain ⟨pos, value⟩ := l
  have kind : Short value.kindName := by
    cases value <;> exact of_decide_eq_true rfl
  have numeral : ∀ s ∈ some value.numeral, Short s := by
    rintro _ ⟨⟩
    exact value.short_numeral
  have attr : ∀ attr ∈ [("kind", value.kindName)], Short attr.1 ∧ Short attr.2 :=
    List.forall_mem_singleton.mpr ⟨show Short "kind" by decide, kind⟩
  exact .mk (by decide) (by simp +decide) attr (by simp +decide) (by simp) numeral

/-- An optional slot after a few children. -/
theorem Element.addressable_append_ofSlot? {name slot : String} {attrs : List (String × String)}
    {children : List Element} {e : Option E} (before : (node name attrs children).Addressable)
    (few : children.length < 8) (named : Short slot)
    (slots : ∀ leaf ∈ leavesOfOption e, leaf.Fits write writeRef keyE keyR)
    (fits : (Key.ofOption (e.map keyE)).Addressable) :
    (node name attrs (children ++ ofSlot? slot (e.map write))).Addressable := by
  cases e with
  | none => rwa [Option.map_none, ofSlot?, Option.map_none, Option.toList_none, List.append_nil]
  | some e =>
    simp only [leavesOfOption, List.forall_mem_singleton, Leaf.fits_exp] at slots
    have held : (ofSlot slot (write e)).Addressable := by
      simpa [named] using slots (by simpa using fits)
    have room : children.length + 1 < UInt64.size := Nat.lt_trans (Nat.succ_lt_succ few) (by decide)
    rw [addressable_node] at before ⊢
    obtain ⟨shortName, fewAttrs, shortAttrs, -, each⟩ := before
    refine ⟨shortName, fewAttrs, shortAttrs, ?_, List.forall_mem_append.mpr ⟨each, ?_⟩⟩
    · simpa [ofSlot?] using room
    · simpa [ofSlot?] using held

/-- The key of a mapping is addressable if the mapping is small and its values have addressable
keys. -/
@[simp] theorem NameMap.addressable_key {value : V → Key} {m : NameMap V} :
    (m.key value).Addressable ↔
      m.toList.length < UInt64.size ∧ ∀ entry ∈ m.toList, (value entry.2).Addressable := by
  rw [key, Key.addressable_list, List.length_map, List.forall_mem_map]
  simp [Name.key, Key.ofNat, Key.Addressable.number]

/-- The child of a mapping is addressable if its key is and if values with addressable keys have
addressable elements. -/
theorem Element.addressable_ofMapping {W : Type} {name : String} {toElement : W → Element}
    {f : V → W} {value : V → Key} {m : NameMap V} (fits : (m.key value).Addressable)
    (named : Short name)
    (each : ∀ entry ∈ m.toList,
      (value entry.2).Addressable → (toElement (f entry.2)).Addressable) :
    (ofMapping name toElement (m.map f)).Addressable := by
  rw [NameMap.addressable_key] at fits
  rw [ofMapping, addressable_node, NameMap.toList_map, List.map_map, List.length_map,
    List.forall_mem_map]
  refine ⟨named, by decide, List.forall_mem_nil _, fits.1, fun entry member => ?_⟩
  simpa +decide [ofEntry] using each entry member (fits.2 entry member)

namespace Pattern

/-- The element of a pattern is addressable if its key is and if those of its slots are. -/
theorem addressable_toElement (p : Pattern E R)
    (slots : ∀ leaf ∈ p.leaves, leaf.Fits write writeRef keyE keyR)
    (fits : (p.map keyE keyR).key.Addressable) : (p.map write writeRef).toElement.Addressable := by
  induction p using Pattern.induction with
  | alternatives pos choices ih =>
    simp only [leaves, leavesOfList_eq, List.forall_mem_flatMap] at slots
    simp only [map, mapAll_eq, key, keys_eq, Key.addressable_record, List.forall_mem_cons,
      Key.addressable_list, List.length_map, List.forall_mem_map] at fits
    have each : ∀ p ∈ choices, (p.map write writeRef).toElement.Addressable := fun p member =>
      ih p member (slots p member) (fits.2.1.2 p member)
    simpa +decide [map, toElement, fits.2.1.1] using each
  | construct pos head argument ih =>
    simp only [leaves, List.forall_mem_cons, Leaf.fits_ref] at slots
    simp only [map, key, Key.addressable_record, List.forall_mem_cons] at fits
    simp +decide [map, toElement, slots.1 fits.2.1, ih slots.2 fits.2.2.1]
  | split pos fields strict ih =>
    simp only [leaves_split, List.forall_mem_flatMap] at slots
    simp only [map_split, key_split, NameMap.key_map, Key.addressable_record,
      List.forall_mem_cons] at fits
    have entries : (Element.ofMapping "fields" toElement
        (fields.map (map write writeRef))).Addressable :=
      Element.addressable_ofMapping fits.2.1 (by decide) fun entry member =>
        ih entry member (slots entry member)
    simp +decide [map_split, toElement_split, entries]
  | typed pos pattern type ih =>
    simp only [leaves, List.forall_mem_append, List.forall_mem_singleton,
      Leaf.fits_exp] at slots
    simp only [map, key, Key.addressable_record, List.forall_mem_cons] at fits
    simp +decide [map, toElement, slots.2 fits.2.2.1, ih slots.1 fits.2.1]
  | named pos name pattern ih =>
    simp only [leaves] at slots
    simp only [map, key, Key.addressable_record, List.forall_mem_cons] at fits
    simp +decide [map, toElement, ih slots fits.2.2.1]
  | bind pos name => simp +decide [map, toElement]
  | literal l => simp +decide [map, toElement, l.addressable_toElement]

end Pattern

theorem Entry.addressable_toElement (n : Entry E R)
    (slots : ∀ leaf ∈ n.leaves, leaf.Fits write writeRef keyE keyR)
    (fits : (n.map keyE keyR).key.Addressable) : (n.map write writeRef).toElement.Addressable := by
  simp only [map, key, Key.addressable_record, List.forall_mem_cons] at fits
  simp +decide [map, toElement, n.pattern.addressable_toElement slots fits.2.1]

theorem Field.addressable_toElement (n : Field E R)
    (slots : ∀ leaf ∈ n.leaves, leaf.Fits write writeRef keyE keyR)
    (fits : (n.map keyE keyR).key.Addressable) : (n.map write writeRef).toElement.Addressable := by
  simp only [leaves, List.forall_mem_append] at slots
  simp only [map, key, Key.addressable_record, List.forall_mem_cons] at fits
  have entry := n.entry.addressable_toElement slots.1 fits.1
  exact Element.addressable_append_ofSlot? (by simpa +decide [map] using entry) (by simp)
    (by decide) slots.2 fits.2.1

theorem Fields.addressable_toElement (n : Fields E R)
    (slots : ∀ leaf ∈ n.leaves, leaf.Fits write writeRef keyE keyR)
    (fits : (n.map keyE keyR).key.Addressable) : (n.map write writeRef).toElement.Addressable := by
  simp only [leaves, List.forall_mem_flatMap] at slots
  simp only [key, bindings_map, NameMap.key_map, Key.addressable_record, List.forall_mem_cons,
    Key.addressable_list, List.length_map, order_map] at fits
  have bindings : (Element.ofMapping "bindings" Field.toElement
      (n.bindings.map (Field.map write writeRef))).Addressable :=
    Element.addressable_ofMapping fits.1 (by decide) fun entry member =>
      entry.2.addressable_toElement (slots entry (NameMap.mem_ofList member))
  have order : ∀ name ∈ n.order, name.toOrderKey.Addressable := fun name _ => by
    simp +decide [Name.toOrderKey]
  simpa +decide [toElement, bindings_map, bindings, fits.2.1.1] using order

theorem Case.addressable_toElement (n : Case E R)
    (slots : ∀ leaf ∈ n.leaves, leaf.Fits write writeRef keyE keyR)
    (fits : (n.map keyE keyR).key.Addressable) : (n.map write writeRef).toElement.Addressable := by
  simp only [leaves, List.forall_mem_append, List.forall_mem_singleton, Leaf.fits_exp] at slots
  simp only [map, key, Key.addressable_record, List.forall_mem_cons] at fits
  simp +decide [map, toElement, n.pattern.addressable_toElement slots.1 fits.1,
    slots.2 fits.2.1]

theorem Definition.addressable_toElement (n : Definition E R)
    (slots : ∀ leaf ∈ n.leaves, leaf.Fits write writeRef keyE keyR)
    (fits : (n.map keyE keyR).key.Addressable) : (n.map write writeRef).toElement.Addressable := by
  simp only [leaves, List.forall_mem_append] at slots
  simp only [map, key, Key.addressable_record, List.forall_mem_cons] at fits
  have pattern := n.pattern.addressable_toElement slots.1 fits.1
  exact Element.addressable_append_ofSlot? (by simpa +decide [map] using pattern)
    (by simp) (by decide) slots.2 fits.2.1

theorem Import.addressable_toElement (n : Import E)
    (slots : ∀ leaf ∈ n.leaves, leaf.Fits write writeRef keyE keyR)
    (fits : (n.map keyE).key.Addressable) : (n.map write).toElement.Addressable := by
  simp only [leaves, List.forall_mem_singleton, Leaf.fits_exp] at slots
  simp only [map, key, Key.addressable_record, List.forall_mem_cons] at fits
  simp +decide [map, toElement, slots fits.2.1]

theorem Proof.addressable_toElement (n : Proof E R)
    (slots : ∀ leaf ∈ n.leaves, leaf.Fits write writeRef keyE keyR)
    (fits : (n.map keyE keyR).key.Addressable) : (n.map write writeRef).toElement.Addressable := by
  simp only [leaves, List.forall_mem_cons, Leaf.fits_exp, Leaf.fits_ref] at slots
  simp only [map, key, Key.addressable_record, List.forall_mem_cons] at fits
  simp +decide [map, toElement, slots.1 fits.1, slots.2.1 fits.2.1]

theorem Truth.addressable_toElement (n : Truth E)
    (slots : ∀ leaf ∈ n.leaves, leaf.Fits write writeRef keyE keyR)
    (fits : (n.map keyE).key.Addressable) : (n.map write).toElement.Addressable := by
  simp only [leaves, List.forall_mem_cons, Leaf.fits_exp] at slots
  simp only [map, key, Key.addressable_record, List.forall_mem_cons] at fits
  have prop := slots.1 fits.2.2.1
  exact Element.addressable_append_ofSlot? (by simpa +decide [map] using prop)
    (by simp) (by decide) slots.2 fits.2.2.2.1

theorem Builder.addressable_toElement (n : Builder E R)
    (slots : ∀ leaf ∈ n.leaves, leaf.Fits write writeRef keyE keyR)
    (fits : (n.map keyE keyR).key.Addressable) : (n.map write writeRef).toElement.Addressable := by
  simp only [leaves, List.forall_mem_append, List.forall_mem_map, List.forall_mem_singleton,
    Leaf.fits_exp] at slots
  obtain ⟨⟨params, supers⟩, body⟩ := slots
  simp only [map, key, Key.addressable_record, List.forall_mem_cons, Key.addressable_list,
    List.length_map, List.forall_mem_map] at fits
  obtain ⟨-, -, paramsFit, ⟨few, supersFit⟩, bodyFits, -⟩ := fits
  have each : ∀ e ∈ n.supers, (write e).Addressable := fun e member =>
    supers e member (supersFit e member)
  simpa +decide [map, toElement, few, body bodyFits,
    n.params.addressable_toElement params paramsFit] using each

theorem Precedence.addressable_toElement (n : Precedence E)
    (slots : ∀ leaf ∈ n.leaves, leaf.Fits write writeRef keyE keyR)
    (fits : (n.map keyE).key.Addressable) : (n.map write).toElement.Addressable := by
  simp only [leaves, List.forall_mem_singleton, Leaf.fits_exp] at slots
  simp only [map, key, Key.addressable_record, List.forall_mem_cons] at fits
  simp +decide [map, toElement, slots fits.2.1]

theorem Operator.addressable_toElement (n : Operator E)
    (slots : ∀ leaf ∈ n.leaves, leaf.Fits write writeRef keyE keyR)
    (fits : (n.map keyE).key.Addressable) : (n.map write).toElement.Addressable := by
  simp only [leaves, List.forall_mem_flatMap] at slots
  simp only [map, key, Key.addressable_record, List.forall_mem_cons, Key.addressable_list,
    List.length_map, List.forall_mem_map] at fits
  have each : ∀ p ∈ n.precedence, (p.map write).toElement.Addressable := fun p member =>
    p.addressable_toElement (slots p member) (fits.2.1.2 p member)
  simpa +decide [map, toElement, fits.2.1.1] using each

theorem Item.addressable_toElement (n : Item E R)
    (slots : ∀ leaf ∈ n.leaves, leaf.Fits write writeRef keyE keyR)
    (fits : (n.map keyE keyR).key.Addressable) : (n.map write writeRef).toElement.Addressable := by
  cases n with
  | statement e =>
    simp only [leaves, List.forall_mem_singleton, Leaf.fits_exp] at slots
    simp only [map, key, Key.addressable_record, List.forall_mem_cons] at fits
    simp +decide [map, toElement, slots fits.2.1]
  | declaration d =>
    simp only [map, key, Key.addressable_record, List.forall_mem_cons] at fits
    simp +decide [map, toElement, d.addressable_toElement slots fits.2.1]

@[simp] theorem VisibilityTable.addressable_key {α : Type} {value : α → Key}
    {t : VisibilityTable α} :
    (t.key value).Addressable ↔ ∀ bucket ∈ t.toList, (value bucket.2).Addressable := by
  simp +decide [key, values, toList]

theorem Scope.addressable_toElement (n : Scope E R)
    (slots : ∀ leaf ∈ n.leaves, leaf.Fits write writeRef keyE keyR)
    (fits : (n.map keyE keyR).key.Addressable) : (n.map write writeRef).toElement.Addressable := by
  simp only [leaves, List.forall_mem_append, List.forall_mem_flatMap] at slots
  obtain ⟨⟨⟨⟨⟨builders, operators⟩, truths⟩, definitions⟩, proofs⟩, imports⟩ := slots
  simp only [map, key, NameMap.key_map, VisibilityTable.key_map, VisibilityTable.addressable_key,
    Key.addressable_record, List.forall_mem_cons, Key.addressable_list, List.length_map,
    List.forall_mem_map] at fits
  obtain ⟨-, buildersFit, operatorsFit, truthsFit, definitionsFit, ⟨fewProofs, proofsFit⟩,
    ⟨fewImports, importsFit⟩, -⟩ := fits
  have eachBuilder : (Element.ofMapping "builders" Builder.toElement
      (n.builders.map (Builder.map write writeRef))).Addressable :=
    Element.addressable_ofMapping buildersFit (by decide) fun entry member =>
      entry.2.addressable_toElement (builders entry member)
  have eachOperator : (Element.ofMapping "syntax" Operator.toElement
      (n.operators.map (Operator.map write))).Addressable :=
    Element.addressable_ofMapping operatorsFit (by decide) fun entry member =>
      entry.2.addressable_toElement (operators entry member)
  have eachTruth : (Element.ofMapping "truths" Truth.toElement
      (n.truths.map (Truth.map write))).Addressable :=
    Element.addressable_ofMapping truthsFit (by decide) fun entry member =>
      entry.2.addressable_toElement (truths entry member)
  have eachDefinition : (Element.node "defs" [] ((n.map write writeRef).definitions.toList.map
      fun bucket => .ofSlots (Keyword.spelling bucket.1)
        (bucket.2.map Definition.toElement))).Addressable := by
    refine Element.addressable_node.mpr ⟨by decide, by decide, List.forall_mem_nil _,
      by simp +decide [VisibilityTable.toList], ?_⟩
    simp only [map, VisibilityTable.toList_map, List.forall_mem_map]
    intro bucket member
    obtain ⟨few, each⟩ := definitionsFit bucket member
    have held : ∀ d ∈ bucket.2, (d.map write writeRef).toElement.Addressable := fun d inside =>
      d.addressable_toElement
        (definitions bucket.2 (VisibilityTable.mem_values member) d inside) (each d inside)
    simpa [few] using held
  have eachProof : ∀ p ∈ n.proofs, (p.map write writeRef).toElement.Addressable := fun p member =>
    p.addressable_toElement (proofs p member) (proofsFit p member)
  have eachImport : ∀ i ∈ n.imports, (i.map write).toElement.Addressable := fun i member =>
    i.addressable_toElement (imports i member) (importsFit i member)
  refine Element.addressable_node.mpr
    ⟨by decide, by simp +decide, by simp +decide, by simp +decide, ?_⟩
  simp only [List.forall_mem_cons]
  refine ⟨Span.addressable_toElement _, eachBuilder, eachOperator, eachTruth, eachDefinition,
    ?_, ?_, List.forall_mem_nil _⟩
  · simpa +decide [map, fewProofs] using eachProof
  · simpa +decide [map, fewImports] using eachImport

theorem Component.addressable_toElement (n : Component E R)
    (slots : ∀ leaf ∈ n.leaves, leaf.Fits write writeRef keyE keyR)
    (fits : (n.map keyE keyR).key.Addressable) : (n.map write writeRef).toElement.Addressable := by
  obtain ⟨expected, s⟩ := n
  simp only [map, key, Key.addressable_record, List.forall_mem_cons] at fits
  have scope := s.addressable_toElement slots fits.2.1
  cases expected <;> simp +decide [map, toElement, scope]

/-- The element of a layer of an expression is addressable if its key is and if those of its slots
are. -/
theorem Form.addressable_toElement (n : Form E R)
    (slots : ∀ leaf ∈ n.leaves, leaf.Fits write writeRef keyE keyR)
    (fits : (n.map keyE keyR).key.Addressable) : (n.map write writeRef).toElement.Addressable := by
  cases n with
  | block pos items =>
    simp only [leaves, List.forall_mem_flatMap] at slots
    simp only [map, key, Key.addressable_record, List.forall_mem_cons, Key.addressable_list,
      List.length_map, List.forall_mem_map] at fits
    have each : ∀ i ∈ items, (i.map write writeRef).toElement.Addressable := fun i member =>
      i.addressable_toElement (slots i member) (fits.2.1.2 i member)
    simpa +decide [map, toElement, fits.2.1.1] using each
  | abstraction pos binder cases =>
    simp only [leaves, List.forall_mem_flatMap] at slots
    simp only [map, key, Key.addressable_record, List.forall_mem_cons, Key.addressable_list,
      List.length_map, List.forall_mem_map] at fits
    have each : ∀ c ∈ cases, (c.map write writeRef).toElement.Addressable := fun c member =>
      c.addressable_toElement (slots c member) (fits.2.2.1.2 c member)
    simpa +decide [map, toElement, fits.2.2.1.1] using each
  | matching pos scrutinee cases =>
    simp only [leaves, List.forall_mem_cons, List.forall_mem_flatMap, Leaf.fits_exp] at slots
    simp only [map, key, Key.addressable_record, List.forall_mem_cons, Key.addressable_list,
      List.length_map, List.forall_mem_map] at fits
    have each : ∀ c ∈ cases, (c.map write writeRef).toElement.Addressable := fun c member =>
      c.addressable_toElement (slots.2 c member) (fits.2.2.1.2 c member)
    simpa +decide [map, toElement, slots.1 fits.2.1,
      fits.2.2.1.1] using each
  | chain pos items | tuple pos items =>
    simp only [leaves, List.forall_mem_map, Leaf.fits_exp] at slots
    simp only [map, key, Key.addressable_record, List.forall_mem_cons, Key.addressable_list,
      List.length_map, List.forall_mem_map] at fits
    have each : ∀ e ∈ items, (write e).Addressable := fun e member =>
      slots e member (fits.2.1.2 e member)
    simpa +decide [map, toElement, fits.2.1.1] using each
  | record pos fields =>
    simp only [leaves, List.forall_mem_map, Leaf.fits_exp] at slots
    simp only [map, key, NameMap.key_map, Key.addressable_record, List.forall_mem_cons] at fits
    have entries : (Element.ofMapping "fields" id (fields.map write)).Addressable :=
      Element.addressable_ofMapping fits.2.1 (by decide) slots
    simp +decide [map, toElement, entries]
  | recordType pos fields =>
    simp only [map, key, Key.addressable_record, List.forall_mem_cons] at fits
    simp +decide [map, toElement, fields.addressable_toElement slots fits.2.1]
  | projection pos value path =>
    simp only [leaves, List.forall_mem_singleton, Leaf.fits_exp] at slots
    simp only [map, key, Key.addressable_record, List.forall_mem_cons, Key.addressable_list,
      List.length_map] at fits
    simp +decide [map, toElement, slots fits.2.1, fits.2.2.1.1,
      Name.addressable_toElement]
  | anonymous pos kind supers params body =>
    simp only [leaves, List.forall_mem_append, List.forall_mem_map, Leaf.fits_exp] at slots
    obtain ⟨⟨supersSlots, paramsSlots⟩, bodySlots⟩ := slots
    simp only [map, key, Key.addressable_record, List.forall_mem_cons, Key.addressable_list,
      List.length_map, List.forall_mem_map] at fits
    obtain ⟨-, -, ⟨few, supersFit⟩, paramsFit, bodyFits, -⟩ := fits
    have each : ∀ e ∈ supers, (write e).Addressable := fun e member =>
      supersSlots e member (supersFit e member)
    simpa +decide [map, toElement, few,
      params.addressable_toElement paramsSlots paramsFit,
      body.addressable_toElement bodySlots bodyFits] using each
  | literal l => exact l.addressable_toElement
  | reference pos target =>
    simp only [leaves, List.forall_mem_singleton, Leaf.fits_ref] at slots
    simp only [map, key, Key.addressable_record, List.forall_mem_cons] at fits
    simp +decide [map, toElement, slots fits.2.1]
  | _ =>
    simp only [leaves, List.forall_mem_cons, Leaf.fits_exp] at slots
    simp only [map, key, Key.addressable_record, List.forall_mem_cons] at fits
    simp +decide [map, toElement, slots.1 fits.2.1, slots.2.1 fits.2.2.1]

/-- The element of a node of any kind is addressable if its key is. -/
theorem Kind.addressable_toElement (k : Kind) (n : k.Tree E R)
    (slots : ∀ leaf ∈ k.leaves n, leaf.Fits write writeRef keyE keyR)
    (fits : (k.key (k.map keyE keyR n)).Addressable) :
    (k.toElement (k.map write writeRef n)).Addressable := by
  rw [map_eq_rewrite] at fits ⊢
  cases k with
  | ref =>
    simp only [leaves, List.forall_mem_singleton, Leaf.fits_ref] at slots
    exact slots fits
  | span => exact Span.addressable_toElement n
  | literal => exact Literal.addressable_toElement n
  | entry => exact Entry.addressable_toElement n slots fits
  | field => exact Field.addressable_toElement n slots fits
  | fields => exact Fields.addressable_toElement n slots fits
  | case => exact Case.addressable_toElement n slots fits
  | definition => exact Definition.addressable_toElement n slots fits
  | imported => exact Import.addressable_toElement n slots fits
  | proof => exact Proof.addressable_toElement n slots fits
  | truth => exact Truth.addressable_toElement n slots fits
  | builder => exact Builder.addressable_toElement n slots fits
  | precedence => exact Precedence.addressable_toElement n slots fits
  | operator => exact Operator.addressable_toElement n slots fits
  | scope => exact Scope.addressable_toElement n slots fits
  | component => exact Component.addressable_toElement n slots fits
  | pattern => exact Pattern.addressable_toElement n slots fits
  | item => exact Item.addressable_toElement n slots fits
  | expr => exact Form.addressable_toElement n slots fits

end SurfaceTree
