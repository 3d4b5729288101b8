import SurfaceTree.Proofs.Codec.RoundTrip

namespace SurfaceTree

/-- The name of an element and those of its attributes and children. -/
structure Layout where
  name : String
  attrs : List String
  children : List String
deriving DecidableEq

namespace Element

variable {α : Type} {x : Element} {l : Layout} {name key : String}

/-- The name of an element, and the names of its attributes and children. -/
def layout (x : Element) : Layout := ⟨x.name, x.attrs.map Prod.fst, x.children.map Element.name⟩

/-- The same element under another name. -/
def renamed (name : String) (x : Element) : Element := { x with name }

@[simp] theorem name_renamed : (x.renamed name).name = name := rfl

@[simp] theorem renamed_node (own : String) (attrs : List (String × String))
    (children : List Element) : (node own attrs children).renamed name = node name attrs children :=
  rfl

/-- An element has a name, and all attributes and children that go with it. -/
structure Offers (x : Element) (l : Layout) : Prop where
  name : l.name = x.name
  attrs : l.attrs.Forall (· ∈ x.layout.attrs)
  children : l.children.Forall (· ∈ x.layout.children)

/-- An attribute that was read is there. -/
theorem mem_of_attr (read : x.attr key = .ok name) : key ∈ x.layout.attrs := by
  refine lookup_isSome_iff_mem.mp ?_
  unfold attr at read
  split at read
  · next found => rw [found]; rfl
  · cases read

theorem mem_of_attrAs {as : String → Option α} {a : α} (read : x.attrAs key as = .ok a) :
    key ∈ x.layout.attrs := by
  obtain ⟨raw, found, -⟩ := bind_eq_ok.mp read
  exact mem_of_attr found

theorem mem_of_child {y : Element} (read : x.child name = .ok y) :
    name ∈ x.layout.children := by
  unfold child child? at read
  split at read
  · next found =>
    have named := List.find?_some found
    exact List.mem_map.mpr ⟨_, List.mem_of_find?_eq_some found, beq_iff_eq.mp named⟩
  · cases read

/-- A slot that was read is there. -/
theorem mem_of_slot {y : Element} (read : x.slot name = .ok y) :
    name ∈ x.layout.children := by
  obtain ⟨_, found, -⟩ := bind_eq_ok.mp read
  exact mem_of_child found

theorem mem_of_slots {item : Element → Except DecodeError α} {items : List α}
    (read : x.slots name item = .ok items) : name ∈ x.layout.children := by
  obtain ⟨_, found, -⟩ := bind_eq_ok.mp read
  exact mem_of_child found

theorem mem_of_mapping {value : Element → Except DecodeError α} {m : NameMap α}
    (read : x.mapping name value = .ok m) : name ∈ x.layout.children := by
  obtain ⟨_, found, -⟩ := bind_eq_ok.mp read
  exact mem_of_child found

theorem mem_of_pos {pos : Span} (read : x.pos = .ok pos) :
    "pos" ∈ x.layout.children := by
  obtain ⟨_, found, -⟩ := bind_eq_ok.mp read
  exact mem_of_child found

end Element

open Element

variable {E R : Type} {expr : Element → Except DecodeError E} {ref : Element → Except DecodeError R}
  {x : Element}

theorem Literal.offers_of_decode {l : Literal} (read : decode x = .ok l) :
    x.Offers ⟨"literal", ["kind"], ["pos"]⟩ := by
  obtain ⟨_, named, read⟩ := bind_eq_ok.mp read
  obtain ⟨kind, attr, read⟩ := bind_eq_ok.mp read
  have name : x.name = "literal" := by
    by_contra other
    rw [checkName, if_neg other] at named
    cases named
  split at read
  · cases read
  · cases read
  · obtain ⟨_, pos, -⟩ := bind_eq_ok.mp read
    exact ⟨name.symm, mem_of_attr attr, mem_of_pos pos⟩

namespace Form

/-- The variants of an expression, and what each is read from. -/
def layouts : List Layout :=
  [⟨"compound", [], ["pos", "items"]⟩,
    ⟨"abs", ["kind"], ["pos", "cases"]⟩,
    ⟨"match", [], ["pos", "scrutinee", "cases"]⟩,
    ⟨"ascribe", [], ["pos", "value", "type"]⟩,
    ⟨"seq", [], ["pos", "items"]⟩,
    ⟨"record", [], ["pos", "fields"]⟩,
    ⟨"record-type", [], ["pos", "fields"]⟩,
    ⟨"tuple", [], ["pos", "items"]⟩,
    ⟨"project", [], ["pos", "value", "path"]⟩,
    ⟨"sym", [], ["pos", "reference"]⟩,
    ⟨"with", [], ["pos", "function", "argument"]⟩,
    ⟨"where", [], ["pos", "value", "proposition"]⟩,
    ⟨"anon", ["kind"], ["pos", "supers", "params", "body"]⟩,
    ⟨"literal", ["kind"], ["pos"]⟩]

/-- Every variant is written with one of the layouts. -/
theorem layout_toElement (n : Form Element Element) : n.toElement.layout ∈ layouts := by
  cases n <;> simp [layout, toElement, Literal.toElement, node, layouts, Fields.toElement,
    ofSlot, ofSlots, ofMapping, Span.toElement]

/-- What is read as a form offers all that one of the layouts asks for. -/
theorem offers_of_decode {n : Form E R} (read : decode expr ref x = .ok n) :
    ∃ l ∈ layouts, x.Offers l := by
  unfold decode at read
  split at read
  · next named =>
    simp only [bind_eq_ok] at read
    obtain ⟨_, pos, _, items, -⟩ := read
    exact ⟨⟨"compound", [], ["pos", "items"]⟩, by decide, named.symm, trivial,
      mem_of_pos pos, mem_of_slots items⟩
  · next named =>
    simp only [bind_eq_ok] at read
    obtain ⟨_, pos, _, kind, _, cases, -⟩ := read
    exact ⟨⟨"abs", ["kind"], ["pos", "cases"]⟩, by decide, named.symm, mem_of_attrAs kind,
      mem_of_pos pos, mem_of_slots cases⟩
  · next named =>
    simp only [bind_eq_ok] at read
    obtain ⟨_, pos, _, scrutinee, _, -, _, cases, -⟩ := read
    exact ⟨⟨"match", [], ["pos", "scrutinee", "cases"]⟩, by decide, named.symm, trivial,
      mem_of_pos pos, mem_of_slot scrutinee, mem_of_slots cases⟩
  · next named =>
    simp only [bind_eq_ok] at read
    obtain ⟨_, pos, _, value, _, -, _, type, -⟩ := read
    exact ⟨⟨"ascribe", [], ["pos", "value", "type"]⟩, by decide, named.symm, trivial,
      mem_of_pos pos, mem_of_slot value, mem_of_slot type⟩
  · next named =>
    simp only [bind_eq_ok] at read
    obtain ⟨_, pos, _, items, -⟩ := read
    exact ⟨⟨"seq", [], ["pos", "items"]⟩, by decide, named.symm, trivial,
      mem_of_pos pos, mem_of_slots items⟩
  · next named =>
    simp only [bind_eq_ok] at read
    obtain ⟨_, pos, _, fields, -⟩ := read
    exact ⟨⟨"record", [], ["pos", "fields"]⟩, by decide, named.symm, trivial,
      mem_of_pos pos, mem_of_mapping fields⟩
  · next named =>
    simp only [bind_eq_ok] at read
    obtain ⟨_, pos, _, fields, -⟩ := read
    exact ⟨⟨"record-type", [], ["pos", "fields"]⟩, by decide, named.symm, trivial,
      mem_of_pos pos, mem_of_child fields⟩
  · next named =>
    simp only [bind_eq_ok] at read
    obtain ⟨_, pos, _, items, -⟩ := read
    exact ⟨⟨"tuple", [], ["pos", "items"]⟩, by decide, named.symm, trivial,
      mem_of_pos pos, mem_of_slots items⟩
  · next named =>
    simp only [bind_eq_ok] at read
    obtain ⟨_, pos, _, value, _, -, _, path, -⟩ := read
    exact ⟨⟨"project", [], ["pos", "value", "path"]⟩, by decide, named.symm, trivial,
      mem_of_pos pos, mem_of_slot value, mem_of_slots path⟩
  · next named =>
    simp only [bind_eq_ok] at read
    obtain ⟨_, pos, _, reference, -⟩ := read
    exact ⟨⟨"sym", [], ["pos", "reference"]⟩, by decide, named.symm, trivial,
      mem_of_pos pos, mem_of_slot reference⟩
  · next named =>
    simp only [bind_eq_ok] at read
    obtain ⟨_, pos, _, function, _, -, _, argument, -⟩ := read
    exact ⟨⟨"with", [], ["pos", "function", "argument"]⟩, by decide, named.symm, trivial,
      mem_of_pos pos, mem_of_slot function, mem_of_slot argument⟩
  · next named =>
    simp only [bind_eq_ok] at read
    obtain ⟨_, pos, _, value, _, -, _, proposition, -⟩ := read
    exact ⟨⟨"where", [], ["pos", "value", "proposition"]⟩, by decide, named.symm, trivial,
      mem_of_pos pos, mem_of_slot value, mem_of_slot proposition⟩
  · next named =>
    simp only [bind_eq_ok] at read
    obtain ⟨_, pos, _, kind, _, supers, _, params, _, -, _, body, -⟩ := read
    exact ⟨⟨"anon", ["kind"], ["pos", "supers", "params", "body"]⟩, by decide, named.symm,
      mem_of_attrAs kind, mem_of_pos pos, mem_of_slots supers, mem_of_slot params,
      mem_of_slot body⟩
  · obtain ⟨_, literal, -⟩ := bind_eq_ok.mp read
    exact ⟨⟨"literal", ["kind"], ["pos"]⟩, by decide, Literal.offers_of_decode literal⟩
  · cases read

/-- The names of the variants. -/
def variants : List String := layouts.map Layout.name

/-- The names stand in the order of the tags. -/
theorem variants_eq : variants = variantNames := rfl

/-- A form is written under the name that stands at its rank. -/
theorem variantNames_tag (n : Form Element Element) :
    variantNames[n.tag]? = some n.toElement.name := by
  cases n <;> rfl

/-- The variants whose elements have what another variant is read from. -/
def covered : List (String × String) :=
  [("compound", "seq"), ("compound", "tuple"), ("seq", "compound"), ("seq", "tuple"),
    ("tuple", "compound"), ("tuple", "seq"), ("record", "record-type"), ("record-type", "record"),
    ("abs", "literal"), ("anon", "literal")]

/-- A layout has all that another one asks for only in the cases that are listed. -/
theorem covered_of_offers : ∀ own ∈ layouts, ∀ l ∈ layouts,
    l.attrs.Forall (· ∈ own.attrs) → l.children.Forall (· ∈ own.children) →
      l.name = own.name ∨ (own.name, l.name) ∈ covered := by
  decide +kernel

/-- A form and the form of another variant that its element is taken for under the name of that
variant. -/
inductive TakenFor : String → Form E R → Form E R → Prop
  | chain_tuple (pos : Span) (items : List E) :
    TakenFor "tuple" (.chain pos items) (.tuple pos items)
  | tuple_chain (pos : Span) (items : List E) :
    TakenFor "seq" (.tuple pos items) (.chain pos items)
  | emptyBlock_chain (pos : Span) : TakenFor "seq" (.block pos []) (.chain pos [])
  | emptyBlock_tuple (pos : Span) : TakenFor "tuple" (.block pos []) (.tuple pos [])
  | emptyChain_block (pos : Span) : TakenFor "compound" (.chain pos []) (.block pos [])
  | emptyTuple_block (pos : Span) : TakenFor "compound" (.tuple pos []) (.block pos [])

variable {write : E → Element} {writeRef : R → Element} {v : String} {n n' t : Form E R}

/-- A form that is taken for another one has its leaves. -/
theorem TakenFor.leaves_eq (taken : n.TakenFor v t) : t.leaves = n.leaves := by
  cases taken <;> rfl

/-- Such an element is that of the other form. -/
theorem TakenFor.toElement_renamed (taken : n.TakenFor v t) :
    (n.map write writeRef).toElement.renamed v = (t.map write writeRef).toElement := by
  cases taken <;> rfl

theorem TakenFor.decode_renamed (taken : n.TakenFor v t)
    (slots : ∀ leaf ∈ n.leaves, leaf.ReadsBack write writeRef expr ref) :
    decode expr ref ((n.map write writeRef).toElement.renamed v) = .ok t := by
  have readsBack := Kind.expr.decode_toElement t (taken.leaves_eq ▸ slots)
  rw [Kind.map_eq_rewrite] at readsBack
  rw [taken.toElement_renamed]
  exact readsBack

end Form

/-- A list of things that cannot be read is read only if it is empty. -/
theorem eq_nil_of_mapM_eq_ok {ε α β : Type} {read : α → Except ε β} {xs : List α} {ys : List β}
    (done : xs.mapM read = .ok ys) (unreadable : ∀ x ∈ xs, ∀ y, read x ≠ .ok y) : xs = [] := by
  cases xs with
  | nil => rfl
  | cons x rest =>
    rw [List.mapM_cons] at done
    obtain ⟨y, first, -⟩ := bind_eq_ok.mp done
    exact absurd first (unreadable x (List.mem_cons_self ..) y)

/-- An item is written under the name that stands at its rank. -/
theorem Item.variantNames_tag (i : Item Element Element) :
    variantNames[i.tag]? = some i.toElement.name := by
  cases i <;> rfl

/-- What is read as an item has the name of an item. -/
theorem Item.name_of_decode {i : Item E R} (read : decode expr ref x = .ok i) :
    x.name ∈ variantNames := by
  unfold decode at read
  split at read
  · next named => exact named ▸ List.mem_cons_self
  · next named => exact named ▸ List.mem_cons_of_mem _ List.mem_cons_self
  · cases read

/-- No form has the name of an item. -/
theorem Form.not_item : ∀ name ∈ Item.variantNames, name ∉ variants := by decide

/-- Entries are no fields with an order. -/
theorem Fields.decode_ofMapping (m : NameMap Element) (fs : Fields E R) :
    decode expr ref (ofMapping "fields" id m) ≠ .ok fs := by
  intro read
  simp only [decode, bind_eq_ok] at read
  obtain ⟨_, -, _, bindings, -⟩ := read
  have bound := mem_of_mapping bindings
  simp [layout, ofMapping, node, ofEntry] at bound

namespace Form

variable {write : E → Element} {writeRef : R → Element} {v : String} {n n' t : Form E R}

/-- What an element is read as under the name of another variant, the form is taken for. -/
theorem takenFor_of_decode (slots : ∀ leaf ∈ n.leaves, leaf.ReadsBack write writeRef expr ref)
    (expressions : ∀ e, (write e).name ∈ variants)
    (readable : ∀ {x : Element} {e : E}, expr x = .ok e → x.name ∈ variants)
    (other : v ≠ (n.map write writeRef).toElement.name)
    (read : decode expr ref ((n.map write writeRef).toElement.renamed v) = .ok n') :
    n.TakenFor v n' := by
  obtain ⟨l, known, offers⟩ := offers_of_decode read
  have pair : ((n.map write writeRef).toElement.name, v) ∈ covered := by
    rcases covered_of_offers _ (layout_toElement _) l known offers.attrs offers.children
      with same | pair
    · exact absurd (offers.name.symm.trans same) other
    · rwa [offers.name] at pair
  have noExpression (i : Item E R) (e : E) : expr (i.map write writeRef).toElement ≠ .ok e :=
    fun done => not_item _ (List.mem_of_getElem? (Item.variantNames_tag _)) (readable done)
  have noItem (e : E) (i : Item E R) : Item.decode expr ref (write e) ≠ .ok i :=
    fun done => not_item _ (Item.name_of_decode done) (expressions e)
  have taken {t : Form E R} (taken : n.TakenFor v t) : n.TakenFor v n' := by
    rw [taken.decode_renamed slots] at read
    exact Except.ok.inj read ▸ taken
  cases n with
  | block pos items =>
    obtain rfl | rfl : v = "seq" ∨ v = "tuple" := by simpa [covered, map, toElement] using pair
    · obtain ⟨es, done, -⟩ : ∃ es,
          items.mapM (expr ∘ Item.toElement ∘ Item.map write writeRef) = .ok es ∧
            chain pos es = n' := by
        simpa [decode, map, toElement, bind_eq_ok] using read
      cases eq_nil_of_mapM_eq_ok done fun i _ => noExpression i
      exact taken (.emptyBlock_chain pos)
    · obtain ⟨es, done, -⟩ : ∃ es,
          items.mapM (expr ∘ Item.toElement ∘ Item.map write writeRef) = .ok es ∧
            tuple pos es = n' := by
        simpa [decode, map, toElement, bind_eq_ok] using read
      cases eq_nil_of_mapM_eq_ok done fun i _ => noExpression i
      exact taken (.emptyBlock_tuple pos)
  | chain pos items =>
    obtain rfl | rfl : v = "compound" ∨ v = "tuple" := by simpa [covered, map, toElement] using pair
    · obtain ⟨is, done, -⟩ : ∃ is,
          items.mapM (Item.decode expr ref ∘ write) = .ok is ∧ block pos is = n' := by
        simpa [decode, map, toElement, bind_eq_ok] using read
      cases eq_nil_of_mapM_eq_ok done fun e _ => noItem e
      exact taken (.emptyChain_block pos)
    · exact taken (.chain_tuple pos items)
  | tuple pos items =>
    obtain rfl | rfl : v = "compound" ∨ v = "seq" := by simpa [covered, map, toElement] using pair
    · obtain ⟨is, done, -⟩ : ∃ is,
          items.mapM (Item.decode expr ref ∘ write) = .ok is ∧ block pos is = n' := by
        simpa [decode, map, toElement, bind_eq_ok] using read
      cases eq_nil_of_mapM_eq_ok done fun e _ => noItem e
      exact taken (.emptyTuple_block pos)
    · exact taken (.tuple_chain pos items)
  | record pos fields =>
    obtain rfl : v = "record-type" := by simpa [covered, map, toElement] using pair
    obtain ⟨fs, done, -⟩ : ∃ fs,
        Fields.decode expr ref (ofMapping "fields" id (fields.map write)) = .ok fs ∧
          recordType pos fs = n' := by
      simpa [decode, map, toElement, bind_eq_ok] using read
    exact absurd done (Fields.decode_ofMapping _ fs)
  | recordType pos fields =>
    obtain rfl : v = "record" := by simpa [covered, map, toElement] using pair
    simp [decode, map, toElement, Fields.toElement, readEntries, checkName] at read
  | abstraction pos binder cases =>
    obtain rfl : v = "literal" := by simpa [covered, map, toElement] using pair
    cases binder <;>
      simp [decode, map, toElement, Literal.decode, LiteralValue.read?, Keyword.spelling] at read
  | anonymous pos kind supers params body =>
    obtain rfl : v = "literal" := by simpa [covered, map, toElement] using pair
    cases kind <;>
      simp [decode, map, toElement, Literal.decode, LiteralValue.read?, Keyword.spelling] at read
  | _ => simp [covered, map, toElement, Literal.toElement] at pair

end Form

namespace Pattern

/-- The variants of a pattern, and what each is read from. -/
def layouts : List Layout :=
  [⟨"option", [], ["pos", "alternatives"]⟩,
    ⟨"deconstruct", [], ["pos", "constructor", "argument"]⟩,
    ⟨"split", ["strict"], ["pos", "fields"]⟩,
    ⟨"typed", [], ["pos", "pattern", "type"]⟩,
    ⟨"as", ["name"], ["pos", "pattern"]⟩,
    ⟨"name", ["name"], ["pos"]⟩,
    ⟨"exact", [], ["literal"]⟩]

/-- The names of the variants. -/
def variants : List String := layouts.map Layout.name

/-- The names stand in the order of the tags. -/
theorem variants_eq : variants = variantNames := rfl

/-- A pattern is written under the name that stands at its rank. -/
theorem variantNames_tag (n : Pattern Element Element) :
    variantNames[n.tag]? = some n.toElement.name := by
  cases n <;> rfl

/-- Every variant of a pattern is written with one of the layouts. -/
theorem layout_toElement (n : Pattern Element Element) : n.toElement.layout ∈ layouts := by
  cases n <;> simp [layout, toElement, Literal.toElement, node, layouts, ofSlot, ofSlots,
    Span.toElement]

/-- What is read as a pattern offers all that one of the layouts asks for. -/
theorem offers_of_decode {n : Pattern E R} (read : decode expr ref x = .ok n) :
    ∃ l ∈ layouts, x.Offers l := by
  rw [decode_eq] at read
  unfold decodeVariant at read
  split at read
  · next named =>
    simp only [bind_eq_ok] at read
    obtain ⟨_, pos, _, choices, -⟩ := read
    exact ⟨⟨"option", [], ["pos", "alternatives"]⟩, by decide, named.symm, trivial,
      mem_of_pos pos, mem_of_slots choices⟩
  · next named =>
    simp only [bind_eq_ok] at read
    obtain ⟨_, pos, _, head, _, -, _, argument, -⟩ := read
    exact ⟨⟨"deconstruct", [], ["pos", "constructor", "argument"]⟩, by decide, named.symm, trivial,
      mem_of_pos pos, mem_of_slot head, mem_of_slot argument⟩
  · next named =>
    simp only [bind_eq_ok] at read
    obtain ⟨_, pos, _, fields, _, strict, -⟩ := read
    exact ⟨⟨"split", ["strict"], ["pos", "fields"]⟩, by decide, named.symm, mem_of_attrAs strict,
      mem_of_pos pos, mem_of_mapping fields⟩
  · next named =>
    simp only [bind_eq_ok] at read
    obtain ⟨_, pos, _, pattern, _, -, _, type, -⟩ := read
    exact ⟨⟨"typed", [], ["pos", "pattern", "type"]⟩, by decide, named.symm, trivial,
      mem_of_pos pos, mem_of_slot pattern, mem_of_slot type⟩
  · next named =>
    simp only [bind_eq_ok] at read
    obtain ⟨_, pos, _, name, _, pattern, -⟩ := read
    exact ⟨⟨"as", ["name"], ["pos", "pattern"]⟩, by decide, named.symm, mem_of_attrAs name,
      mem_of_pos pos, mem_of_slot pattern⟩
  · next named =>
    simp only [bind_eq_ok] at read
    obtain ⟨_, pos, _, name, -⟩ := read
    exact ⟨⟨"name", ["name"], ["pos"]⟩, by decide, named.symm, mem_of_attrAs name, mem_of_pos pos⟩
  · next named =>
    simp only [bind_eq_ok] at read
    obtain ⟨_, literal, -⟩ := read
    exact ⟨⟨"exact", [], ["literal"]⟩, by decide, named.symm, trivial, mem_of_child literal⟩
  · cases read

theorem covered_of_offers : ∀ own ∈ layouts, ∀ l ∈ layouts,
    l.attrs.Forall (· ∈ own.attrs) → l.children.Forall (· ∈ own.children) →
      l.name = own.name ∨ own.name = "as" ∧ l.name = "name" := by
  decide +kernel

/-- A pattern and the pattern of another variant that its element is taken for under the name of that
variant. What a name is bound to besides is lost. -/
inductive TakenFor : String → Pattern E R → Pattern E R → Prop
  | named_bind (pos : Span) (name : Name) (pattern : Pattern E R) :
    TakenFor "name" (.named pos name pattern) (.bind pos name)

variable {write : E → Element} {writeRef : R → Element} {v : String} {n n' t : Pattern E R}

theorem TakenFor.decode_renamed (taken : n.TakenFor v t) :
    decode expr ref ((n.map write writeRef).toElement.renamed v) = .ok t := by
  cases taken with
  | named_bind pos name pattern => simp [decode_eq, decodeVariant, map, toElement]

theorem takenFor_of_decode (other : v ≠ (n.map write writeRef).toElement.name)
    (read : decode expr ref ((n.map write writeRef).toElement.renamed v) = .ok n') :
    n.TakenFor v n' := by
  obtain ⟨l, known, offers⟩ := offers_of_decode read
  obtain ⟨own, rfl⟩ : (n.map write writeRef).toElement.name = "as" ∧ v = "name" := by
    rcases covered_of_offers _ (layout_toElement _) l known offers.attrs offers.children
      with same | pair
    · exact absurd (offers.name.symm.trans same) other
    · rwa [offers.name] at pair
  cases n with
  | named pos name pattern =>
    rw [(TakenFor.named_bind pos name pattern).decode_renamed] at read
    exact Except.ok.inj read ▸ .named_bind pos name pattern
  | _ => simp [map, toElement] at own

end Pattern

namespace Expr

variable {R : Type} [Reference R]

/-- An expression is written under the name of one of its variants. -/
theorem name_encode (e : Expr R) : e.encode.name ∈ Form.variants := by
  cases e with
  | mk form =>
    rw [encode_mk]
    exact Form.variants_eq ▸ List.mem_of_getElem? (Form.variantNames_tag _)

theorem name_of_decode {x : Element} {e : Expr R}
    (read : decode Reference.decode x = .ok e) : x.name ∈ Form.variants := by
  rw [decode_eq, ← bind_pure_comp] at read
  obtain ⟨form, read, -⟩ := bind_eq_ok.mp read
  obtain ⟨l, known, offers⟩ := Form.offers_of_decode read
  exact offers.name ▸ List.mem_map_of_mem known

theorem decode_renamed (readsBack : ∀ r : R, Reference.decode (Reference.toElement r) = .ok r)
    {e e' : Expr R} {v : String} (other : v ≠ e.encode.name) :
    decode Reference.decode (e.encode.renamed v) = .ok e' ↔ e.form.TakenFor v e'.form := by
  have slots : ∀ leaf ∈ e.form.leaves,
      leaf.ReadsBack encode Reference.toElement (decode Reference.decode) Reference.decode := by
    intro leaf _
    cases leaf with
    | exp e => exact e.decode_encode_of readsBack
    | ref r => exact readsBack r
  obtain ⟨form⟩ := e
  obtain ⟨form'⟩ := e'
  rw [encode_mk] at other ⊢
  rw [decode_eq, ← bind_pure_comp, bind_eq_ok]
  constructor
  · rintro ⟨form', read, ⟨⟩⟩
    exact Form.takenFor_of_decode slots name_encode name_of_decode other read
  · exact fun taken => ⟨form', taken.decode_renamed slots, rfl⟩

end Expr

namespace Node

/-- The element of an expression, a pattern or an item is named after the variant, whatever else is
in it. -/
theorem name_encode {R : Type} [Reference R] :
    (∀ n : Form (Expr R) R, Form.variantNames[n.tag]? = some (encode .expr n).name) ∧
    (∀ n : Pattern (Expr R) R, Pattern.variantNames[n.tag]? = some (encode .pattern n).name) ∧
    ∀ n : Item (Expr R) R, Item.variantNames[n.tag]? = some (encode .item n).name := by
  refine ⟨fun n => ?_, fun n => ?_, fun n => ?_⟩
  · have tag : (n.map Expr.encode Reference.toElement).tag = n.tag := by cases n <;> rfl
    rw [encode, Kind.map_eq_rewrite, ← tag]
    exact Form.variantNames_tag _
  · have tag : (n.map Expr.encode Reference.toElement).tag = n.tag := by cases n <;> rfl
    rw [encode, Kind.map_eq_rewrite, ← tag]
    exact Pattern.variantNames_tag _
  · have tag : (n.map Expr.encode Reference.toElement).tag = n.tag := by cases n <;> rfl
    rw [encode, Kind.map_eq_rewrite, ← tag]
    exact Item.variantNames_tag _

theorem decode_renamed_pattern {R : Type} [Reference R] {n n' : Node R .pattern} {v : String}
    (other : v ≠ (encode .pattern n).name) :
    decode .pattern ((encode .pattern n).renamed v) = .ok n' ↔ Pattern.TakenFor v n n' := by
  rw [encode, Kind.map_eq_rewrite] at other ⊢
  exact ⟨Pattern.takenFor_of_decode other, Pattern.TakenFor.decode_renamed⟩

/-- An element under the name of another variant is not read, with these exceptions. Runs of operands
and tuples have one layout and are taken for one another. A block, a run of operands or a tuple with
nothing in it is taken for any of the three. A pattern bound to a name is taken for the name alone. -/
theorem decode_renamed_iff (p : Phase) :
    (∀ (e e' : Expr p.Ref) (v : String), v ≠ e.encode.name →
      (Expr.decode Reference.decode (e.encode.renamed v) = .ok e' ↔ e.form.TakenFor v e'.form)) ∧
    ∀ (n n' : Node p.Ref .pattern) (v : String), v ≠ (encode .pattern n).name →
      (decode .pattern ((encode .pattern n).renamed v) = .ok n' ↔ Pattern.TakenFor v n n') :=
  ⟨fun _ _ _ => Expr.decode_renamed p.decode_toElement, fun _ _ _ => decode_renamed_pattern⟩

/-- A refinement is not taken for an application, and a pattern bound to a name is taken for the
name. -/
theorem decode_renamed_iff_named :
    let e : Expr Name := .mk (.refinement .dummy (.mk (.reference .dummy ⟨1⟩))
      (.mk (.reference .dummy ⟨2⟩)))
    let n : Node Name .pattern := .named .dummy ⟨1⟩ (.bind .dummy ⟨2⟩)
    (∀ e' : Expr Name, Expr.decode Reference.decode (e.encode.renamed "with") ≠ .ok e') ∧
      decode .pattern ((encode .pattern n).renamed "name")
        = .ok (.bind .dummy ⟨1⟩ : Node Name .pattern) := by
  intro e n
  obtain ⟨expressions, patterns⟩ := decode_renamed_iff .parsed
  refine ⟨fun e' read => ?_, ?_⟩
  · have never {v : String} {form : Form (Expr Name) Name} : ¬ e.form.TakenFor v form := nofun
    exact never ((expressions e e' "with" (by decide)).mp read)
  · exact (patterns n _ "name" (by decide)).mpr (.named_bind ..)

/-- Not every element under the name of another variant is refused. -/
theorem not_renamed_refused :
    ¬ ∀ p : Phase,
      (∀ (e : Expr p.Ref), ∀ v ∈ Form.variants, v ≠ e.encode.name →
        ∃ error, Expr.decode (R := p.Ref) Reference.decode (e.encode.renamed v) = .error error) ∧
      ∀ (n : Node p.Ref .pattern), ∀ v ∈ Pattern.variants, v ≠ (encode .pattern n).name →
        ∃ error, (decode .pattern ((encode .pattern n).renamed v) : Except _ (Node p.Ref .pattern))
          = .error error := by
  intro refused
  let n : Node Name .pattern := .named .dummy ⟨1⟩ (.bind .dummy ⟨2⟩)
  obtain ⟨error, read⟩ := (refused .parsed).2 n "name" (by decide) (by decide)
  have taken : decode .pattern ((encode .pattern n).renamed "name")
      = .ok (.bind .dummy ⟨1⟩ : Node Name .pattern) :=
    (decode_renamed_pattern (by decide)).mpr (.named_bind ..)
  cases taken.symm.trans read

end Node

end SurfaceTree
