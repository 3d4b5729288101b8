import SurfaceTree.Proofs.Codec.RoundTrip
import SurfaceTree.Proofs.Codec.Varied
import SurfaceTree.Proofs.VisibilityTable

namespace SurfaceTree

open Element

variable {E R : Type} {write : E → Element} {writeRef : R → Element}
  {expr : Element → Except DecodeError E} {ref : Element → Except DecodeError R}

/-- Reading any variation of what was written for a leaf follows the leaf. -/
def Leaf.Follows (write : E → Element) (writeRef : R → Element)
    (expr : Element → Except DecodeError E) (ref : Element → Except DecodeError R) :
    Leaf E R → Prop
  | .exp e => Element.Follows expr (write e) e
  | .ref r => Element.Follows ref (writeRef r) r

/-- An expression at a leaf follows its element if it is read from all variations of it. -/
@[simp] theorem Leaf.follows_exp {e : E} : (Leaf.exp e).Follows write writeRef expr ref ↔
    Element.Follows expr (write e) e := Iff.rfl

@[simp] theorem Leaf.follows_ref {r : R} : (Leaf.ref r).Follows write writeRef expr ref ↔
    Element.Follows ref (writeRef r) r := Iff.rfl

/-- An element without children has no variation but itself, as long as order matters in it. -/
theorem Element.Varied.childless {doubled : Option Name} {name : String}
    {attrs : List (String × String)} {y : Element} (v : Varied doubled (node name attrs []) y)
    (named : keepsOrder name) :
    y = node name attrs [] ∧ doubled = none := by
  obtain ⟨ys, rfl, each⟩ := v.of_named named
  obtain ⟨rfl, rfl⟩ := each.eq_nil
  exact ⟨rfl, rfl⟩

theorem Span.follows (s : Span) : Element.Follows decode s.toElement s := by
  intro doubled y v
  obtain ⟨rfl, rfl⟩ := v.childless rfl
  exact s.decode_toElement

theorem Name.follows (n : Name) : Element.Follows decode n.toElement n := by
  intro doubled y v
  obtain ⟨rfl, rfl⟩ := v.childless rfl
  exact n.decode_toElement

theorem Name.orderKey_follows (n : Name) : Element.Follows decodeOrderKey n.toOrderKey n := by
  intro doubled y v
  obtain ⟨rfl, rfl⟩ := v.childless rfl
  exact n.decodeOrderKey_toOrderKey

theorem Symbol.follows (s : Symbol) : Element.Follows decode s.toElement s := by
  intro doubled y v
  obtain ⟨rfl, rfl⟩ := v.childless rfl
  exact s.decode_toElement

/-- A position stands first and never varies. -/
theorem Element.Varied.positioned {doubled : Option Name} {name : String}
    {attrs : List (String × String)} {s : Span} {children : List Element} {y : Element}
    (v : Varied doubled (node name attrs (s.toElement :: children)) y)
    (named : name != "defs") :
    ∃ ys, y = node name attrs (s.toElement :: ys) ∧ VariedAll doubled children ys := by
  obtain ⟨ys, rfl, each⟩ := v.of_first (by simp) named
  cases each with
  | cons first others =>
    obtain ⟨rfl, -⟩ := first.childless rfl
    exact ⟨_, rfl, others⟩
  | here first others => exact absurd (first.childless rfl).2 nofun

theorem Element.VariedAll.only_pos {doubled : Option Name} {s : Span} {ys : List Element}
    (v : VariedAll doubled [s.toElement] ys) : ys = [s.toElement] ∧ doubled = none := by
  cases v with
  | cons first others =>
    obtain ⟨rfl, -⟩ := first.childless rfl
    obtain ⟨rfl, rfl⟩ := others.eq_nil
    exact ⟨rfl, rfl⟩
  | here first others => exact absurd (first.childless rfl).2 nofun

/-- The element of a literal has no variation but itself. -/
theorem Literal.eq_of_varied {doubled : Option Name} {l : Literal} {y : Element}
    (v : Varied doubled l.toElement y) : y = l.toElement ∧ doubled = none := by
  obtain ⟨ys, rfl, each⟩ := v.of_named_text rfl
  obtain ⟨rfl, rfl⟩ := each.only_pos
  exact ⟨rfl, rfl⟩

theorem Literal.follows (l : Literal) : Element.Follows decode l.toElement l := by
  intro doubled y v
  obtain ⟨rfl, rfl⟩ := eq_of_varied v
  exact l.decode_toElement

namespace Pattern

/-- A pattern is read from all variations of its element if its leaves are. -/
theorem follows (p : Pattern E R)
    (slots : ∀ leaf ∈ p.leaves, leaf.Follows write writeRef expr ref) :
    Element.Follows (decode expr ref) (p.map write writeRef).toElement p := by
  induction p using Pattern.induction with
  | alternatives pos choices ih =>
    simp only [leaves, leavesOfList_eq, List.forall_mem_flatMap] at slots
    intro doubled z v
    simp only [map, mapAll_eq, toElement, toElements_eq, List.map_map] at v
    obtain ⟨ys, rfl, afterPos⟩ := v.positioned rfl
    obtain ⟨y, rfl, named, reads⟩ := afterPos.read_last <| .ofSlots rfl fun p member =>
      ih p member (slots p member)
    rw [decode_eq]
    simp [decodeVariant, named, reads]
  | construct pos head argument ih =>
    simp only [leaves, List.forall_mem_cons, Leaf.follows_ref] at slots
    intro doubled z v
    obtain ⟨ys, rfl, afterPos⟩ := v.positioned rfl
    obtain ⟨_, _, x, ys, rfl, readHead, afterHead, rfl⟩ := afterPos.first_slot slots.1 rfl
    obtain ⟨y, rfl, readArgument⟩ := afterHead.last_slot (ih slots.2) rfl
    rw [decode_eq]
    simp [decodeVariant, readHead, readArgument]
  | split pos fields strict ih =>
    simp only [leaves_split, List.forall_mem_flatMap] at slots
    intro doubled z v
    rw [map_split, toElement_split] at v
    obtain ⟨ys, rfl, afterPos⟩ := v.positioned rfl
    obtain ⟨y, rfl, named, reads⟩ := afterPos.read_last <| .ofMapping fun entry member =>
      ih entry member (slots entry member)
    rw [decode_eq]
    simp [decodeVariant, named, reads]
  | typed pos pattern type ih =>
    simp only [leaves, List.forall_mem_append, List.forall_mem_singleton,
      Leaf.follows_exp] at slots
    intro doubled z v
    obtain ⟨ys, rfl, afterPos⟩ := v.positioned rfl
    obtain ⟨_, _, x, ys, rfl, readPattern, afterPattern, rfl⟩ := afterPos.first_slot (ih slots.1) rfl
    obtain ⟨y, rfl, readType⟩ := afterPattern.last_slot slots.2 rfl
    rw [decode_eq]
    simp [decodeVariant, readPattern, readType]
  | named pos name pattern ih =>
    simp only [leaves] at slots
    intro doubled z v
    obtain ⟨ys, rfl, afterPos⟩ := v.positioned rfl
    obtain ⟨x, rfl, reads⟩ := afterPos.last_slot (ih slots) rfl
    rw [decode_eq]
    simp [decodeVariant, reads]
  | bind pos name =>
    intro doubled z v
    obtain ⟨ys, rfl, afterPos⟩ := v.positioned rfl
    obtain ⟨rfl, rfl⟩ := afterPos.eq_nil
    rw [decode_eq]
    simp [decodeVariant]
  | literal l =>
    intro doubled z v
    obtain ⟨ys, rfl, each⟩ := v.of_named rfl
    obtain ⟨y, rfl, named, reads⟩ := each.read_last l.follows
    rw [decode_eq]
    simp [decodeVariant, named, reads]

end Pattern

/-- An optional slot is read, whatever comes before it under other names. -/
theorem Element.VariedAll.slot? {doubled : Option Name} {key : String} {e : Option E}
    {ys : List Element} (v : VariedAll doubled (ofSlot? key (e.map write)) ys)
    (slots : ∀ leaf ∈ leavesOfOption e, leaf.Follows write writeRef expr ref)
    (named : keepsOrder key) (name : String)
    (attrs : List (String × String)) :
    (node name attrs ys).slot? key expr = outcome doubled e := by
  cases e with
  | none =>
    obtain ⟨rfl, rfl⟩ := v.eq_nil
    rfl
  | some e =>
    simp only [leavesOfOption, List.forall_mem_singleton, Leaf.follows_exp] at slots
    obtain ⟨x, rfl, reads⟩ := v.last_slot slots named
    simp [reads]

theorem Entry.follows (n : Entry E R)
    (slots : ∀ leaf ∈ n.leaves, leaf.Follows write writeRef expr ref) :
    Element.Follows (decode expr ref) (n.map write writeRef).toElement n := by
  intro doubled z v
  obtain ⟨ys, rfl, afterPos⟩ := v.positioned rfl
  obtain ⟨x, rfl, reads⟩ := afterPos.last_slot (n.pattern.follows slots) rfl
  simp [decode, map, reads]

theorem Field.follows (n : Field E R)
    (slots : ∀ leaf ∈ n.leaves, leaf.Follows write writeRef expr ref) :
    Element.Follows (decode expr ref) (n.map write writeRef).toElement n := by
  simp only [leaves, List.forall_mem_append] at slots
  intro doubled z v
  obtain ⟨ys, rfl, afterPos⟩ := v.positioned rfl
  obtain ⟨_, _, y, ys, rfl, named, readEntry, afterEntry, rfl⟩ :=
    afterPos.read_first (n.entry.follows slots.1)
  have readDefault := afterEntry.slot? slots.2 rfl
  simp [decode, map, named, readEntry, readDefault]

theorem Fields.follows (n : Fields E R)
    (slots : ∀ leaf ∈ n.leaves, leaf.Follows write writeRef expr ref) :
    Element.Follows (decode expr ref) (n.map write writeRef).toElement n := by
  simp only [leaves, List.forall_mem_flatMap] at slots
  intro doubled z v
  simp only [toElement, bindings_map] at v
  obtain ⟨ys, rfl, each⟩ := v.of_first (by simp) rfl
  obtain ⟨first, later, y, ys, rfl, named, readBindings, afterBindings, rfl⟩ :=
    each.read_first <| .ofMapping fun entry member =>
      entry.2.follows (slots entry (NameMap.mem_ofList member))
  obtain ⟨y', rfl, named', readOrder⟩ :=
    afterBindings.read_last <| .ofSlots rfl fun name _ => name.orderKey_follows
  cases first <;> cases later <;>
    simp [decode, named, readBindings, named', readOrder, ofBindings_bindings, Except.mapError]

theorem Case.follows (n : Case E R)
    (slots : ∀ leaf ∈ n.leaves, leaf.Follows write writeRef expr ref) :
    Element.Follows (decode expr ref) (n.map write writeRef).toElement n := by
  simp only [leaves, List.forall_mem_append, List.forall_mem_singleton, Leaf.follows_exp] at slots
  intro doubled z v
  obtain ⟨ys, rfl, afterPos⟩ := v.positioned rfl
  obtain ⟨_, _, x, ys, rfl, readPattern, afterPattern, rfl⟩ :=
    afterPos.first_slot (n.pattern.follows slots.1) rfl
  obtain ⟨y, rfl, readBody⟩ := afterPattern.last_slot slots.2 rfl
  simp [decode, map, readPattern, readBody]

theorem Definition.follows (n : Definition E R)
    (slots : ∀ leaf ∈ n.leaves, leaf.Follows write writeRef expr ref) :
    Element.Follows (decode expr ref) (n.map write writeRef).toElement n := by
  simp only [leaves, List.forall_mem_append] at slots
  intro doubled z v
  obtain ⟨ys, rfl, afterPos⟩ := v.positioned rfl
  obtain ⟨_, _, x, ys, rfl, readPattern, afterPattern, rfl⟩ :=
    afterPos.first_slot (n.pattern.follows slots.1) rfl
  have readInit := afterPattern.slot? slots.2 rfl
  simp [decode, map, readPattern, readInit]

theorem Import.follows (n : Import E)
    (slots : ∀ leaf ∈ n.leaves, leaf.Follows write writeRef expr ref) :
    Element.Follows (decode expr) (n.map write).toElement n := by
  simp only [leaves, List.forall_mem_singleton, Leaf.follows_exp] at slots
  intro doubled z v
  obtain ⟨ys, rfl, afterPos⟩ := v.positioned rfl
  obtain ⟨x, rfl, reads⟩ := afterPos.last_slot slots rfl
  simp [decode, map, reads]

theorem Proof.follows (n : Proof E R)
    (slots : ∀ leaf ∈ n.leaves, leaf.Follows write writeRef expr ref) :
    Element.Follows (decode expr ref) (n.map write writeRef).toElement n := by
  simp only [leaves, List.forall_mem_cons, Leaf.follows_exp, Leaf.follows_ref] at slots
  obtain ⟨fact, body, -⟩ := slots
  intro doubled z v
  obtain ⟨ys, rfl, afterPos⟩ := v.positioned rfl
  obtain ⟨_, _, x, ys, rfl, readFact, afterFact, rfl⟩ := afterPos.first_slot fact rfl
  obtain ⟨y, rfl, readBody⟩ := afterFact.last_slot body rfl
  simp [decode, map, readFact, readBody]

theorem Truth.follows (n : Truth E)
    (slots : ∀ leaf ∈ n.leaves, leaf.Follows write writeRef expr ref) :
    Element.Follows (decode expr) (n.map write).toElement n := by
  simp only [leaves, List.forall_mem_cons, Leaf.follows_exp] at slots
  intro doubled z v
  obtain ⟨ys, rfl, afterPos⟩ := v.positioned rfl
  obtain ⟨_, _, x, ys, rfl, readProp, afterProp, rfl⟩ := afterPos.first_slot slots.1 rfl
  have readProof := afterProp.slot? slots.2 rfl
  simp [decode, map, readProp, readProof]

theorem Builder.follows (n : Builder E R)
    (slots : ∀ leaf ∈ n.leaves, leaf.Follows write writeRef expr ref) :
    Element.Follows (decode expr ref) (n.map write writeRef).toElement n := by
  simp only [leaves, List.forall_mem_append, List.forall_mem_map, List.forall_mem_singleton,
    Leaf.follows_exp] at slots
  obtain ⟨⟨params, supers⟩, body⟩ := slots
  intro doubled z v
  obtain ⟨ys, rfl, afterPos⟩ := v.positioned rfl
  obtain ⟨_, _, x, ys, rfl, readParams, afterParams, rfl⟩ :=
    afterPos.first_slot (n.params.follows params) rfl
  obtain ⟨_, _, y, ys, rfl, named, readSupers, afterSupers, rfl⟩ :=
    afterParams.read_first (.ofSlots rfl supers)
  obtain ⟨x', rfl, readBody⟩ := afterSupers.last_slot body rfl
  simp [decode, map, readParams, named, readSupers, readBody]

theorem Precedence.follows (n : Precedence E)
    (slots : ∀ leaf ∈ n.leaves, leaf.Follows write writeRef expr ref) :
    Element.Follows (decode expr) (n.map write).toElement n := by
  simp only [leaves, List.forall_mem_singleton, Leaf.follows_exp] at slots
  intro doubled z v
  obtain ⟨ys, rfl, each⟩ := v.of_named rfl
  obtain ⟨x, rfl, reads⟩ := each.last_slot slots rfl
  simp [decode, map, reads]

theorem Operator.follows (n : Operator E)
    (slots : ∀ leaf ∈ n.leaves, leaf.Follows write writeRef expr ref) :
    Element.Follows (decode expr) (n.map write).toElement n := by
  simp only [leaves, List.forall_mem_flatMap] at slots
  intro doubled z v
  simp only [map, toElement, List.map_map] at v
  obtain ⟨ys, rfl, afterPos⟩ := v.positioned rfl
  obtain ⟨y, rfl, named, reads⟩ :=
    afterPos.read_last <| .ofSlots rfl fun p member => Precedence.follows p (slots p member)
  simp [decode, named, reads]

theorem Item.follows (n : Item E R)
    (slots : ∀ leaf ∈ n.leaves, leaf.Follows write writeRef expr ref) :
    Element.Follows (decode expr ref) (n.map write writeRef).toElement n := by
  intro doubled z v
  cases n with
  | statement e =>
    simp only [leaves, List.forall_mem_singleton, Leaf.follows_exp] at slots
    obtain ⟨ys, rfl, each⟩ := v.of_named rfl
    obtain ⟨y, rfl, -, reads⟩ := each.read_last slots
    simp [decode, reads]
  | declaration d =>
    obtain ⟨ys, rfl, each⟩ := v.of_named rfl
    obtain ⟨y, rfl, -, reads⟩ := each.read_last (d.follows slots)
    simp [decode, reads]

namespace Scope

/-- The definitions of one visibility are read from all variations of their bucket. -/
theorem bucket_follows (bucket : Visibility × List (Definition E R))
    (slots : ∀ d ∈ bucket.2, ∀ leaf ∈ d.leaves, leaf.Follows write writeRef expr ref) :
    Element.Follows (decodeBucket expr ref) (.ofSlots (Keyword.spelling bucket.1)
      ((bucket.2.map (Definition.map write writeRef)).map Definition.toElement)) bucket := by
  intro doubled z v
  have named : keepsOrder (Keyword.spelling bucket.1) := by
    cases bucket.1 <;> rfl
  rw [List.map_map] at v
  obtain ⟨ys, rfl, each⟩ := v.of_named named
  have reads := each.mapM fun d member => Definition.follows d (slots d member)
  simp [decodeBucket, reads]

/-- The definition table is filled from its buckets, whatever their order. -/
theorem buckets_shuffled {doubled : Option Name} {t : VisibilityTable (List (Definition E R))}
    {y : Element} (slots : ∀ ds ∈ t.values, ∀ d ∈ ds, ∀ leaf ∈ d.leaves,
      leaf.Follows write writeRef expr ref)
    (v : Varied doubled (node "defs" []
      ((t.map (List.map (Definition.map write writeRef))).toList.map fun (v, ds) =>
        .ofSlots (Keyword.spelling v) (ds.map Definition.toElement))) y) :
    ∃ buckets, buckets.Perm t.toList ∧
      y.children.mapM (decodeBucket expr ref) = outcome doubled buckets := by
  rw [VisibilityTable.toList_map, List.map_map] at v
  have follows : ∀ bucket ∈ t.toList, _ := fun bucket member =>
    bucket_follows bucket (slots bucket.2 (VisibilityTable.mem_values member))
  cases v with
  | inside each => exact each.mapM_shuffled follows (.refl _)
  | shuffled unordered each order => exact each.mapM_shuffled follows order
  | doubled mapping each member binds order =>
    have named : "defs" ∉ mappingNames := by decide
    exact absurd mapping.1 named

/-- The buckets are read before all else, but only one part of a scope has a doubled entry. -/
theorem follows (n : Scope E R)
    (slots : ∀ leaf ∈ n.leaves, leaf.Follows write writeRef expr ref) :
    Element.Follows (decode expr ref) (n.map write writeRef).toElement n := by
  simp only [leaves, List.forall_mem_append, List.forall_mem_flatMap] at slots
  obtain ⟨⟨⟨⟨⟨builders, operators⟩, truths⟩, definitions⟩, proofs⟩, imports⟩ := slots
  intro doubled z v
  simp only [map, toElement, List.map_map] at v
  obtain ⟨ys, rfl, afterPos⟩ := v.positioned rfl
  obtain ⟨inBuilders, _, y₁, ys, rfl, varied₁, after₁, rfl, either₁⟩ := afterPos.split_first
  obtain ⟨inOperators, _, y₂, ys, rfl, varied₂, after₂, rfl, either₂⟩ := after₁.split_first
  obtain ⟨inTruths, _, y₃, ys, rfl, varied₃, after₃, rfl, either₃⟩ := after₂.split_first
  obtain ⟨inBuckets, _, y₄, ys, rfl, varied₄, after₄, rfl, -⟩ := after₃.split_first
  obtain ⟨_, _, y₅, ys, rfl, named₅, readProofs, after₅, rfl⟩ := after₄.read_first <|
    .ofSlots rfl fun p member => Proof.follows p (proofs p member)
  obtain ⟨y₆, rfl, named₆, readImports⟩ := after₅.read_last <|
    .ofSlots rfl fun i member => Import.follows i (imports i member)
  have readBuilders := Follows.ofMapping (fun entry member =>
    Builder.follows entry.2 (builders entry member)) _ _ varied₁
  have readOperators := Follows.ofMapping (fun entry member =>
    Operator.follows entry.2 (operators entry member)) _ _ varied₂
  have readTruths := Follows.ofMapping (fun entry member =>
    Truth.follows entry.2 (truths entry member)) _ _ varied₃
  obtain ⟨buckets, shuffled, readBuckets⟩ := buckets_shuffled definitions varied₄
  have table := VisibilityTable.ofList_of_perm shuffled
  have names := And.intro varied₁.name_eq <| And.intro varied₂.name_eq <|
    And.intro varied₃.name_eq varied₄.name_eq
  cases inBuckets with
  | none =>
    simp [decode, names, named₅, named₆, readBuckets, readBuilders, readOperators, readTruths,
      readProofs, readImports, table, Except.mapError]
  | some key =>
    have before : inBuilders = none ∧ inOperators = none ∧ inTruths = none := by
      simpa using And.intro either₁ (And.intro either₂ either₃)
    simp [decode, names, readBuckets, before]

end Scope

theorem Component.follows (n : Component E R)
    (slots : ∀ leaf ∈ n.leaves, leaf.Follows write writeRef expr ref) :
    Element.Follows (decode expr ref) (n.map write writeRef).toElement n := by
  obtain ⟨expected, s⟩ := n
  intro doubled z v
  obtain ⟨ys, rfl, each⟩ := v.of_named rfl
  obtain ⟨y, rfl, named, reads⟩ := each.read_last (s.follows slots)
  cases expected with
  | none => simp [decode, map, named, reads]
  | some name => simp [decode, map, named, reads]

namespace Form

theorem follows (n : Form E R)
    (slots : ∀ leaf ∈ n.leaves, leaf.Follows write writeRef expr ref) :
    Element.Follows (decode expr ref) (n.map write writeRef).toElement n := by
  intro doubled z v
  cases n with
  | block pos items =>
    simp only [leaves, List.forall_mem_flatMap] at slots
    simp only [map, toElement, List.map_map] at v
    obtain ⟨ys, rfl, afterPos⟩ := v.positioned rfl
    obtain ⟨y, rfl, named, reads⟩ := afterPos.read_last <| .ofSlots rfl fun i member =>
      Item.follows i (slots i member)
    simp [decode, named, reads]
  | abstraction pos binder cases =>
    simp only [leaves, List.forall_mem_flatMap] at slots
    simp only [map, toElement, List.map_map] at v
    obtain ⟨ys, rfl, afterPos⟩ := v.positioned rfl
    obtain ⟨y, rfl, named, reads⟩ := afterPos.read_last <| .ofSlots rfl fun c member =>
      Case.follows c (slots c member)
    simp [decode, named, reads]
  | matching pos scrutinee cases =>
    simp only [leaves, List.forall_mem_cons, List.forall_mem_flatMap, Leaf.follows_exp] at slots
    simp only [map, toElement, List.map_map] at v
    obtain ⟨ys, rfl, afterPos⟩ := v.positioned rfl
    obtain ⟨_, _, x, ys, rfl, readScrutinee, afterScrutinee, rfl⟩ := afterPos.first_slot slots.1 rfl
    obtain ⟨y, rfl, named, reads⟩ := afterScrutinee.read_last <| .ofSlots rfl fun c member =>
      Case.follows c (slots.2 c member)
    simp [decode, readScrutinee, named, reads]
  | chain pos items | tuple pos items =>
    simp only [leaves, List.forall_mem_map, Leaf.follows_exp] at slots
    obtain ⟨ys, rfl, afterPos⟩ := v.positioned rfl
    obtain ⟨y, rfl, named, reads⟩ := afterPos.read_last (.ofSlots rfl slots)
    simp [decode, named, reads]
  | record pos fields =>
    simp only [leaves, List.forall_mem_map, Leaf.follows_exp] at slots
    obtain ⟨ys, rfl, afterPos⟩ := v.positioned rfl
    obtain ⟨y, rfl, named, reads⟩ := afterPos.read_last (.ofMapping slots)
    simp [decode, named, reads]
  | recordType pos fields =>
    obtain ⟨ys, rfl, afterPos⟩ := v.positioned rfl
    obtain ⟨y, rfl, named, reads⟩ := afterPos.read_last (fields.follows slots)
    simp [decode, named, reads]
  | projection pos value path =>
    simp only [leaves, List.forall_mem_singleton, Leaf.follows_exp] at slots
    obtain ⟨ys, rfl, afterPos⟩ := v.positioned rfl
    obtain ⟨_, _, x, ys, rfl, readValue, afterValue, rfl⟩ := afterPos.first_slot slots rfl
    obtain ⟨y, rfl, named, reads⟩ := afterValue.read_last <| .ofSlots rfl fun name _ => name.follows
    simp [decode, readValue, named, reads]
  | reference pos target =>
    simp only [leaves, List.forall_mem_singleton, Leaf.follows_ref] at slots
    obtain ⟨ys, rfl, afterPos⟩ := v.positioned rfl
    obtain ⟨x, rfl, reads⟩ := afterPos.last_slot slots rfl
    simp [decode, reads]
  | anonymous pos kind supers params body =>
    simp only [leaves, List.forall_mem_append, List.forall_mem_map, Leaf.follows_exp] at slots
    obtain ⟨⟨supersSlots, paramsSlots⟩, bodySlots⟩ := slots
    obtain ⟨ys, rfl, afterPos⟩ := v.positioned rfl
    obtain ⟨_, _, y, ys, rfl, named, readSupers, afterSupers, rfl⟩ :=
      afterPos.read_first (.ofSlots rfl supersSlots)
    obtain ⟨_, _, x, ys, rfl, readParams, afterParams, rfl⟩ :=
      afterSupers.first_slot (params.follows paramsSlots) rfl
    obtain ⟨x', rfl, readBody⟩ := afterParams.last_slot (body.follows bodySlots) rfl
    simp [decode, named, readSupers, readParams, readBody]
  | literal l =>
    obtain ⟨rfl, rfl⟩ := Literal.eq_of_varied v
    simp [decode, l.decode_toElement]
  | _ =>
    simp only [leaves, List.forall_mem_cons, Leaf.follows_exp] at slots
    obtain ⟨ys, rfl, afterPos⟩ := v.positioned rfl
    obtain ⟨_, _, x, ys, rfl, readFirst, afterFirst, rfl⟩ := afterPos.first_slot slots.1 rfl
    obtain ⟨y, rfl, readSecond⟩ := afterFirst.last_slot slots.2.1 rfl
    simp [decode, readFirst, readSecond]

end Form

/-- Reading any variation of the element of a node follows the node, if it does so for its leaves. -/
theorem Kind.follows (k : Kind) (n : k.Tree E R)
    (slots : ∀ leaf ∈ k.leaves n, leaf.Follows write writeRef expr ref) :
    Element.Follows (k.decode expr ref) (k.toElement (k.map write writeRef n)) n := by
  rw [map_eq_rewrite]
  cases k with
  | ref =>
    simp only [leaves, List.forall_mem_singleton, Leaf.follows_ref] at slots
    exact slots
  | span => exact Span.follows n
  | literal => exact Literal.follows n
  | entry => exact Entry.follows n slots
  | field => exact Field.follows n slots
  | fields => exact Fields.follows n slots
  | case => exact Case.follows n slots
  | definition => exact Definition.follows n slots
  | imported => exact Import.follows n slots
  | proof => exact Proof.follows n slots
  | truth => exact Truth.follows n slots
  | builder => exact Builder.follows n slots
  | precedence => exact Precedence.follows n slots
  | operator => exact Operator.follows n slots
  | scope => exact Scope.follows n slots
  | component => exact Component.follows n slots
  | pattern => exact Pattern.follows n slots
  | item => exact Item.follows n slots
  | expr => exact Form.follows n slots

theorem Phase.follows (p : Phase) (r : p.Ref) :
    Element.Follows Reference.decode (Reference.toElement r) r := by
  cases p with
  | parsed => exact Name.follows r
  | resolved => exact Symbol.follows r

/-- An expression is read from all variations of its element, at every depth. -/
theorem Expr.follows {p : Phase} (e : Expr p.Ref) :
    Element.Follows (decode Reference.decode) e.encode e := by
  induction e using induction with
  | step form ih =>
    have slots : ∀ leaf ∈ form.leaves, leaf.Follows encode Reference.toElement
        (decode Reference.decode) Reference.decode := by
      intro leaf member
      cases leaf with
      | exp e => exact ih e member
      | ref r => exact p.follows r
    intro doubled y v
    rw [encode_mk] at v
    rw [decode_eq, form.follows slots doubled y v, map_outcome]

namespace Node

theorem follows {p : Phase} (k : Kind) (n : Node p.Ref k) :
    Element.Follows (decode k) (encode k n) n := by
  refine k.follows n fun leaf _ => ?_
  cases leaf with
  | exp e => exact e.follows
  | ref r => exact p.follows r

/-- Mappings and definition tables are read back from their entries and buckets in any order, at
every depth at once. An entry that is there twice is reported by its key, wherever it stands. -/
theorem decode_rearranged (p : Phase) :
    (∀ (k : Kind) (n : Node p.Ref k),
      (∀ x, (encode k n).Rearranged x → decode k x = .ok n) ∧
      ∀ key x, (encode k n).Doubled key x →
        decode (R := p.Ref) k x = .error (.duplicateKey key)) ∧
    ∀ e : Expr p.Ref,
      (∀ x, e.encode.Rearranged x → Expr.decode Reference.decode x = .ok e) ∧
      ∀ key x, e.encode.Doubled key x →
        Expr.decode (R := p.Ref) Reference.decode x = .error (.duplicateKey key) :=
  ⟨fun k n => ⟨follows k n none, fun key => follows k n (some key)⟩,
    fun e => ⟨e.follows none, fun key => e.follows (some key)⟩⟩

/-- A split of two fields, read with its fields exchanged and with the first one there twice. -/
theorem decode_rearranged_split :
    let field (key : Name) : Element := .ofEntry key (Pattern.bind .dummy key).toElement
    let split (fields : List Element) : Element :=
      .node "split" [("strict", "true")] [Span.dummy.toElement, .node "fields" [] fields]
    let n : Node Name .pattern :=
      .split .dummy (.ofList [(⟨1⟩, .bind .dummy ⟨1⟩), (⟨2⟩, .bind .dummy ⟨2⟩)]) true
    decode .pattern (split [field ⟨2⟩, field ⟨1⟩]) = .ok n ∧
    decode (R := Name) .pattern (split [field ⟨1⟩, field ⟨2⟩, field ⟨1⟩])
      = .error (.duplicateKey ⟨1⟩) := by
  intro field split n
  have written : encode .pattern n = split [field ⟨1⟩, field ⟨2⟩] := rfl
  have mapping : (node "fields" [] [field ⟨1⟩, field ⟨2⟩]).IsMapping :=
    ⟨by decide, by simp [field, ofEntry]⟩
  have exchanged : (encode .pattern n).Rearranged (split [field ⟨2⟩, field ⟨1⟩]) := by
    rw [written]
    exact .inside (.cons (.refl _) (.cons (.shuffled (.inl mapping) (.refl _) (.swap ..)) .nil))
  have doubled : (encode .pattern n).Doubled ⟨1⟩ (split [field ⟨1⟩, field ⟨2⟩, field ⟨1⟩]) := by
    rw [written]
    exact .inside (.cons (.refl _) (.here (.doubled mapping (.refl _) (List.mem_cons_self ..)
      (nameAttr_cons _) (.cons _ (.swap ..))) .nil))
  obtain ⟨reads, fails⟩ := (decode_rearranged .parsed).1 .pattern n
  exact ⟨reads _ exchanged, fails ⟨1⟩ _ doubled⟩

end Node

end SurfaceTree
