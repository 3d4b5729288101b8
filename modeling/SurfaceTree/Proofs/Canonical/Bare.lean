import SurfaceTree.Canonical.Bare
import SurfaceTree.Proofs.Canonical.Node

namespace SurfaceTree

namespace Pattern

variable {E R : Type}

@[simp] theorem bareAll_eq (choices : List (Pattern E R)) : bareAll choices = choices.map bare := by
  induction choices with
  | nil => rfl
  | cons p rest ih => simp only [bareAll, ih, List.map_cons]

@[simp] theorem bareRow_eq {keys : List Name} (row : Row (Pattern E R) keys) :
    bareRow row = row.map bare := by
  induction row with
  | nil => rfl
  | cons key p rest ih => simp only [bareRow, ih, Row.map]

/-- The fields of a split lose their positions one by one. -/
theorem bare_split (pos : Span) (fields : NameMap (Pattern E R)) (strict : Bool) :
    (split pos fields strict).bare = split .dummy (fields.map bare) strict := by
  rw [bare, bareRow_eq]
  rfl

end Pattern

section

variable {E R : Type} (f : E → Key) (g : R → Key)

theorem NameMap.key_congr {V : Type} {value value' : V → Key} {m : NameMap V}
    (same : ∀ entry ∈ m.toList, value entry.2 = value' entry.2) : m.key value = m.key value' := by
  simp only [key]
  exact congrArg Key.list (List.map_congr_left fun entry member => by rw [same entry member])

/-- A pattern has the same key without its positions, whatever fills its slots. -/
theorem Pattern.key_bare (n : Pattern E R) : (n.bare.map f g).key = (n.map f g).key := by
  induction n using Pattern.induction with
  | alternatives pos choices ih =>
    simp only [bare, bareAll_eq, map, mapAll_eq, key, keys_eq, List.map_map,
      Function.comp_def]
    rw [List.map_congr_left ih]
  | construct pos head argument ih => simp only [bare, map, key, ih]
  | split pos fields strict ih =>
    have sameKey : (fields.key fun p => (p.bare.map f g).key) = fields.key fun p => (p.map f g).key :=
      NameMap.key_congr ih
    simp only [bare_split, map_split, key_split, NameMap.key_map, sameKey]
  | typed pos pattern type ih => simp only [bare, map, key, ih]
  | named pos name pattern ih => simp only [bare, map, key, ih]
  | bind pos name => rfl
  | literal l => rfl

theorem Entry.key_bare (n : Entry E R) : (n.bare.map f g).key = (n.map f g).key := by
  simp only [bare, map, key, Pattern.key_bare]

theorem Field.key_bare (n : Field E R) : (n.bare.map f g).key = (n.map f g).key := by
  simp only [bare, map, key, Entry.key_bare]

theorem Fields.bindings_bare (n : Fields E R) : n.bare.bindings = n.bindings.map Field.bare :=
  n.bindings_mk_map (h := Field.bare)

theorem Fields.key_bare (n : Fields E R) : (n.bare.map f g).key = (n.map f g).key := by
  have sameOrder : n.bare.order = n.order := rfl
  simp only [key, bindings_map, bindings_bare, NameMap.key_map, Field.key_bare, order_map, sameOrder]

theorem Case.key_bare (n : Case E R) : (n.bare.map f g).key = (n.map f g).key := by
  simp only [bare, map, key, Pattern.key_bare]

theorem Definition.key_bare (n : Definition E R) : (n.bare.map f g).key = (n.map f g).key := by
  simp only [bare, map, key, Pattern.key_bare]

theorem Builder.key_bare (n : Builder E R) : (n.bare.map f g).key = (n.map f g).key := by
  simp only [bare, map, key, Fields.key_bare]

theorem Item.key_bare (n : Item E R) : (n.bare.map f g).key = (n.map f g).key := by
  cases n with
  | statement e => rfl
  | declaration d => simp only [bare, map, key, Definition.key_bare]

theorem Scope.key_bare (n : Scope E R) : (n.bare.map f g).key = (n.map f g).key := by
  simp only [bare, map, key, NameMap.key_map, VisibilityTable.key_map, List.map_map,
    Function.comp_def, Builder.key_bare, Definition.key_bare]
  rfl

theorem Component.key_bare (n : Component E R) : (n.bare.map f g).key = (n.map f g).key := by
  simp only [bare, map, key, Scope.key_bare]

/-- A layer of an expression has the same key without its positions. -/
theorem Form.key_bare (n : Form E R) : (n.bare.map f g).key = (n.map f g).key := by
  cases n with
  | block pos items =>
    simp only [bare, map, key, List.map_map, Function.comp_def, Item.key_bare]
  | abstraction pos binder cases =>
    simp only [bare, map, key, List.map_map, Function.comp_def, Case.key_bare]
  | matching pos scrutinee cases =>
    simp only [bare, map, key, List.map_map, Function.comp_def, Case.key_bare]
  | recordType pos fields => simp only [bare, map, key, Fields.key_bare]
  | anonymous pos kind supers params body =>
    simp only [bare, map, key, Fields.key_bare, Scope.key_bare]
  | _ => rfl

end

/-- If equal keys make equal values, lists with the same keys are mapped to the same list. -/
theorem map_eq_of_map_eq {α β κ : Type} {key : α → κ} {h : α → β} {xs ys : List α}
    (each : ∀ x ∈ xs, ∀ y, key x = key y → h x = h y) (same : xs.map key = ys.map key) :
    xs.map h = ys.map h := by
  induction xs generalizing ys with
  | nil =>
    cases ys with
    | nil => rfl
    | cons y rest' => cases same
  | cons x rest ih =>
    obtain ⟨first, others⟩ := List.forall_mem_cons.mp each
    cases ys with
    | nil => cases same
    | cons y rest' =>
      simp only [List.map_cons, List.cons.injEq] at same ⊢
      exact ⟨first y same.1, ih others same.2⟩

/-- If equal keys make equal values, mappings with the same key are mapped to the same mapping. -/
theorem NameMap.map_eq_of_key_eq {V W : Type} {value : V → Key} {h : V → W} {m m' : NameMap V}
    (each : ∀ entry ∈ m.toList, ∀ v, value entry.2 = value v → h entry.2 = h v)
    (same : m.key value = m'.key value) : m.map h = m'.map h := by
  apply ext
  simp only [key, Key.list.injEq] at same
  simp only [toList_map]
  refine map_eq_of_map_eq (fun entry member entry' sameEntry => ?_) same
  simp only [Key.record.injEq, List.cons.injEq, and_true] at sameEntry
  rw [Name.key_inj sameEntry.1, each entry member entry'.2 sameEntry.2]

/-- If equal keys make equal values, tables with the same key are mapped to the same table. -/
theorem VisibilityTable.map_eq_of_key_eq {α β : Type} {value : α → Key} {h : α → β}
    {t t' : VisibilityTable α} (each : ∀ a ∈ t.values, ∀ b, value a = value b → h a = h b)
    (same : t.key value = t'.key value) : t.map h = t'.map h := by
  simp only [values, List.forall_mem_cons] at each
  obtain ⟨hidden, priv, prot, pub, _⟩ := each
  simp only [key, values, List.map_cons, List.map_nil, Key.list.injEq, List.cons.injEq,
    and_true] at same
  rw [map, map, hidden _ same.1, priv _ same.2.1, prot _ same.2.2.1, pub _ same.2.2.2]

/-- Lists of names are read off their keys. -/
theorem Name.keys_inj {names names' : List Name} (same : names.map key = names'.map key) :
    names = names' :=
  List.map_injective_iff.mpr (fun _ _ => key_inj) same

/-- Optional names have different keys, as names do. -/
theorem Name.optionKey_inj {name name' : Option Name}
    (same : Key.ofOption (name.map key) = Key.ofOption (name'.map key)) : name = name' := by
  cases name <;> cases name' <;> simp [Key.ofOption] at same ⊢
  exact key_inj same

theorem Keyword.key_inj {α : Type} [Keyword α] [LawfulKeyword α] [DecidableEq α] {a b : α}
    (same : Keyword.key a = Keyword.key b) : a = b :=
  index_inj (Key.ofNat_inj same)

theorem Span.key_inj {a b : Span} (same : a.key = b.key) : a = b := by
  simp only [key, Key.record.injEq, List.cons.injEq, and_true] at same
  cases a; cases b
  exact congrArg₂ mk (UInt32.toNat_inj.mp (Key.ofNat_inj same.1))
    (UInt32.toNat_inj.mp (Key.ofNat_inj same.2))

theorem Fixity.key_inj {a b : Fixity} (same : a.key = b.key) : a = b := by
  cases a with
  | between side =>
    cases b with
    | between side' =>
      simp only [key, Key.record.injEq, List.cons.injEq, true_and, and_true] at same
      exact congrArg between (Keyword.key_inj same)
    | _ => simp [key, Key.ofNat] at same
  | _ => cases b <;> first | rfl | simp [key, Key.ofNat] at same

theorem LiteralValue.key_inj {a b : LiteralValue} (same : a.key = b.key) : a = b := by
  cases a with
  | int value =>
    cases b with
    | int value' =>
      simp only [key, Key.record.injEq, List.cons.injEq, Key.number.injEq, true_and,
        and_true] at same
      exact congrArg int (Int64.toInt_inj.mp same)
    | _ => simp [key, Key.ofNat] at same
  | float bits =>
    cases b with
    | float bits' =>
      simp only [key, Key.record.injEq, List.cons.injEq, true_and, and_true] at same
      exact congrArg float (UInt64.toNat_inj.mp (Key.ofNat_inj same))
    | _ => simp [key, Key.ofNat] at same
  | str name =>
    cases b with
    | str name' =>
      simp only [key, Key.record.injEq, List.cons.injEq, true_and, and_true] at same
      exact congrArg str (Name.key_inj same)
    | _ => simp [key, Key.ofNat] at same
  | char value =>
    cases b with
    | char value' =>
      simp only [key, Key.record.injEq, List.cons.injEq, true_and, and_true] at same
      exact congrArg char (Char.toNat_inj.mp (Key.ofNat_inj same))
    | _ => simp [key, Key.ofNat] at same

/-- Literals with the same key differ in nothing but where they stand. -/
theorem Literal.bare_eq_of_key_eq {l l' : Literal} (same : l.key = l'.key) : l.bare = l'.bare :=
  congrArg (mk .dummy) (LiteralValue.key_inj same)

variable {E R E' R' : Type} {keyE : E → Key} {keyR : R → Key} {f : E → E'} {g : R → R'}

/-- Leaves with the key of a leaf are rewritten as it is. -/
def Leaf.Determined (keyE : E → Key) (keyR : R → Key) (f : E → E') (g : R → R') :
    Leaf E R → Prop
  | .exp e => ∀ e', keyE e = keyE e' → f e = f e'
  | .ref r => ∀ r', keyR r = keyR r' → g r = g r'

/-- An expression is determined by its key if every expression with that key is mapped alike. -/
@[simp] theorem Leaf.determined_exp {e : E} :
    (Leaf.exp e).Determined keyE keyR f g ↔ ∀ e', keyE e = keyE e' → f e = f e' := Iff.rfl

@[simp] theorem Leaf.determined_ref {r : R} :
    (Leaf.ref r).Determined keyE keyR f g ↔ ∀ r', keyR r = keyR r' → g r = g r' := Iff.rfl

theorem map_option_eq_of_key_eq {e e' : Option E}
    (slots : ∀ leaf ∈ leavesOfOption e, leaf.Determined keyE keyR f g)
    (same : Key.ofOption (e.map keyE) = Key.ofOption (e'.map keyE)) : e.map f = e'.map f := by
  cases e with
  | none =>
    cases e' with
    | none => rfl
    | some a' => simp [Key.ofOption] at same
  | some a =>
    cases e' with
    | none => simp [Key.ofOption] at same
    | some a' =>
      simp only [leavesOfOption, List.forall_mem_singleton, Leaf.determined_exp] at slots
      simp only [Option.map_some, Key.ofOption, Key.record.injEq, List.cons.injEq, true_and,
        and_true] at same
      exact congrArg some (slots a' same)

namespace Pattern

/-- The key of a pattern shows its variant. -/
theorem tag_eq_of_key_eq {n n' : Pattern E R}
    (same : (n.map keyE keyR).key = (n'.map keyE keyR).key) : n.tag = n'.tag :=
  n.tagged_key.eq (same ▸ n'.tagged_key)

/-- Patterns with the same key differ in nothing but positions and what their slots leave open. -/
theorem bare_eq_of_key_eq {n n' : Pattern E R}
    (slots : ∀ leaf ∈ n.leaves, leaf.Determined keyE keyR f g)
    (same : (n.map keyE keyR).key = (n'.map keyE keyR).key) :
    (n.map f g).bare = (n'.map f g).bare := by
  induction n using Pattern.induction generalizing n' with
  | alternatives pos choices ih =>
    cases n' with
    | alternatives pos' choices' =>
      simp only [leaves, leavesOfList_eq, List.forall_mem_flatMap] at slots
      simp only [map, mapAll_eq, key, keys_eq, List.map_map, Key.record.injEq, List.cons.injEq,
        Key.list.injEq, true_and, and_true] at same
      simp only [map, mapAll_eq, bare, bareAll_eq, List.map_map]
      exact congrArg _ (map_eq_of_map_eq (fun p member _ => ih p member (slots p member)) same)
    | _ => cases tag_eq_of_key_eq same
  | construct pos head argument ih =>
    cases n' with
    | construct pos' head' argument' =>
      simp only [leaves, List.forall_mem_cons, Leaf.determined_ref] at slots
      simp only [map, key, Key.record.injEq, List.cons.injEq, true_and, and_true] at same
      simp only [map, bare, slots.1 _ same.1, ih slots.2 same.2]
    | _ => cases tag_eq_of_key_eq same
  | split pos fields strict ih =>
    cases n' with
    | split pos' fields' strict' =>
      simp only [leaves_split, List.forall_mem_flatMap] at slots
      simp only [map_split, key_split, NameMap.key_map, Key.record.injEq, List.cons.injEq,
        true_and, and_true] at same
      simp only [map_split, bare_split, NameMap.map_map, Key.ofBool_inj same.2]
      rw [NameMap.map_eq_of_key_eq (fun entry member _ => ih entry member (slots entry member))
        same.1]
    | _ => cases tag_eq_of_key_eq same
  | typed pos pattern type ih =>
    cases n' with
    | typed pos' pattern' type' =>
      simp only [leaves, List.forall_mem_append, List.forall_mem_singleton,
        Leaf.determined_exp] at slots
      simp only [map, key, Key.record.injEq, List.cons.injEq, true_and, and_true] at same
      simp only [map, bare, ih slots.1 same.1, slots.2 _ same.2]
    | _ => cases tag_eq_of_key_eq same
  | named pos name pattern ih =>
    cases n' with
    | named pos' name' pattern' =>
      simp only [map, key, Key.record.injEq, List.cons.injEq, true_and, and_true] at same
      simp only [map, bare, Name.key_inj same.1, ih slots same.2]
    | _ => cases tag_eq_of_key_eq same
  | bind pos name =>
    cases n' with
    | bind pos' name' =>
      simp only [map, key, Key.record.injEq, List.cons.injEq, true_and, and_true] at same
      simp only [map, bare, Name.key_inj same]
    | _ => cases tag_eq_of_key_eq same
  | literal l =>
    cases n' with
    | literal l' =>
      simp only [map, key, Key.record.injEq, List.cons.injEq, true_and, and_true] at same
      simp only [map, bare, Literal.bare_eq_of_key_eq same]
    | _ => cases tag_eq_of_key_eq same

end Pattern

namespace Entry

theorem bare_eq_of_key_eq {n n' : Entry E R}
    (slots : ∀ leaf ∈ n.leaves, leaf.Determined keyE keyR f g)
    (same : (n.map keyE keyR).key = (n'.map keyE keyR).key) :
    (n.map f g).bare = (n'.map f g).bare := by
  simp only [map, key, Key.record.injEq, List.cons.injEq, and_true] at same
  simp only [map, bare, Key.ofBool_inj same.1, Pattern.bare_eq_of_key_eq slots same.2]

end Entry

namespace Field

theorem bare_eq_of_key_eq {n n' : Field E R}
    (slots : ∀ leaf ∈ n.leaves, leaf.Determined keyE keyR f g)
    (same : (n.map keyE keyR).key = (n'.map keyE keyR).key) :
    (n.map f g).bare = (n'.map f g).bare := by
  simp only [leaves, List.forall_mem_append] at slots
  simp only [map, key, Key.record.injEq, List.cons.injEq, and_true] at same
  simp only [map, bare, Entry.bare_eq_of_key_eq slots.1 same.1,
    map_option_eq_of_key_eq slots.2 same.2]

end Field

namespace Fields

/-- Field lists with the same key declare the same fields in the same order. -/
theorem bare_eq_of_key_eq {n n' : Fields E R}
    (slots : ∀ leaf ∈ n.leaves, leaf.Determined keyE keyR f g)
    (same : (n.map keyE keyR).key = (n'.map keyE keyR).key) :
    (n.map f g).bare = (n'.map f g).bare := by
  simp only [leaves, List.forall_mem_flatMap] at slots
  simp only [key, bindings_map, NameMap.key_map, order_map, Key.record.injEq, List.cons.injEq,
    Key.list.injEq, and_true] at same
  obtain ⟨bindings, order⟩ := same
  refine eq_of_bindings_eq ?_ (Name.keys_inj order)
  simp only [bindings_bare, bindings_map, NameMap.map_map]
  exact NameMap.map_eq_of_key_eq (fun entry member _ =>
    Field.bare_eq_of_key_eq (slots entry (NameMap.mem_ofList member))) bindings

end Fields

namespace Case

theorem bare_eq_of_key_eq {n n' : Case E R}
    (slots : ∀ leaf ∈ n.leaves, leaf.Determined keyE keyR f g)
    (same : (n.map keyE keyR).key = (n'.map keyE keyR).key) :
    (n.map f g).bare = (n'.map f g).bare := by
  simp only [leaves, List.forall_mem_append, List.forall_mem_singleton,
    Leaf.determined_exp] at slots
  simp only [map, key, Key.record.injEq, List.cons.injEq, and_true] at same
  simp only [map, bare, Pattern.bare_eq_of_key_eq slots.1 same.1, slots.2 _ same.2]

end Case

namespace Definition

theorem bare_eq_of_key_eq {n n' : Definition E R}
    (slots : ∀ leaf ∈ n.leaves, leaf.Determined keyE keyR f g)
    (same : (n.map keyE keyR).key = (n'.map keyE keyR).key) :
    (n.map f g).bare = (n'.map f g).bare := by
  simp only [leaves, List.forall_mem_append] at slots
  simp only [map, key, Key.record.injEq, List.cons.injEq, and_true] at same
  simp only [map, bare, Pattern.bare_eq_of_key_eq slots.1 same.1,
    map_option_eq_of_key_eq slots.2 same.2]

end Definition

namespace Import

theorem bare_eq_of_key_eq {n n' : Import E}
    (slots : ∀ leaf ∈ n.leaves, leaf.Determined keyE keyR f g)
    (same : (n.map keyE).key = (n'.map keyE).key) : (n.map f).bare = (n'.map f).bare := by
  simp only [leaves, List.forall_mem_singleton, Leaf.determined_exp] at slots
  simp only [map, key, Key.record.injEq, List.cons.injEq, and_true] at same
  simp only [map, bare, Keyword.key_inj same.1, slots _ same.2]

end Import

namespace Proof

theorem bare_eq_of_key_eq {n n' : Proof E R}
    (slots : ∀ leaf ∈ n.leaves, leaf.Determined keyE keyR f g)
    (same : (n.map keyE keyR).key = (n'.map keyE keyR).key) :
    (n.map f g).bare = (n'.map f g).bare := by
  simp only [leaves, List.forall_mem_cons, Leaf.determined_ref, Leaf.determined_exp] at slots
  simp only [map, key, Key.record.injEq, List.cons.injEq, and_true] at same
  simp only [map, bare, slots.1 _ same.1, slots.2.1 _ same.2]

end Proof

namespace Truth

theorem bare_eq_of_key_eq {n n' : Truth E}
    (slots : ∀ leaf ∈ n.leaves, leaf.Determined keyE keyR f g)
    (same : (n.map keyE).key = (n'.map keyE).key) : (n.map f).bare = (n'.map f).bare := by
  simp only [leaves, List.forall_mem_cons, Leaf.determined_exp] at slots
  simp only [map, key, Key.record.injEq, List.cons.injEq, and_true] at same
  obtain ⟨kind, visibility, prop, proof⟩ := same
  simp only [map, bare, Keyword.key_inj kind, Keyword.key_inj visibility, slots.1 _ prop,
    map_option_eq_of_key_eq slots.2 proof]

end Truth

namespace Builder

theorem bare_eq_of_key_eq {n n' : Builder E R}
    (slots : ∀ leaf ∈ n.leaves, leaf.Determined keyE keyR f g)
    (same : (n.map keyE keyR).key = (n'.map keyE keyR).key) :
    (n.map f g).bare = (n'.map f g).bare := by
  simp only [leaves, List.forall_mem_append, List.forall_mem_map, List.forall_mem_singleton,
    Leaf.determined_exp] at slots
  obtain ⟨⟨paramsSlots, supersSlots⟩, bodySlot⟩ := slots
  simp only [map, key, Key.record.injEq, List.cons.injEq, Key.list.injEq, and_true] at same
  obtain ⟨kind, visibility, params, supers, body⟩ := same
  simp only [map, bare, Keyword.key_inj kind, Keyword.key_inj visibility,
    Fields.bare_eq_of_key_eq paramsSlots params, map_eq_of_map_eq supersSlots supers,
    bodySlot _ body]

end Builder

namespace Precedence

theorem map_eq_of_key_eq {n n' : Precedence E}
    (slots : ∀ leaf ∈ n.leaves, leaf.Determined keyE keyR f g)
    (same : (n.map keyE).key = (n'.map keyE).key) : n.map f = n'.map f := by
  simp only [leaves, List.forall_mem_singleton, Leaf.determined_exp] at slots
  simp only [map, key, Key.record.injEq, List.cons.injEq, and_true] at same
  simp only [map, Keyword.key_inj same.1, slots _ same.2]

end Precedence

namespace Operator

theorem bare_eq_of_key_eq {n n' : Operator E}
    (slots : ∀ leaf ∈ n.leaves, leaf.Determined keyE keyR f g)
    (same : (n.map keyE).key = (n'.map keyE).key) : (n.map f).bare = (n'.map f).bare := by
  simp only [leaves, List.forall_mem_flatMap] at slots
  simp only [map, key, List.map_map, Key.record.injEq, List.cons.injEq, Key.list.injEq,
    and_true] at same
  have precedence := map_eq_of_map_eq
    (fun p member _ => Precedence.map_eq_of_key_eq (slots p member)) same.2
  simp only [map, bare, Fixity.key_inj same.1, precedence]

end Operator

namespace Item

theorem tag_eq_of_key_eq {n n' : Item E R}
    (same : (n.map keyE keyR).key = (n'.map keyE keyR).key) : n.tag = n'.tag :=
  n.tagged_key.eq (same ▸ n'.tagged_key)

theorem bare_eq_of_key_eq {n n' : Item E R}
    (slots : ∀ leaf ∈ n.leaves, leaf.Determined keyE keyR f g)
    (same : (n.map keyE keyR).key = (n'.map keyE keyR).key) :
    (n.map f g).bare = (n'.map f g).bare := by
  cases n with
  | statement e =>
    cases n' with
    | statement e' =>
      simp only [leaves, List.forall_mem_singleton, Leaf.determined_exp] at slots
      simp only [map, key, Key.record.injEq, List.cons.injEq, true_and, and_true] at same
      simp only [map, bare, slots _ same]
    | declaration d' => cases tag_eq_of_key_eq same
  | declaration d =>
    cases n' with
    | statement e' => cases tag_eq_of_key_eq same
    | declaration d' =>
      simp only [map, key, Key.record.injEq, List.cons.injEq, true_and, and_true] at same
      simp only [map, bare, Definition.bare_eq_of_key_eq slots same]

end Item

namespace Scope

/-- Scopes with the same key hold the same namespaces, except for positions. -/
theorem bare_eq_of_key_eq {n n' : Scope E R}
    (slots : ∀ leaf ∈ n.leaves, leaf.Determined keyE keyR f g)
    (same : (n.map keyE keyR).key = (n'.map keyE keyR).key) :
    (n.map f g).bare = (n'.map f g).bare := by
  simp only [leaves, List.forall_mem_append, List.forall_mem_flatMap] at slots
  obtain ⟨⟨⟨⟨⟨builders, operators⟩, truths⟩, definitions⟩, proofs⟩, imports⟩ := slots
  simp only [map, key, NameMap.key_map, VisibilityTable.key_map, List.map_map, Key.record.injEq,
    List.cons.injEq, Key.list.injEq, and_true] at same
  obtain ⟨sameId, sameBuilders, sameOperators, sameTruths, sameDefinitions, sameProofs,
    sameImports⟩ := same
  have proofsEq : n.proofs.map (Proof.bare ∘ Proof.map f g)
      = n'.proofs.map (Proof.bare ∘ Proof.map f g) :=
    map_eq_of_map_eq (fun p member _ => Proof.bare_eq_of_key_eq (proofs p member)) sameProofs
  have importsEq : n.imports.map (Import.bare ∘ Import.map f)
      = n'.imports.map (Import.bare ∘ Import.map f) :=
    map_eq_of_map_eq (fun i member _ => Import.bare_eq_of_key_eq (imports i member)) sameImports
  simp only [map, bare, NameMap.map_map, VisibilityTable.map_map, List.map_map]
  rw [ScopeId.key_inj sameId,
    NameMap.map_eq_of_key_eq (fun entry member _ =>
      Builder.bare_eq_of_key_eq (builders entry member)) sameBuilders,
    NameMap.map_eq_of_key_eq (fun entry member _ =>
      Operator.bare_eq_of_key_eq (operators entry member)) sameOperators,
    NameMap.map_eq_of_key_eq (fun entry member _ =>
      Truth.bare_eq_of_key_eq (truths entry member)) sameTruths,
    VisibilityTable.map_eq_of_key_eq (fun ds bucket ds' sameBucket => ?_) sameDefinitions,
    proofsEq, importsEq]
  simp only [Function.comp_def, Key.list.injEq] at sameBucket
  simp only [Function.comp_apply, List.map_map]
  exact map_eq_of_map_eq (fun d member _ =>
    Definition.bare_eq_of_key_eq (definitions ds bucket d member)) sameBucket

end Scope

namespace Component

theorem bare_eq_of_key_eq {n n' : Component E R}
    (slots : ∀ leaf ∈ n.leaves, leaf.Determined keyE keyR f g)
    (same : (n.map keyE keyR).key = (n'.map keyE keyR).key) :
    (n.map f g).bare = (n'.map f g).bare := by
  simp only [map, key, Key.record.injEq, List.cons.injEq, and_true] at same
  obtain ⟨expected, scope⟩ := same
  simp only [map, bare, Scope.bare_eq_of_key_eq slots scope, Name.optionKey_inj expected]

end Component

namespace Form

theorem tag_eq_of_key_eq {n n' : Form E R}
    (same : (n.map keyE keyR).key = (n'.map keyE keyR).key) : n.tag = n'.tag :=
  n.tagged_key.eq (same ▸ n'.tagged_key)

/-- Layers of expressions with the same key differ in nothing but positions and what their slots
leave open. -/
theorem bare_eq_of_key_eq {n n' : Form E R}
    (slots : ∀ leaf ∈ n.leaves, leaf.Determined keyE keyR f g)
    (same : (n.map keyE keyR).key = (n'.map keyE keyR).key) :
    (n.map f g).bare = (n'.map f g).bare := by
  cases n with
  | block pos items =>
    cases n' with
    | block pos' items' =>
      simp only [leaves, List.forall_mem_flatMap] at slots
      simp only [map, key, List.map_map, Key.record.injEq, List.cons.injEq, Key.list.injEq,
        true_and, and_true] at same
      simp only [map, bare, List.map_map, Function.comp_def]
      rw [map_eq_of_map_eq (fun i member _ => Item.bare_eq_of_key_eq (slots i member)) same]
    | _ => cases tag_eq_of_key_eq same
  | abstraction pos binder cases =>
    cases n' with
    | abstraction pos' binder' cases' =>
      simp only [leaves, List.forall_mem_flatMap] at slots
      simp only [map, key, List.map_map, Key.record.injEq, List.cons.injEq, Key.list.injEq,
        true_and, and_true] at same
      simp only [map, bare, List.map_map, Function.comp_def, Keyword.key_inj same.1]
      rw [map_eq_of_map_eq (fun c member _ => Case.bare_eq_of_key_eq (slots c member)) same.2]
    | _ => cases tag_eq_of_key_eq same
  | matching pos scrutinee cases =>
    cases n' with
    | matching pos' scrutinee' cases' =>
      simp only [leaves, List.forall_mem_cons, List.forall_mem_flatMap,
        Leaf.determined_exp] at slots
      simp only [map, key, List.map_map, Key.record.injEq, List.cons.injEq, Key.list.injEq,
        true_and, and_true] at same
      simp only [map, bare, List.map_map, Function.comp_def, slots.1 _ same.1]
      rw [map_eq_of_map_eq (fun c member _ => Case.bare_eq_of_key_eq (slots.2 c member)) same.2]
    | _ => cases tag_eq_of_key_eq same
  | ascription pos value type =>
    cases n' with
    | ascription pos' value' type' =>
      simp only [leaves, List.forall_mem_cons, Leaf.determined_exp] at slots
      simp only [map, key, Key.record.injEq, List.cons.injEq, true_and, and_true] at same
      simp only [map, bare, slots.1 _ same.1, slots.2.1 _ same.2]
    | _ => cases tag_eq_of_key_eq same
  | chain pos items =>
    cases n' with
    | chain pos' items' =>
      simp only [leaves, List.forall_mem_map, Leaf.determined_exp] at slots
      simp only [map, key, Key.record.injEq, List.cons.injEq, Key.list.injEq, true_and,
        and_true] at same
      simp only [map, bare, map_eq_of_map_eq slots same]
    | _ => cases tag_eq_of_key_eq same
  | record pos fields =>
    cases n' with
    | record pos' fields' =>
      simp only [leaves, List.forall_mem_map, Leaf.determined_exp] at slots
      simp only [map, key, NameMap.key_map, Key.record.injEq, List.cons.injEq, true_and,
        and_true] at same
      simp only [map, bare, NameMap.map_eq_of_key_eq slots same]
    | _ => cases tag_eq_of_key_eq same
  | recordType pos fields =>
    cases n' with
    | recordType pos' fields' =>
      simp only [map, key, Key.record.injEq, List.cons.injEq, true_and, and_true] at same
      simp only [map, bare, Fields.bare_eq_of_key_eq slots same]
    | _ => cases tag_eq_of_key_eq same
  | tuple pos items =>
    cases n' with
    | tuple pos' items' =>
      simp only [leaves, List.forall_mem_map, Leaf.determined_exp] at slots
      simp only [map, key, Key.record.injEq, List.cons.injEq, Key.list.injEq, true_and,
        and_true] at same
      simp only [map, bare, map_eq_of_map_eq slots same]
    | _ => cases tag_eq_of_key_eq same
  | projection pos value path =>
    cases n' with
    | projection pos' value' path' =>
      simp only [leaves, List.forall_mem_singleton, Leaf.determined_exp] at slots
      simp only [map, key, Key.record.injEq, List.cons.injEq, Key.list.injEq, true_and,
        and_true] at same
      simp only [map, bare, slots _ same.1, Name.keys_inj same.2]
    | _ => cases tag_eq_of_key_eq same
  | reference pos target =>
    cases n' with
    | reference pos' target' =>
      simp only [leaves, List.forall_mem_singleton, Leaf.determined_ref] at slots
      simp only [map, key, Key.record.injEq, List.cons.injEq, true_and, and_true] at same
      simp only [map, bare, slots _ same]
    | _ => cases tag_eq_of_key_eq same
  | application pos function argument =>
    cases n' with
    | application pos' function' argument' =>
      simp only [leaves, List.forall_mem_cons, Leaf.determined_exp] at slots
      simp only [map, key, Key.record.injEq, List.cons.injEq, true_and, and_true] at same
      simp only [map, bare, slots.1 _ same.1, slots.2.1 _ same.2]
    | _ => cases tag_eq_of_key_eq same
  | refinement pos value proposition =>
    cases n' with
    | refinement pos' value' proposition' =>
      simp only [leaves, List.forall_mem_cons, Leaf.determined_exp] at slots
      simp only [map, key, Key.record.injEq, List.cons.injEq, true_and, and_true] at same
      simp only [map, bare, slots.1 _ same.1, slots.2.1 _ same.2]
    | _ => cases tag_eq_of_key_eq same
  | anonymous pos kind supers params body =>
    cases n' with
    | anonymous pos' kind' supers' params' body' =>
      simp only [leaves, List.forall_mem_append, List.forall_mem_map, Leaf.determined_exp] at slots
      obtain ⟨⟨supersSlots, paramsSlots⟩, bodySlots⟩ := slots
      simp only [map, key, Key.record.injEq, List.cons.injEq, Key.list.injEq, true_and,
        and_true] at same
      obtain ⟨sameKind, sameSupers, sameParams, sameBody⟩ := same
      simp only [map, bare, Keyword.key_inj sameKind, map_eq_of_map_eq supersSlots sameSupers,
        Fields.bare_eq_of_key_eq paramsSlots sameParams, Scope.bare_eq_of_key_eq bodySlots sameBody]
    | _ => cases tag_eq_of_key_eq same
  | literal l =>
    cases n' with
    | literal l' =>
      simp only [map, key, Key.record.injEq, List.cons.injEq, true_and, and_true] at same
      simp only [map, bare, Literal.bare_eq_of_key_eq same]
    | _ => cases tag_eq_of_key_eq same

end Form

namespace Kind

theorem key_bare (f : E → Key) (g : R → Key) (k : Kind) (n : k.Tree E R) :
    k.key (k.map f g (k.bare n)) = k.key (k.map f g n) := by
  rw [map_eq_rewrite, map_eq_rewrite]
  cases k with
  | ref | span | literal | imported | proof | truth | precedence | operator => rfl
  | entry => exact Entry.key_bare f g n
  | field => exact Field.key_bare f g n
  | fields => exact Fields.key_bare f g n
  | case => exact Case.key_bare f g n
  | definition => exact Definition.key_bare f g n
  | builder => exact Builder.key_bare f g n
  | scope => exact Scope.key_bare f g n
  | component => exact Component.key_bare f g n
  | pattern => exact Pattern.key_bare f g n
  | item => exact Item.key_bare f g n
  | expr => exact Form.key_bare f g n

/-- Layers of any kind with the same key differ in nothing but positions and what their slots leave
open. -/
theorem bare_eq_of_key_eq (k : Kind) {n n' : k.Tree E R}
    (slots : ∀ leaf ∈ k.leaves n, leaf.Determined keyE keyR f g)
    (same : k.key (k.map keyE keyR n) = k.key (k.map keyE keyR n')) :
    k.bare (k.map f g n) = k.bare (k.map f g n') := by
  rw [map_eq_rewrite, map_eq_rewrite] at same ⊢
  cases k with
  | ref =>
    simp only [leaves, List.forall_mem_singleton, Leaf.determined_ref] at slots
    exact slots n' same
  | span => exact Span.key_inj same
  | literal => exact Literal.bare_eq_of_key_eq same
  | entry => exact Entry.bare_eq_of_key_eq slots same
  | field => exact Field.bare_eq_of_key_eq slots same
  | fields => exact Fields.bare_eq_of_key_eq slots same
  | case => exact Case.bare_eq_of_key_eq slots same
  | definition => exact Definition.bare_eq_of_key_eq slots same
  | imported => exact Import.bare_eq_of_key_eq slots same
  | proof => exact Proof.bare_eq_of_key_eq slots same
  | truth => exact Truth.bare_eq_of_key_eq slots same
  | builder => exact Builder.bare_eq_of_key_eq slots same
  | precedence => exact Precedence.map_eq_of_key_eq slots same
  | operator => exact Operator.bare_eq_of_key_eq slots same
  | scope => exact Scope.bare_eq_of_key_eq slots same
  | component => exact Component.bare_eq_of_key_eq slots same
  | pattern => exact Pattern.bare_eq_of_key_eq slots same
  | item => exact Item.bare_eq_of_key_eq slots same
  | expr => exact Form.bare_eq_of_key_eq slots same

end Kind

namespace Expr

theorem bare_mk (form : Form (Expr R) R) : (mk form).bare = mk (form.map bare id).bare := by
  rw [bare, fold_mk]

/-- The key of an expression does not depend on positions. -/
theorem keyBy_bare (keyR : R → Key) (e : Expr R) : e.bare.keyBy keyR = e.keyBy keyR := by
  refine fold_fusion (keyBy keyR) (fun form => ?_) e
  rw [keyBy_mk, Form.key_bare, Kind.map_eq_rewrite]
  exact congrArg Form.key (form.map_map (keyBy keyR) id id keyR).symm

/-- A key determines an expression but for positions, if it determines the references. -/
theorem bare_eq_of_keyBy_eq {keyR : R → Key} (inj : ∀ r s, keyR r = keyR s → r = s)
    {e e' : Expr R} (same : e.keyBy keyR = e'.keyBy keyR) : e.bare = e'.bare := by
  induction e using induction generalizing e' with
  | step form ih =>
    cases e' with
    | mk form' =>
      rw [keyBy_mk, keyBy_mk] at same
      rw [bare_mk, bare_mk]
      refine congrArg mk (Form.bare_eq_of_key_eq (fun leaf member => ?_) same)
      cases leaf with
      | exp e => exact fun e' => ih e member
      | ref r => exact inj r

/-- Two expressions have the same key if and only if they are equal without positions, as long as
different references are given different keys. -/
theorem keyBy_eq_iff {keyR : R → Key} (inj : ∀ r s, keyR r = keyR s → r = s) {e e' : Expr R} :
    e.keyBy keyR = e'.keyBy keyR ↔ e.bare = e'.bare := by
  refine ⟨bare_eq_of_keyBy_eq inj, fun same => ?_⟩
  rw [← keyBy_bare keyR e, same, keyBy_bare]

variable [Reference R]

theorem key_bare (e : Expr R) : e.bare.key = e.key := keyBy_bare Reference.key e

theorem bare_eq_of_key_eq [LawfulReference R] {e e' : Expr R} (same : e.key = e'.key) :
    e.bare = e'.bare := bare_eq_of_keyBy_eq (fun _ _ => LawfulReference.key_inj) same

end Expr

namespace Node

theorem keyBy_bare (keyR : R → Key) (k : Kind) (n : Node R k) :
    keyBy keyR k (bare k n) = keyBy keyR k n := by
  rw [keyBy, bare, k.key_bare, Kind.map_map, keyBy]
  exact congrArg k.key (k.map_congr n fun leaf _ => by
    cases leaf with
    | exp e => exact congrArg Leaf.exp (e.keyBy_bare keyR)
    | ref r => rfl)

theorem bare_eq_of_keyBy_eq {keyR : R → Key} (inj : ∀ r s, keyR r = keyR s → r = s) (k : Kind)
    {a b : Node R k} (same : keyBy keyR k a = keyBy keyR k b) : bare k a = bare k b := by
  refine k.bare_eq_of_key_eq (fun leaf _ => ?_) same
  cases leaf with
  | exp e => exact fun e' => Expr.bare_eq_of_keyBy_eq inj
  | ref r => exact inj r

/-- Two nodes have the same key if and only if they are equal without positions, as long as
different references are given different keys. -/
theorem keyBy_eq_iff {keyR : R → Key} (inj : ∀ r s, keyR r = keyR s → r = s) (k : Kind)
    {a b : Node R k} : keyBy keyR k a = keyBy keyR k b ↔ bare k a = bare k b := by
  refine ⟨bare_eq_of_keyBy_eq inj k, fun same => ?_⟩
  rw [← keyBy_bare keyR k a, same, keyBy_bare]

variable [Reference R]

theorem key_bare (k : Kind) (n : Node R k) : key k (bare k n) = key k n :=
  keyBy_bare Reference.key k n

theorem bare_eq_of_key_eq [LawfulReference R] (k : Kind) {a b : Node R k}
    (same : key k a = key k b) : bare k a = bare k b :=
  bare_eq_of_keyBy_eq (fun _ _ => LawfulReference.key_inj) k same

/-- Nodes are equal exactly when they are the same but for positions, at every depth. -/
theorem same_iff_bare_eq (p : Phase) :
    (∀ (k : Kind) (a b : Node p.Ref k), same k a b ↔ bare k a = bare k b) ∧
      ∀ a b : Expr p.Ref, Expr.compare a b = .eq ↔ a.bare = b.bare := by
  refine ⟨fun k a b => ?_, fun a b => ?_⟩
  · rw [same_iff_key_eq]
    refine ⟨bare_eq_of_key_eq k, fun same => ?_⟩
    rw [← key_bare k a, same, key_bare]
  · rw [Expr.compare_eq_key, Key.compare_eq_iff]
    refine ⟨Expr.bare_eq_of_key_eq, fun same => ?_⟩
    rw [← a.key_bare, same, Expr.key_bare]

end Node

end SurfaceTree
