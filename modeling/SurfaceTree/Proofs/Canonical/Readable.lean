import SurfaceTree.Proofs.Canonical.Words
import SurfaceTree.Proofs.Keyword

namespace SurfaceTree

namespace Key

/-- A key each of whose lists has a length that one word can hold, as every list has that fits into
a memory of 64-bit addresses. -/
inductive Addressable : Key → Prop where
  | number (value : Int) : Addressable (.number value)
  | record {parts : List Key} (each : ∀ k ∈ parts, Addressable k) : Addressable (.record parts)
  | list {items : List Key} (short : items.length < UInt64.size)
      (each : ∀ k ∈ items, Addressable k) : Addressable (.list items)

/-- The parts of an addressable record are addressable. -/
theorem Addressable.of_record {parts : List Key} :
    (Key.record parts).Addressable → ∀ k ∈ parts, k.Addressable
  | .record each => each

/-- An addressable list is short and has addressable items. -/
theorem Addressable.of_list {items : List Key} :
    (Key.list items).Addressable → items.length < UInt64.size ∧ ∀ k ∈ items, k.Addressable
  | .list short each => ⟨short, each⟩

mutual
/-- Whether each list of a key has a length that one word can hold. -/
def addressable : Key → Bool
  | number _ => true
  | record parts => addressableAll parts
  | list items => items.length < UInt64.size && addressableAll items

/-- Whether each of some keys is addressable. -/
def addressableAll : List Key → Bool
  | [] => true
  | k :: rest => addressable k && addressableAll rest
end

theorem addressableAll_iff {ks : List Key} : addressableAll ks ↔ ∀ k ∈ ks, k.addressable := by
  induction ks with
  | nil => exact iff_of_true rfl nofun
  | cons k rest ih => rw [addressableAll, Bool.and_eq_true, ih, List.forall_mem_cons]

/-- Addressable keys can be told by evaluation. -/
theorem addressable_iff {k : Key} : k.addressable ↔ k.Addressable := by
  induction k using Key.induction with
  | number value => exact iff_of_true rfl (.number value)
  | record parts ih =>
    rw [addressable, addressableAll_iff]
    exact ⟨fun fits => .record fun k member => (ih k member).mp (fits k member),
      fun fits k member => (ih k member).mpr (fits.of_record k member)⟩
  | list items ih =>
    rw [addressable, Bool.and_eq_true, decide_eq_true_iff, addressableAll_iff]
    exact ⟨fun ⟨short, fits⟩ => .list short fun k member => (ih k member).mp (fits k member),
      fun fits => ⟨fits.of_list.1, fun k member => (ih k member).mpr (fits.of_list.2 k member)⟩⟩

instance : DecidablePred Addressable := fun _ => decidable_of_iff _ addressable_iff

/-- The words of two keys are told apart wherever they stand. -/
def Splits (a b : Key) : Prop :=
  a.Addressable → b.Addressable → ∀ s t, a.words ++ s = b.words ++ t → a = b ∧ s = t

namespace Splits

variable {a b : Key} {as bs : List Key}

theorem nil : (record []).Splits (record []) := by
  intro _ _ s t same
  simpa using same

/-- A record is read part by part. -/
theorem cons (first : a.Splits b) (rest : (record as).Splits (record bs)) :
    (record (a :: as)).Splits (record (b :: bs)) := by
  intro addressable addressable' s t same
  obtain ⟨fits, others⟩ := List.forall_mem_cons.mp addressable.of_record
  obtain ⟨fits', others'⟩ := List.forall_mem_cons.mp addressable'.of_record
  simp only [words_record, List.flatMap_cons, List.append_assoc] at same
  obtain ⟨rfl, later⟩ := first fits fits' _ _ same
  have parts := rest (.record others) (.record others') s t (by simpa using later)
  simpa using parts

/-- One word for each number tells the numbers apart. -/
theorem of_word {w v : UInt64} (written : a.words = [w]) (written' : b.words = [v])
    (inj : w = v → a = b) : a.Splits b := by
  intro _ _ s t same
  rw [written, written', List.singleton_append, List.singleton_append, List.cons.injEq] at same
  exact ⟨inj same.1, same.2⟩

/-- Numbers that a word can hold are told apart by that word. -/
theorem ofNat {m n : Nat} (small : m < UInt64.size) (small' : n < UInt64.size) :
    (Key.ofNat m).Splits (.ofNat n) := by
  refine of_word (words_ofNat m) (words_ofNat n) fun same => congrArg Key.ofNat ?_
  have value := congrArg UInt64.toNat same
  rwa [UInt64.toNat_ofNat_of_lt' small, UInt64.toNat_ofNat_of_lt' small'] at value

/-- Variants with different tags differ in their first word. -/
theorem of_tag_ne {m n : Nat} (different : UInt64.ofNat m ≠ UInt64.ofNat n := by decide) :
    (record (.ofNat m :: as)).Splits (record (.ofNat n :: bs)) := by
  intro _ _ s t same
  simp only [words_record, List.flatMap_cons, words_ofNat, List.cons_append, List.cons.injEq] at same
  exact absurd same.1 different

/-- Lists of one length are read item by item, and then what follows them is the same. -/
theorem items {s t : List UInt64} (length : as.length = bs.length)
    (each : ∀ a ∈ as, ∀ b ∈ bs, a.Splits b) (fits : ∀ a ∈ as, a.Addressable)
    (fits' : ∀ b ∈ bs, b.Addressable) (same : as.flatMap words ++ s = bs.flatMap words ++ t) :
    as = bs ∧ s = t := by
  induction as generalizing bs with
  | nil =>
    cases List.length_eq_zero_iff.mp length.symm
    exact ⟨rfl, same⟩
  | cons a rest ih =>
    cases bs with
    | nil => cases length
    | cons b rest' =>
      obtain ⟨fitsHere, fitsLater⟩ := List.forall_mem_cons.mp fits
      obtain ⟨fitsHere', fitsLater'⟩ := List.forall_mem_cons.mp fits'
      simp only [List.flatMap_cons, List.append_assoc] at same
      obtain ⟨rfl, later⟩ := each a (List.mem_cons_self ..) b (List.mem_cons_self ..)
        fitsHere fitsHere' _ _ same
      obtain ⟨rfl, ends⟩ := ih (Nat.succ.inj length)
        (fun x member y member' =>
          each x (List.mem_cons_of_mem _ member) y (List.mem_cons_of_mem _ member'))
        fitsLater fitsLater' later
      exact ⟨rfl, ends⟩

/-- A list says how many items it has, so it ends where its last item does. -/
theorem list (each : ∀ a ∈ as, ∀ b ∈ bs, a.Splits b) : (Key.list as).Splits (.list bs) := by
  intro addressable addressable' s t same
  obtain ⟨short, fits⟩ := addressable.of_list
  obtain ⟨short', fits'⟩ := addressable'.of_list
  simp only [words_list, wordsOfList, List.cons_append, List.cons.injEq] at same
  have length := congrArg UInt64.toNat same.1
  rw [UInt64.toNat_ofNat_of_lt' short, UInt64.toNat_ofNat_of_lt' short'] at length
  obtain ⟨rfl, rest⟩ := items length each fits fits' same.2
  exact ⟨rfl, rest⟩

theorem list_map {α : Type} {key : α → Key} {xs : List α}
    (each : ∀ x ∈ xs, ∀ y, (key x).Splits (key y)) (ys : List α) :
    (Key.list (xs.map key)).Splits (.list (ys.map key)) := by
  refine list ?_
  simp only [List.forall_mem_map]
  exact fun x member y _ => each x member y

/-- A variant that is written with its tag is told apart by what follows the tag. -/
theorem tagged {tag : Nat} (rest : (record as).Splits (record bs))
    (small : tag < UInt64.size := by decide) :
    (record (.ofNat tag :: as)).Splits (record (.ofNat tag :: bs)) :=
  cons (ofNat small small) rest

/-- Nothing and something begin with different words. -/
theorem ofOption {α : Type} {key : α → Key} {x : Option α}
    (each : ∀ a, x = some a → ∀ b, (key a).Splits (key b)) (y : Option α) :
    (Key.ofOption (x.map key)).Splits (.ofOption (y.map key)) := by
  cases x with
  | none =>
    cases y with
    | none => exact tagged nil
    | some b => exact of_tag_ne
  | some a =>
    cases y with
    | none => exact of_tag_ne
    | some b => exact tagged (cons (each a rfl b) nil)

end Splits

end Key

open Key

theorem Keyword.splits_key {α : Type} [Keyword α] [LawfulKeyword α] [DecidableEq α] (a b : α) :
    (Keyword.key a).Splits (Keyword.key b) :=
  .ofNat (index_lt a) (index_lt b)

theorem splits_word32 (m n : UInt32) : (Key.ofNat m.toNat).Splits (.ofNat n.toNat) :=
  .ofNat (Nat.lt_trans m.toNat_lt (by decide)) (Nat.lt_trans n.toNat_lt (by decide))

theorem splits_ofBool (a b : Bool) : (Key.ofBool a).Splits (.ofBool b) :=
  .of_word (words_ofBool a) (words_ofBool b) (by cases a <;> cases b <;> simp)

theorem Name.splits_key (a b : Name) : a.key.Splits b.key := splits_word32 a.raw b.raw

theorem ScopeId.splits_key (a b : ScopeId) : a.key.Splits b.key := splits_word32 a.number b.number

theorem Symbol.splits_key (a b : Symbol) : a.key.Splits b.key :=
  .cons (a.scope.splits_key b.scope) (.cons (a.name.splits_key b.name) .nil)

theorem Span.splits_key (a b : Span) : a.key.Splits b.key :=
  .cons (splits_word32 a.start b.start) (.cons (splits_word32 a.stop b.stop) .nil)

theorem Fixity.splits_key (a b : Fixity) : a.key.Splits b.key := by
  cases a with
  | leading =>
    cases b with
    | leading => exact .tagged .nil
    | _ => exact .of_tag_ne
  | between side =>
    cases b with
    | between side' => exact .tagged (.cons (Keyword.splits_key side side') .nil)
    | _ => exact .of_tag_ne
  | trailing =>
    cases b with
    | trailing => exact .tagged .nil
    | _ => exact .of_tag_ne

/-- Values of literals are told apart by the rank of their variant and then by their words. -/
theorem LiteralValue.splits_key (a b : LiteralValue) : a.key.Splits b.key := by
  cases a with
  | int value =>
    cases b with
    | int value' =>
      have apart : (Key.number value.toInt).Splits (.number value'.toInt) :=
        .of_word (words_toInt value) (words_toInt value')
          (congrArg fun word => Key.number (Int64.ofUInt64 word).toInt)
      exact .tagged (.cons apart .nil)
    | _ => exact .of_tag_ne
  | float bits =>
    cases b with
    | float bits' => exact .tagged (.cons (.ofNat bits.toNat_lt bits'.toNat_lt) .nil)
    | _ => exact .of_tag_ne
  | str name =>
    cases b with
    | str name' => exact .tagged (.cons (name.splits_key name') .nil)
    | _ => exact .of_tag_ne
  | char value =>
    cases b with
    | char value' => exact .tagged (.cons (splits_word32 value.val value'.val) .nil)
    | _ => exact .of_tag_ne

theorem Literal.splits_key (a b : Literal) : a.key.Splits b.key := a.value.splits_key b.value

variable {E R : Type} {keyE : E → Key} {keyR : R → Key}

/-- The key of a leaf is told apart from those of all other leaves of its sort. -/
def Leaf.Splits (keyE : E → Key) (keyR : R → Key) : Leaf E R → Prop
  | .exp e => ∀ e', (keyE e).Splits (keyE e')
  | .ref r => ∀ r', (keyR r).Splits (keyR r')

/-- An expression at a leaf is told apart if its key is told apart from every other. -/
@[simp] theorem Leaf.splits_exp {e : E} :
    (Leaf.exp e).Splits keyE keyR ↔ ∀ e', (keyE e).Splits (keyE e') := Iff.rfl

@[simp] theorem Leaf.splits_ref {r : R} :
    (Leaf.ref r).Splits keyE keyR ↔ ∀ r', (keyR r).Splits (keyR r') := Iff.rfl

/-- Optional slots are told apart if what may fill them is. -/
theorem Key.Splits.option {e : Option E}
    (slots : ∀ leaf ∈ leavesOfOption e, leaf.Splits keyE keyR) (e' : Option E) :
    (Key.ofOption (e.map keyE)).Splits (.ofOption (e'.map keyE)) := by
  refine ofOption (fun a bound => ?_) e'
  subst bound
  exact slots (.exp a) (List.mem_singleton_self _)

/-- Mappings are told apart if their values are. -/
theorem NameMap.splits_key {V : Type} {value : V → Key} {m : NameMap V}
    (each : ∀ entry ∈ m.toList, ∀ v, (value entry.2).Splits (value v)) (m' : NameMap V) :
    (m.key value).Splits (m'.key value) :=
  Key.Splits.list_map (fun entry member entry' =>
    .cons (entry.1.splits_key entry'.1) (.cons (each entry member entry'.2) .nil)) m'.toList

namespace Pattern

/-- Patterns are told apart if what fills their slots is. -/
theorem splits_key (n : Pattern E R) (slots : ∀ leaf ∈ n.leaves, leaf.Splits keyE keyR)
    (n' : Pattern E R) : (n.map keyE keyR).key.Splits (n'.map keyE keyR).key := by
  induction n using Pattern.induction generalizing n' with
  | alternatives pos choices ih =>
    cases n' with
    | alternatives pos' choices' =>
      simp only [leaves, leavesOfList_eq, List.forall_mem_flatMap] at slots
      have each := Key.Splits.list_map (fun p member => ih p member (slots p member)) choices'
      simp only [map, mapAll_eq, key, keys_eq, List.map_map, Function.comp_def]
      exact .tagged (.cons each .nil)
    | _ => exact .of_tag_ne
  | construct pos head argument ih =>
    cases n' with
    | construct pos' head' argument' =>
      simp only [leaves, List.forall_mem_cons, Leaf.splits_ref] at slots
      exact .tagged (.cons (slots.1 head') (.cons (ih slots.2 argument') .nil))
    | _ => exact .of_tag_ne
  | split pos fields strict ih =>
    cases n' with
    | split pos' fields' strict' =>
      simp only [leaves_split, List.forall_mem_flatMap] at slots
      have each : (fields.key fun p => (p.map keyE keyR).key).Splits
          (fields'.key fun p => (p.map keyE keyR).key) :=
        NameMap.splits_key (fun entry member => ih entry member (slots entry member)) fields'
      simp only [map_split, key_split, NameMap.key_map]
      exact .tagged (.cons each (.cons (splits_ofBool strict strict') .nil))
    | _ => exact .of_tag_ne
  | typed pos pattern type ih =>
    cases n' with
    | typed pos' pattern' type' =>
      simp only [leaves, List.forall_mem_append, List.forall_mem_singleton,
        Leaf.splits_exp] at slots
      exact .tagged (.cons (ih slots.1 pattern') (.cons (slots.2 type') .nil))
    | _ => exact .of_tag_ne
  | named pos name pattern ih =>
    cases n' with
    | named pos' name' pattern' =>
      exact .tagged (.cons (name.splits_key name') (.cons (ih slots pattern') .nil))
    | _ => exact .of_tag_ne
  | bind pos name =>
    cases n' with
    | bind pos' name' => exact .tagged (.cons (name.splits_key name') .nil)
    | _ => exact .of_tag_ne
  | literal l =>
    cases n' with
    | literal l' => exact .tagged (.cons (l.splits_key l') .nil)
    | _ => exact .of_tag_ne

end Pattern

namespace Entry

theorem splits_key (n : Entry E R) (slots : ∀ leaf ∈ n.leaves, leaf.Splits keyE keyR)
    (n' : Entry E R) : (n.map keyE keyR).key.Splits (n'.map keyE keyR).key :=
  .cons (splits_ofBool n.implicit n'.implicit)
    (.cons (n.pattern.splits_key slots n'.pattern) .nil)

end Entry

namespace Field

theorem splits_key (n : Field E R) (slots : ∀ leaf ∈ n.leaves, leaf.Splits keyE keyR)
    (n' : Field E R) : (n.map keyE keyR).key.Splits (n'.map keyE keyR).key := by
  simp only [leaves, List.forall_mem_append] at slots
  exact .cons (n.entry.splits_key slots.1 n'.entry) (.cons (.option slots.2 n'.default) .nil)

end Field

namespace Fields

/-- Field lists are told apart by their fields and then by their declared orders. -/
theorem splits_key (n : Fields E R) (slots : ∀ leaf ∈ n.leaves, leaf.Splits keyE keyR)
    (n' : Fields E R) : (n.map keyE keyR).key.Splits (n'.map keyE keyR).key := by
  simp only [leaves, List.forall_mem_flatMap] at slots
  have bindings : (n.bindings.key fun field => (field.map keyE keyR).key).Splits
      (n'.bindings.key fun field => (field.map keyE keyR).key) :=
    NameMap.splits_key (fun entry member =>
      entry.2.splits_key (slots entry (NameMap.mem_ofList member))) n'.bindings
  have order := Key.Splits.list_map (fun name (_ : name ∈ n.order) => name.splits_key) n'.order
  simp only [key, bindings_map, NameMap.key_map, order_map]
  exact .cons bindings (.cons order .nil)

end Fields

namespace Case

theorem splits_key (n : Case E R) (slots : ∀ leaf ∈ n.leaves, leaf.Splits keyE keyR)
    (n' : Case E R) : (n.map keyE keyR).key.Splits (n'.map keyE keyR).key := by
  simp only [leaves, List.forall_mem_append, List.forall_mem_singleton, Leaf.splits_exp] at slots
  exact .cons (n.pattern.splits_key slots.1 n'.pattern) (.cons (slots.2 n'.body) .nil)

end Case

namespace Definition

theorem splits_key (n : Definition E R) (slots : ∀ leaf ∈ n.leaves, leaf.Splits keyE keyR)
    (n' : Definition E R) : (n.map keyE keyR).key.Splits (n'.map keyE keyR).key := by
  simp only [leaves, List.forall_mem_append] at slots
  exact .cons (n.pattern.splits_key slots.1 n'.pattern) (.cons (.option slots.2 n'.init) .nil)

end Definition

namespace Import

theorem splits_key (n : Import E) (slots : ∀ leaf ∈ n.leaves, leaf.Splits keyE keyR)
    (n' : Import E) : (n.map keyE).key.Splits (n'.map keyE).key := by
  simp only [leaves, List.forall_mem_singleton, Leaf.splits_exp] at slots
  exact .cons (Keyword.splits_key n.visibility n'.visibility) (.cons (slots n'.target) .nil)

end Import

namespace Proof

theorem splits_key (n : Proof E R) (slots : ∀ leaf ∈ n.leaves, leaf.Splits keyE keyR)
    (n' : Proof E R) : (n.map keyE keyR).key.Splits (n'.map keyE keyR).key := by
  simp only [leaves, List.forall_mem_cons, Leaf.splits_ref, Leaf.splits_exp] at slots
  exact .cons (slots.1 n'.fact) (.cons (slots.2.1 n'.body) .nil)

end Proof

namespace Truth

theorem splits_key (n : Truth E) (slots : ∀ leaf ∈ n.leaves, leaf.Splits keyE keyR)
    (n' : Truth E) : (n.map keyE).key.Splits (n'.map keyE).key := by
  simp only [leaves, List.forall_mem_cons, Leaf.splits_exp] at slots
  exact .cons (Keyword.splits_key n.kind n'.kind) <|
    .cons (Keyword.splits_key n.visibility n'.visibility) <|
    .cons (slots.1 n'.prop) (.cons (.option slots.2 n'.proof) .nil)

end Truth

namespace Builder

theorem splits_key (n : Builder E R) (slots : ∀ leaf ∈ n.leaves, leaf.Splits keyE keyR)
    (n' : Builder E R) : (n.map keyE keyR).key.Splits (n'.map keyE keyR).key := by
  simp only [leaves, List.forall_mem_append, List.forall_mem_map, List.forall_mem_singleton,
    Leaf.splits_exp] at slots
  obtain ⟨⟨params, supers⟩, body⟩ := slots
  exact .cons (Keyword.splits_key n.kind n'.kind) <|
    .cons (Keyword.splits_key n.visibility n'.visibility) <|
    .cons (n.params.splits_key params n'.params) <|
    .cons (.list_map supers n'.supers) (.cons (body n'.body) .nil)

end Builder

namespace Precedence

theorem splits_key (n : Precedence E) (slots : ∀ leaf ∈ n.leaves, leaf.Splits keyE keyR)
    (n' : Precedence E) : (n.map keyE).key.Splits (n'.map keyE).key := by
  simp only [leaves, List.forall_mem_singleton, Leaf.splits_exp] at slots
  exact .cons (Keyword.splits_key n.relation n'.relation) (.cons (slots n'.operator) .nil)

end Precedence

namespace Operator

theorem splits_key (n : Operator E) (slots : ∀ leaf ∈ n.leaves, leaf.Splits keyE keyR)
    (n' : Operator E) : (n.map keyE).key.Splits (n'.map keyE).key := by
  simp only [leaves, List.forall_mem_flatMap] at slots
  have precedence := Key.Splits.list_map (fun p member =>
    Precedence.splits_key p (slots p member)) n'.precedence
  simp only [map, key, List.map_map, Function.comp_def]
  exact .cons (n.fixity.splits_key n'.fixity) (.cons precedence .nil)

end Operator

namespace Item

theorem splits_key (n : Item E R) (slots : ∀ leaf ∈ n.leaves, leaf.Splits keyE keyR)
    (n' : Item E R) : (n.map keyE keyR).key.Splits (n'.map keyE keyR).key := by
  cases n with
  | statement e =>
    cases n' with
    | statement e' =>
      simp only [leaves, List.forall_mem_singleton, Leaf.splits_exp] at slots
      exact .tagged (.cons (slots e') .nil)
    | declaration d' => exact .of_tag_ne
  | declaration d =>
    cases n' with
    | statement e' => exact .of_tag_ne
    | declaration d' => exact .tagged (.cons (d.splits_key slots d') .nil)

end Item

namespace VisibilityTable

/-- Tables are told apart if their values are. -/
theorem splits_key {α : Type} {value : α → Key} {t : VisibilityTable α}
    (each : ∀ a ∈ t.values, ∀ b, (value a).Splits (value b)) (t' : VisibilityTable α) :
    (t.key value).Splits (t'.key value) :=
  Key.Splits.list_map each t'.values

end VisibilityTable

namespace Scope

/-- Scopes are told apart, namespace by namespace. -/
theorem splits_key (n : Scope E R) (slots : ∀ leaf ∈ n.leaves, leaf.Splits keyE keyR)
    (n' : Scope E R) : (n.map keyE keyR).key.Splits (n'.map keyE keyR).key := by
  simp only [leaves, List.forall_mem_append, List.forall_mem_flatMap] at slots
  obtain ⟨⟨⟨⟨⟨builders, operators⟩, truths⟩, definitions⟩, proofs⟩, imports⟩ := slots
  have builderKeys : (n.builders.key fun b => (b.map keyE keyR).key).Splits
      (n'.builders.key fun b => (b.map keyE keyR).key) :=
    NameMap.splits_key (fun entry member => entry.2.splits_key (builders entry member)) _
  have operatorKeys : (n.operators.key fun o => (o.map keyE).key).Splits
      (n'.operators.key fun o => (o.map keyE).key) :=
    NameMap.splits_key (fun entry member => entry.2.splits_key (operators entry member)) _
  have truthKeys : (n.truths.key fun t => (t.map keyE).key).Splits
      (n'.truths.key fun t => (t.map keyE).key) :=
    NameMap.splits_key (fun entry member => entry.2.splits_key (truths entry member)) _
  have definitionKeys :
      (n.definitions.key fun ds => .list (ds.map fun d => (d.map keyE keyR).key)).Splits
        (n'.definitions.key fun ds => .list (ds.map fun d => (d.map keyE keyR).key)) :=
    VisibilityTable.splits_key (fun ds bucket => .list_map fun d member =>
      d.splits_key (definitions ds bucket d member)) _
  have proofKeys := Key.Splits.list_map (fun p member =>
    Proof.splits_key p (proofs p member)) n'.proofs
  have importKeys := Key.Splits.list_map (fun i member =>
    Import.splits_key i (imports i member)) n'.imports
  simp only [map, key, NameMap.key_map, VisibilityTable.key_map, List.map_map, Function.comp_def]
  exact .cons (n.id.splits_key n'.id) <| .cons builderKeys <| .cons operatorKeys <|
    .cons truthKeys <| .cons definitionKeys <| .cons proofKeys (.cons importKeys .nil)

end Scope

namespace Component

theorem splits_key (n : Component E R) (slots : ∀ leaf ∈ n.leaves, leaf.Splits keyE keyR)
    (n' : Component E R) : (n.map keyE keyR).key.Splits (n'.map keyE keyR).key :=
  .cons (.ofOption (fun name _ => name.splits_key) n'.expected)
    (.cons (n.scope.splits_key slots n'.scope) .nil)

end Component

namespace Form

/-- Layers of expressions are told apart if what fills their slots is. -/
theorem splits_key (n : Form E R) (slots : ∀ leaf ∈ n.leaves, leaf.Splits keyE keyR)
    (n' : Form E R) : (n.map keyE keyR).key.Splits (n'.map keyE keyR).key := by
  cases n with
  | block pos items =>
    cases n' with
    | block pos' items' =>
      simp only [leaves, List.forall_mem_flatMap] at slots
      have each := Key.Splits.list_map (fun i member =>
        Item.splits_key i (slots i member)) items'
      simp only [map, key, List.map_map, Function.comp_def]
      exact .tagged (.cons each .nil)
    | _ => exact .of_tag_ne
  | abstraction pos binder cases =>
    cases n' with
    | abstraction pos' binder' cases' =>
      simp only [leaves, List.forall_mem_flatMap] at slots
      have each := Key.Splits.list_map (fun c member =>
        Case.splits_key c (slots c member)) cases'
      simp only [map, key, List.map_map, Function.comp_def]
      exact .tagged (.cons (Keyword.splits_key binder binder') (.cons each .nil))
    | _ => exact .of_tag_ne
  | matching pos scrutinee cases =>
    cases n' with
    | matching pos' scrutinee' cases' =>
      simp only [leaves, List.forall_mem_cons, List.forall_mem_flatMap, Leaf.splits_exp] at slots
      have each := Key.Splits.list_map (fun c member =>
        Case.splits_key c (slots.2 c member)) cases'
      simp only [map, key, List.map_map, Function.comp_def]
      exact .tagged (.cons (slots.1 scrutinee') (.cons each .nil))
    | _ => exact .of_tag_ne
  | ascription pos value type =>
    cases n' with
    | ascription pos' value' type' =>
      simp only [leaves, List.forall_mem_cons, Leaf.splits_exp] at slots
      exact .tagged (.cons (slots.1 value') (.cons (slots.2.1 type') .nil))
    | _ => exact .of_tag_ne
  | chain pos items =>
    cases n' with
    | chain pos' items' =>
      simp only [leaves, List.forall_mem_map, Leaf.splits_exp] at slots
      exact .tagged (.cons (.list_map slots items') .nil)
    | _ => exact .of_tag_ne
  | record pos fields =>
    cases n' with
    | record pos' fields' =>
      simp only [leaves, List.forall_mem_map, Leaf.splits_exp] at slots
      simp only [map, key, NameMap.key_map]
      exact .tagged (.cons (NameMap.splits_key slots fields') .nil)
    | _ => exact .of_tag_ne
  | recordType pos fields =>
    cases n' with
    | recordType pos' fields' =>
      exact .tagged (.cons (fields.splits_key slots fields') .nil)
    | _ => exact .of_tag_ne
  | tuple pos items =>
    cases n' with
    | tuple pos' items' =>
      simp only [leaves, List.forall_mem_map, Leaf.splits_exp] at slots
      exact .tagged (.cons (.list_map slots items') .nil)
    | _ => exact .of_tag_ne
  | projection pos value path =>
    cases n' with
    | projection pos' value' path' =>
      simp only [leaves, List.forall_mem_singleton, Leaf.splits_exp] at slots
      have names := Key.Splits.list_map (fun name (_ : name ∈ path) => name.splits_key) path'
      exact .tagged (.cons (slots value') (.cons names .nil))
    | _ => exact .of_tag_ne
  | reference pos target =>
    cases n' with
    | reference pos' target' =>
      simp only [leaves, List.forall_mem_singleton, Leaf.splits_ref] at slots
      exact .tagged (.cons (slots target') .nil)
    | _ => exact .of_tag_ne
  | application pos function argument =>
    cases n' with
    | application pos' function' argument' =>
      simp only [leaves, List.forall_mem_cons, Leaf.splits_exp] at slots
      exact .tagged (.cons (slots.1 function') (.cons (slots.2.1 argument') .nil))
    | _ => exact .of_tag_ne
  | refinement pos value proposition =>
    cases n' with
    | refinement pos' value' proposition' =>
      simp only [leaves, List.forall_mem_cons, Leaf.splits_exp] at slots
      exact .tagged (.cons (slots.1 value') (.cons (slots.2.1 proposition') .nil))
    | _ => exact .of_tag_ne
  | anonymous pos kind supers params body =>
    cases n' with
    | anonymous pos' kind' supers' params' body' =>
      simp only [leaves, List.forall_mem_append, List.forall_mem_map, Leaf.splits_exp] at slots
      obtain ⟨⟨supersSlots, paramsSlots⟩, bodySlots⟩ := slots
      exact .tagged <| .cons (Keyword.splits_key kind kind') <|
        .cons (.list_map supersSlots supers') <| .cons (params.splits_key paramsSlots params') <|
        .cons (body.splits_key bodySlots body') .nil
    | _ => exact .of_tag_ne
  | literal l =>
    cases n' with
    | literal l' => exact .tagged (.cons (l.splits_key l') .nil)
    | _ => exact .of_tag_ne

end Form

/-- Layers of any kind are told apart if what fills their slots is. -/
theorem Kind.splits_key (k : Kind) (n : k.Tree E R)
    (slots : ∀ leaf ∈ k.leaves n, leaf.Splits keyE keyR) (n' : k.Tree E R) :
    (k.key (k.map keyE keyR n)).Splits (k.key (k.map keyE keyR n')) := by
  rw [map_eq_rewrite, map_eq_rewrite]
  cases k with
  | ref =>
    simp only [leaves, List.forall_mem_singleton, Leaf.splits_ref] at slots
    exact slots n'
  | span => exact Span.splits_key n n'
  | literal => exact Literal.splits_key n n'
  | entry => exact Entry.splits_key n slots n'
  | field => exact Field.splits_key n slots n'
  | fields => exact Fields.splits_key n slots n'
  | case => exact Case.splits_key n slots n'
  | definition => exact Definition.splits_key n slots n'
  | imported => exact Import.splits_key n slots n'
  | proof => exact Proof.splits_key n slots n'
  | truth => exact Truth.splits_key n slots n'
  | builder => exact Builder.splits_key n slots n'
  | precedence => exact Precedence.splits_key n slots n'
  | operator => exact Operator.splits_key n slots n'
  | scope => exact Scope.splits_key n slots n'
  | component => exact Component.splits_key n slots n'
  | pattern => exact Pattern.splits_key n slots n'
  | item => exact Item.splits_key n slots n'
  | expr => exact Form.splits_key n slots n'

end SurfaceTree
