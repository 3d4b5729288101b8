import SurfaceTree.Canonical.Tree
import SurfaceTree.Proofs.Canonical.Key
import SurfaceTree.Proofs.Traversal.Laws

namespace SurfaceTree

/-- Lists of items that are compared as their keys are. -/
theorem compareLists_map {A A' B : Type} {f : A → A'} {item : A' → B → Ordering} {keyA : A → Key}
    {keyB : B → Key} (as : List A) (bs : List B)
    (agree : ∀ a ∈ as, ∀ b, item (f a) b = (keyA a).compare (keyB b)) :
    compareLists item (as.map f) bs = compareLists Key.compare (as.map keyA) (bs.map keyB) := by
  induction as generalizing bs with
  | nil => cases bs <;> rfl
  | cons a rest ih =>
    obtain ⟨first, others⟩ := List.forall_mem_cons.mp agree
    cases bs with
    | nil => rfl
    | cons b rest' => simp only [List.map_cons, compareLists, first, ih rest' others]

/-- Options compare as their keys do if their values do. -/
theorem compareOptions_map {A A' B : Type} {f : A → A'} {value : A' → B → Ordering}
    {keyA : A → Key} {keyB : B → Key}
    (agree : ∀ a b, value (f a) b = (keyA a).compare (keyB b)) (a : Option A) (b : Option B) :
    compareOptions value (a.map f) b
      = (Key.ofOption (a.map keyA)).compare (Key.ofOption (b.map keyB)) := by
  cases a with
  | none => cases b <;> rfl
  | some a =>
    cases b with
    | none => rfl
    | some b => simp [compareOptions, Key.ofOption, agree]

/-- Keywords compare by the rank that is their key. -/
theorem Keyword.compare_eq_key {α : Type} [Keyword α] [DecidableEq α] (a b : α) :
    compare a b = (Keyword.key a).compare (Keyword.key b) :=
  (Key.compare_ofNat _ _).symm

theorem Name.compare_eq_key (a b : Name) : compare a b = a.key.compare b.key :=
  (Key.compare_word _ _).symm

/-- Lists of names compare as the lists of their keys do. -/
theorem compareNames_eq_key (names names' : List Name) :
    compareLists Name.compare names names'
      = compareLists Key.compare (names.map Name.key) (names'.map Name.key) := by
  have mapped := compareLists_map (f := id) names names' fun name _ name' =>
    Name.compare_eq_key name name'
  rwa [List.map_id] at mapped

theorem ScopeId.compare_eq_key (a b : ScopeId) : compare a b = a.key.compare b.key :=
  (Key.compare_word _ _).symm

theorem Symbol.compare_eq_key (a b : Symbol) : compare a b = a.key.compare b.key := by
  simp [compare, key, ScopeId.compare_eq_key, Name.compare_eq_key]

theorem Span.compare_eq_key (a b : Span) : compare a b = a.key.compare b.key := by
  simp [compare, key, Key.compare_word]

theorem Fixity.compare_eq_key (a b : Fixity) : compare a b = a.key.compare b.key := by
  cases a <;> cases b <;>
    simp [compare, key, tag, Key.compare_ofNat, Keyword.compare_eq_key] <;> rfl

/-- Values of literals compare as their keys do, and of different variants by the ranks of these. -/
theorem LiteralValue.compare_eq_key (a b : LiteralValue) : compare a b = a.key.compare b.key := by
  cases a with
  | int value =>
    cases b with
    | int value' =>
      have number : Ord.compare value value'
          = (Key.number value.toInt).compare (.number value'.toInt) :=
        compareOfLessAndEq_number Int64.toInt Int64.lt_iff_toInt_lt Int64.toInt_inj.symm
      simp [compare, key, number]
    | _ => rfl
  | float bits =>
    cases b with
    | float bits' =>
      have number : Ord.compare bits bits'
          = (Key.ofNat bits.toNat).compare (.ofNat bits'.toNat) :=
        compareOfLessAndEq_number (fun n : UInt64 => (n.toNat : Int))
          (by rw [UInt64.lt_iff_toNat_lt]; omega) (by rw [← UInt64.toNat_inj]; omega)
      simp [compare, key, number]
    | _ => rfl
  | str name =>
    cases b with
    | str name' => simp [compare, key, Name.compare_eq_key]
    | _ => rfl
  | char value =>
    cases b with
    | char value' =>
      have number : Ord.compare value value'
          = (Key.ofNat value.toNat).compare (.ofNat value'.toNat) :=
        compareOfLessAndEq_number (fun c : Char => (c.toNat : Int))
          (by rw [Char.lt_def, UInt32.lt_iff_toNat_lt]; exact Int.ofNat_lt.symm)
          (by rw [← Char.toNat_inj]; omega)
      simp [compare, key, number]
    | _ => rfl

theorem Literal.compare_eq_key (a b : Literal) : compare a b = a.key.compare b.key :=
  a.value.compare_eq_key b.value

theorem NameMap.key_map {V W : Type} (value : W → Key) (f : V → W) (m : NameMap V) :
    (m.map f).key value = m.key fun v => value (f v) := by
  simp only [key, toList_map, List.map_map, Function.comp_def]

/-- Mappings compare as their keys do if their values do. -/
theorem NameMap.compare_map {V V' W : Type} {f : V → V'} {value : V' → W → Ordering}
    {keyV : V → Key} {keyW : W → Key}
    {a : NameMap V} (agree : ∀ entry ∈ a.toList, ∀ w,
      value (f entry.2) w = (keyV entry.2).compare (keyW w)) (b : NameMap W) :
    (a.map f).compare value b = (a.key keyV).compare (b.key keyW) := by
  rw [compare, toList_map, key, key, Key.compare_list]
  exact compareLists_map _ _ fun entry member entry' => by
    simp [compareBindings, Name.compare_eq_key, agree entry member]

theorem VisibilityTable.key_map {α β : Type} (value : β → Key) (f : α → β) (t : VisibilityTable α) :
    (t.map f).key value = t.key fun a => value (f a) := rfl

/-- Tables compare as their keys do if their values do. -/
theorem VisibilityTable.compare_map {α α' β : Type} {f : α → α'} {value : α' → β → Ordering}
    {keyA : α → Key} {keyB : β → Key}
    (agree : ∀ a b, value (f a) b = (keyA a).compare (keyB b)) (a : VisibilityTable α)
    (b : VisibilityTable β) :
    (a.map f).compare value b = (a.key keyA).compare (b.key keyB) := by
  rw [compare, values_map, key, key, Key.compare_list]
  exact compareLists_map _ _ fun x _ y => agree x y

variable {A A' B R : Type} {f : A → A'} {g : R → R} {exp : A' → B → Ordering} {ref : R → R → Ordering}
  {keyA : A → Key} {keyB : B → Key} {keyR : R → Key}
  (agree : ∀ a b, exp (f a) b = (keyA a).compare (keyB b))
  (agreeRef : ∀ r s, ref (g r) s = (keyR r).compare (keyR s))

namespace Pattern

@[simp] theorem compareAll_eq (choices : List (Pattern A' R)) (choices' : List (Pattern B R)) :
    compareAll exp ref choices choices' = compareLists (compare exp ref) choices choices' := by
  induction choices generalizing choices' with
  | nil => cases choices' <;> rfl
  | cons p rest ih =>
    cases choices' with
    | nil => rfl
    | cons p' rest' => simp only [compareAll, compareLists, ih]

@[simp] theorem compareRows_eq {names names' : List Name} (row : Row (Pattern A' R) names)
    (row' : Row (Pattern B R) names') :
    compareRows exp ref row row'
      = compareLists (compareBindings (compare exp ref)) row.toList row'.toList := by
  induction row generalizing names' row' with
  | nil => cases row' <;> rfl
  | cons name p rest ih =>
    cases row' with
    | nil => rfl
    | cons name' p' rest' =>
      simp only [compareRows, Row.toList, compareLists, compareBindings, ih]

@[simp] theorem keys_eq (choices : List (Pattern Key Key)) : keys choices = choices.map key := by
  induction choices with
  | nil => rfl
  | cons p rest ih => simp only [keys, ih, List.map_cons]

@[simp] theorem keysOfRow_eq {names : List Name} (row : Row (Pattern Key Key) names) :
    keysOfRow row = row.toList.map fun entry => .record [entry.1.key, entry.2.key] := by
  induction row with
  | nil => rfl
  | cons name p rest ih => simp only [keysOfRow, ih, Row.toList, List.map_cons]

/-- Splits compare by their fields and then by whether they are strict. -/
theorem compare_split (pos pos' : Span) (fields : NameMap (Pattern A' R))
    (fields' : NameMap (Pattern B R)) (strict strict' : Bool) :
    (split pos fields strict).compare exp ref (split pos' fields' strict')
      = (fields.compare (compare exp ref) fields').then (Ord.compare strict strict') := by
  rw [compare, compareRows_eq, NameMap.compare, NameMap.toList, NameMap.toList]

theorem key_split (pos : Span) (fields : NameMap (Pattern Key Key)) (strict : Bool) :
    (split pos fields strict).key = .record [.ofNat 2, fields.key key, .ofBool strict] := by
  rw [key, keysOfRow_eq, NameMap.key, NameMap.toList]

include agree agreeRef in
/-- Patterns compare as their keys do if what fills their slots does. -/
theorem compare_map (a : Pattern A R) (b : Pattern B R) :
    (a.map f g).compare exp ref b = (a.map keyA keyR).key.compare (b.map keyB keyR).key := by
  induction a using Pattern.induction generalizing b with
  | alternatives pos choices ih =>
    cases b with
    | alternatives pos' choices' =>
      simp [map, compare, key, compareLists_map choices choices' ih, Function.comp_def]
    | _ => rfl
  | construct pos head argument ih =>
    cases b with
    | construct pos' head' argument' => simp [map, compare, key, agreeRef, ih]
    | _ => rfl
  | split pos fields strict ih =>
    cases b with
    | split pos' fields' strict' =>
      have entries : (fields.map (map f g)).compare (compare exp ref) fields'
          = (fields.key fun p => (p.map keyA keyR).key).compare
            (fields'.key fun p => (p.map keyB keyR).key) :=
        NameMap.compare_map ih fields'
      simp [map_split, compare_split, key_split, NameMap.key_map, entries]
    | _ => rfl
  | typed pos pattern type ih =>
    cases b with
    | typed pos' pattern' type' => simp [map, compare, key, agree, ih]
    | _ => rfl
  | named pos name pattern ih =>
    cases b with
    | named pos' name' pattern' => simp [map, compare, key, Name.compare_eq_key, ih]
    | _ => rfl
  | bind pos name =>
    cases b with
    | bind pos' name' => simp [map, compare, key, Name.compare_eq_key]
    | _ => rfl
  | literal l =>
    cases b with
    | literal l' => simp [map, compare, key, Literal.compare_eq_key]
    | _ => rfl

end Pattern

include agree agreeRef

theorem Entry.compare_map (a : Entry A R) (b : Entry B R) :
    (a.map f g).compare exp ref b = (a.map keyA keyR).key.compare (b.map keyB keyR).key := by
  simp [map, compare, key, Pattern.compare_map agree agreeRef]

theorem Field.compare_map (a : Field A R) (b : Field B R) :
    (a.map f g).compare exp ref b = (a.map keyA keyR).key.compare (b.map keyB keyR).key := by
  simp [map, compare, key, Entry.compare_map agree agreeRef, compareOptions_map agree]

/-- Field lists compare as their keys do: the fields by ascending name, and then the declared
orders. -/
theorem Fields.compare_map (a : Fields A R) (b : Fields B R) :
    (a.map f g).compare exp ref b = (a.map keyA keyR).key.compare (b.map keyB keyR).key := by
  have bindings : (a.bindings.map (Field.map f g)).compare (Field.compare exp ref) b.bindings
      = (a.bindings.key fun n => (n.map keyA keyR).key).compare
        (b.bindings.key fun n => (n.map keyB keyR).key) :=
    NameMap.compare_map (fun entry _ w => entry.2.compare_map agree agreeRef w) b.bindings
  simp [compare, key, bindings_map, NameMap.key_map, bindings, compareNames_eq_key]

theorem Case.compare_map (a : Case A R) (b : Case B R) :
    (a.map f g).compare exp ref b = (a.map keyA keyR).key.compare (b.map keyB keyR).key := by
  simp [map, compare, key, Pattern.compare_map agree agreeRef, agree]

theorem Definition.compare_map (a : Definition A R) (b : Definition B R) :
    (a.map f g).compare exp ref b = (a.map keyA keyR).key.compare (b.map keyB keyR).key := by
  simp [map, compare, key, Pattern.compare_map agree agreeRef, compareOptions_map agree]

omit agreeRef in
theorem Import.compare_map (a : Import A) (b : Import B) :
    (a.map f).compare exp b = (a.map keyA).key.compare (b.map keyB).key := by
  simp [map, compare, key, Keyword.compare_eq_key, agree]

theorem Proof.compare_map (a : Proof A R) (b : Proof B R) :
    (a.map f g).compare exp ref b = (a.map keyA keyR).key.compare (b.map keyB keyR).key := by
  simp [map, compare, key, agree, agreeRef]

omit agreeRef in
theorem Truth.compare_map (a : Truth A) (b : Truth B) :
    (a.map f).compare exp b = (a.map keyA).key.compare (b.map keyB).key := by
  simp [map, compare, key, Keyword.compare_eq_key, agree, compareOptions_map agree]

theorem Builder.compare_map (a : Builder A R) (b : Builder B R) :
    (a.map f g).compare exp ref b = (a.map keyA keyR).key.compare (b.map keyB keyR).key := by
  have supers := compareLists_map a.supers b.supers fun e _ => agree e
  simp [map, compare, key, Keyword.compare_eq_key, Fields.compare_map agree agreeRef, supers, agree]

omit agreeRef in
theorem Precedence.compare_map (a : Precedence A) (b : Precedence B) :
    (a.map f).compare exp b = (a.map keyA).key.compare (b.map keyB).key := by
  simp [map, compare, key, Keyword.compare_eq_key, agree]

omit agreeRef in
theorem Operator.compare_map (a : Operator A) (b : Operator B) :
    (a.map f).compare exp b = (a.map keyA).key.compare (b.map keyB).key := by
  have precedence := compareLists_map a.precedence b.precedence fun p _ q =>
    Precedence.compare_map agree p q
  simp [map, compare, key, Fixity.compare_eq_key, precedence, Function.comp_def]

theorem Item.compare_map (a : Item A R) (b : Item B R) :
    (a.map f g).compare exp ref b = (a.map keyA keyR).key.compare (b.map keyB keyR).key := by
  cases a with
  | statement e =>
    cases b with
    | statement e' => simp [map, compare, key, agree]
    | declaration d' => rfl
  | declaration d =>
    cases b with
    | statement e' => rfl
    | declaration d' => simp [map, compare, key, Definition.compare_map agree agreeRef]

theorem Scope.compare_map (a : Scope A R) (b : Scope B R) :
    (a.map f g).compare exp ref b = (a.map keyA keyR).key.compare (b.map keyB keyR).key := by
  have builders : (a.builders.map (Builder.map f g)).compare (Builder.compare exp ref) b.builders
      = (a.builders.key fun n => (n.map keyA keyR).key).compare
        (b.builders.key fun n => (n.map keyB keyR).key) :=
    NameMap.compare_map (fun entry _ w => entry.2.compare_map agree agreeRef w) b.builders
  have operators : (a.operators.map (Operator.map f)).compare (Operator.compare exp) b.operators
      = (a.operators.key fun n => (n.map keyA).key).compare
        (b.operators.key fun n => (n.map keyB).key) :=
    NameMap.compare_map (fun entry _ w => entry.2.compare_map agree w) b.operators
  have truths : (a.truths.map (Truth.map f)).compare (Truth.compare exp) b.truths
      = (a.truths.key fun n => (n.map keyA).key).compare
        (b.truths.key fun n => (n.map keyB).key) :=
    NameMap.compare_map (fun entry _ w => entry.2.compare_map agree w) b.truths
  have definitions : (a.definitions.map (List.map (Definition.map f g))).compare
        (compareLists (Definition.compare exp ref)) b.definitions
      = (a.definitions.key fun ds => .list (ds.map fun d => (d.map keyA keyR).key)).compare
        (b.definitions.key fun ds => .list (ds.map fun d => (d.map keyB keyR).key)) := by
    refine VisibilityTable.compare_map (fun ds ds' => ?_) a.definitions b.definitions
    rw [Key.compare_list]
    exact compareLists_map _ _ fun d _ d' => d.compare_map agree agreeRef d'
  have proofs := compareLists_map a.proofs b.proofs fun p _ q =>
    Proof.compare_map agree agreeRef p q
  have imports := compareLists_map a.imports b.imports fun i _ j =>
    Import.compare_map agree i j
  simp [map, compare, key, ScopeId.compare_eq_key, NameMap.key_map, VisibilityTable.key_map,
    builders, operators, truths, definitions, proofs, imports, Function.comp_def]

theorem Component.compare_map (a : Component A R) (b : Component B R) :
    (a.map f g).compare exp ref b = (a.map keyA keyR).key.compare (b.map keyB keyR).key := by
  have expected := compareOptions_map (f := id) Name.compare_eq_key a.expected b.expected
  simp only [Option.map_id, id] at expected
  simp [map, compare, key, Scope.compare_map agree agreeRef, expected]

/-- Layers of expressions compare as their keys do if what fills their slots does. -/
theorem Form.compare_map (a : Form A R) (b : Form B R) :
    (a.map f g).compare exp ref b = (a.map keyA keyR).key.compare (b.map keyB keyR).key := by
  cases a with
  | block pos items =>
    cases b with
    | block pos' items' =>
      have same := compareLists_map items items' fun i _ j =>
        Item.compare_map agree agreeRef i j
      simp [map, compare, key, same, Function.comp_def]
    | _ => rfl
  | abstraction pos binder cases =>
    cases b with
    | abstraction pos' binder' cases' =>
      have same := compareLists_map cases cases' fun c _ d =>
        Case.compare_map agree agreeRef c d
      simp [map, compare, key, Keyword.compare_eq_key, same, Function.comp_def]
    | _ => rfl
  | matching pos scrutinee cases =>
    cases b with
    | matching pos' scrutinee' cases' =>
      have same := compareLists_map cases cases' fun c _ d =>
        Case.compare_map agree agreeRef c d
      simp [map, compare, key, agree, same, Function.comp_def]
    | _ => rfl
  | ascription pos value type =>
    cases b with
    | ascription pos' value' type' => simp [map, compare, key, agree]
    | _ => rfl
  | chain pos items =>
    cases b with
    | chain pos' items' =>
      have same := compareLists_map items items' fun e _ => agree e
      simp [map, compare, key, same]
    | _ => rfl
  | record pos fields =>
    cases b with
    | record pos' fields' =>
      have same : (fields.map f).compare exp fields' = (fields.key keyA).compare (fields'.key keyB) :=
        NameMap.compare_map (fun entry _ => agree entry.2) fields'
      simp [map, compare, key, NameMap.key_map, same]
    | _ => rfl
  | recordType pos fields =>
    cases b with
    | recordType pos' fields' => simp [map, compare, key, Fields.compare_map agree agreeRef]
    | _ => rfl
  | tuple pos items =>
    cases b with
    | tuple pos' items' =>
      have same := compareLists_map items items' fun e _ => agree e
      simp [map, compare, key, same]
    | _ => rfl
  | projection pos value path =>
    cases b with
    | projection pos' value' path' => simp [map, compare, key, agree, compareNames_eq_key]
    | _ => rfl
  | reference pos target =>
    cases b with
    | reference pos' target' => simp [map, compare, key, agreeRef]
    | _ => rfl
  | application pos function argument =>
    cases b with
    | application pos' function' argument' => simp [map, compare, key, agree]
    | _ => rfl
  | refinement pos value proposition =>
    cases b with
    | refinement pos' value' proposition' => simp [map, compare, key, agree]
    | _ => rfl
  | anonymous pos kind supers params body =>
    cases b with
    | anonymous pos' kind' supers' params' body' =>
      have same := compareLists_map supers supers' fun e _ => agree e
      simp [map, compare, key, Keyword.compare_eq_key, same, Fields.compare_map agree agreeRef,
        Scope.compare_map agree agreeRef]
    | _ => rfl
  | literal l =>
    cases b with
    | literal l' => simp [map, compare, key, Literal.compare_eq_key]
    | _ => rfl

/-- Nodes are compared as their keys are, whatever form their expressions are held in. -/
theorem Kind.compare_rewrite (k : Kind) (a : k.Tree A R) (b : k.Tree B R) :
    k.compare exp ref (k.rewrite f g a) b
      = (k.key (k.rewrite keyA keyR a)).compare (k.key (k.rewrite keyB keyR b)) := by
  cases k with
  | ref => exact agreeRef a b
  | span => exact Span.compare_eq_key a b
  | literal => exact Literal.compare_eq_key a b
  | entry => exact Entry.compare_map agree agreeRef a b
  | field => exact Field.compare_map agree agreeRef a b
  | fields => exact Fields.compare_map agree agreeRef a b
  | case => exact Case.compare_map agree agreeRef a b
  | definition => exact Definition.compare_map agree agreeRef a b
  | imported => exact Import.compare_map agree a b
  | proof => exact Proof.compare_map agree agreeRef a b
  | truth => exact Truth.compare_map agree a b
  | builder => exact Builder.compare_map agree agreeRef a b
  | precedence => exact Precedence.compare_map agree a b
  | operator => exact Operator.compare_map agree a b
  | scope => exact Scope.compare_map agree agreeRef a b
  | component => exact Component.compare_map agree agreeRef a b
  | pattern => exact Pattern.compare_map agree agreeRef a b
  | item => exact Item.compare_map agree agreeRef a b
  | expr => exact Form.compare_map agree agreeRef a b

omit agree agreeRef

/-- The key of a pattern begins with the rank of its variant. -/
theorem Pattern.tagged_key (n : Pattern A R) : (n.map keyA keyR).key.Tagged n.tag := by
  cases n <;> exact ⟨_, rfl⟩

theorem Item.tagged_key (n : Item A R) : (n.map keyA keyR).key.Tagged n.tag := by
  cases n <;> exact ⟨_, rfl⟩

/-- The key of an expression begins with the rank of its variant. -/
theorem Form.tagged_key (n : Form A R) : (n.map keyA keyR).key.Tagged n.tag := by
  cases n <;> exact ⟨_, rfl⟩

end SurfaceTree
