import SurfaceTree.Canonical.Words
import SurfaceTree.Proofs.Canonical.Order

namespace SurfaceTree

namespace Key

@[simp] theorem wordsOfAll_eq (ks : List Key) : wordsOfAll ks = ks.flatMap words := by
  induction ks with
  | nil => rfl
  | cons k rest ih => simp only [wordsOfAll, ih, List.flatMap_cons]

@[simp] theorem words_record (parts : List Key) : (record parts).words = parts.flatMap words := by
  rw [words, wordsOfAll_eq]

@[simp] theorem words_list (items : List Key) : (list items).words = wordsOfList words items := by
  rw [words, wordsOfAll_eq, wordsOfList]

@[simp] theorem words_ofNat (n : Nat) : (ofNat n).words = [UInt64.ofNat n] := by
  rw [ofNat, words]
  refine congrArg (· :: []) (UInt64.toNat_inj.mp ?_)
  rw [UInt64.ofInt, UInt64.toNat_ofNat', UInt64.toNat_ofNat']
  omega

@[simp] theorem words_ofBool (b : Bool) : (ofBool b).words = wordsOfBool b := by
  cases b <;> rfl

/-- Signed numbers are written in two's complement. -/
@[simp] theorem words_toInt (value : Int64) : (number value.toInt).words = [value.toUInt64] := by
  have bits : UInt64.ofInt value.toInt = ⟨BitVec.ofInt 64 value.toInt⟩ := by
    have nonneg : 0 ≤ value.toInt % 2 ^ 64 := Int.emod_nonneg _ (by decide)
    have below : value.toInt % 2 ^ 64 < 2 ^ 64 := Int.emod_lt_of_pos _ (by decide)
    apply UInt64.toNat_inj.mp
    rw [UInt64.ofInt, UInt64.toNat_ofNat', UInt64.toNat, BitVec.toNat_ofInt]
    exact Nat.mod_eq_of_lt (by omega)
  rw [words, bits]
  exact congrArg (· :: []) (congrArg UInt64.ofBitVec (BitVec.ofInt_toInt (x := value.toBitVec)))

end Key

/-- Lists of items that are written as their keys are. -/
theorem wordsOfList_map {A A' : Type} {f : A → A'} {item : A' → List UInt64} {keyA : A → Key}
    (as : List A) (agree : ∀ a ∈ as, item (f a) = (keyA a).words) :
    wordsOfList item (as.map f) = wordsOfList Key.words (as.map keyA) := by
  simp only [wordsOfList, List.length_map, List.flatMap_map]
  exact congrArg _ (List.flatMap_congr agree)

/-- The words of an option are those of its key if those of its value are. -/
theorem wordsOfOption_map {A A' : Type} {f : A → A'} {value : A' → List UInt64} {keyA : A → Key}
    (agree : ∀ a, value (f a) = (keyA a).words) (a : Option A) :
    wordsOfOption value (a.map f) = (Key.ofOption (a.map keyA)).words := by
  cases a with
  | none => rfl
  | some a =>
    have one : (Key.number 1).words = [1] := rfl
    simp [wordsOfOption, Key.ofOption, agree, one]

@[simp] theorem Keyword.words_key {α : Type} [Keyword α] [DecidableEq α] (a : α) :
    (Keyword.key a).words = words a :=
  Key.words_ofNat _

@[simp] theorem Name.words_key (n : Name) : n.key.words = n.words := by simp [key, words]

theorem wordsOfNames (names : List Name) :
    wordsOfList Key.words (names.map Name.key) = wordsOfList Name.words names := by
  simp [wordsOfList, List.flatMap_map]

@[simp] theorem ScopeId.words_key (s : ScopeId) : s.key.words = s.words := by simp [key, words]

@[simp] theorem Symbol.words_key (s : Symbol) : s.key.words = s.words := by simp [key, words]

@[simp] theorem Span.words_key (s : Span) : s.key.words = s.words := by simp [key, words]

@[simp] theorem Fixity.words_key (f : Fixity) : f.key.words = f.words := by
  cases f <;> simp [key, words, tag]

/-- The words of a value of a literal are those of its key. -/
@[simp] theorem LiteralValue.words_key (v : LiteralValue) : v.key.words = v.words := by
  cases v with
  | char value =>
    have code : UInt64.ofNat value.toNat = value.val.toUInt64 :=
      UInt64.ofNat_uInt32ToNat value.val
    simp [key, words, tag, code]
  | _ => simp [key, words, tag]

@[simp] theorem Literal.words_key (l : Literal) : l.key.words = l.words := l.value.words_key

theorem NameMap.size_eq_length {V : Type} (m : NameMap V) : m.size = m.toList.length := by
  rw [← List.length_map (f := Prod.fst), map_fst_toList]
  rfl

/-- The words of a mapping are those of its key if those of its values are. -/
theorem NameMap.words_map {V V' : Type} {f : V → V'} {value : V' → List UInt64} {keyV : V → Key}
    {m : NameMap V} (agree : ∀ entry ∈ m.toList, value (f entry.2) = (keyV entry.2).words) :
    (m.map f).words value = (m.key keyV).words := by
  rw [words, size_eq_length, toList_map, key, Key.words_list, wordsOfList, List.length_map,
    List.length_map, List.flatMap_map, List.flatMap_map]
  refine congrArg _ (List.flatMap_congr fun entry member => ?_)
  simp [agree entry member]

/-- The words of a table are those of its key if those of its values are. -/
theorem VisibilityTable.words_map {α α' : Type} {f : α → α'} {value : α' → List UInt64}
    {keyA : α → Key} (agree : ∀ a, value (f a) = (keyA a).words) (t : VisibilityTable α) :
    (t.map f).words value = (t.key keyA).words := by
  rw [words, values_map, key, Key.words_list]
  exact wordsOfList_map _ fun a _ => agree a

variable {E E' R : Type} {f : E → E'} {g : R → R} {exp : E' → List UInt64} {ref : R → List UInt64}
  {keyE : E → Key} {keyR : R → Key} (agree : ∀ e, exp (f e) = (keyE e).words)
  (agreeRef : ∀ r, ref (g r) = (keyR r).words)

namespace Pattern

@[simp] theorem wordsOfAll_eq (choices : List (Pattern E' R)) :
    wordsOfAll exp ref choices = choices.flatMap (words exp ref) := by
  induction choices with
  | nil => rfl
  | cons p rest ih => simp only [wordsOfAll, ih, List.flatMap_cons]

@[simp] theorem wordsOfRow_eq {names : List Name} (row : Row (Pattern E' R) names) :
    wordsOfRow exp ref row
      = row.toList.flatMap fun entry => entry.1.words ++ entry.2.words exp ref := by
  induction row with
  | nil => rfl
  | cons name p rest ih => simp only [wordsOfRow, ih, Row.toList, List.flatMap_cons]

/-- Alternatives are written as a list behind their tag. -/
theorem words_alternatives (pos : Span) (choices : List (Pattern E' R)) :
    (alternatives pos choices).words exp ref
      = UInt64.ofNat 0 :: wordsOfList (words exp ref) choices := by
  rw [words, wordsOfAll_eq]
  rfl

/-- The fields of a split are written as a mapping behind its tag. -/
theorem words_split (pos : Span) (fields : NameMap (Pattern E' R)) (strict : Bool) :
    (split pos fields strict).words exp ref
      = UInt64.ofNat 2 :: (fields.words (words exp ref) ++ wordsOfBool strict) := by
  rw [words, wordsOfRow_eq, NameMap.words, NameMap.toList, List.cons_append]
  rfl

include agree agreeRef in
/-- The words of a pattern are those of its key if those of what fills its slots are. -/
theorem words_map (p : Pattern E R) :
    (p.map f g).words exp ref = (p.map keyE keyR).key.words := by
  induction p using Pattern.induction with
  | alternatives pos choices ih =>
    rw [map, mapAll_eq, words_alternatives, wordsOfList_map choices ih]
    simp [map, key, Function.comp_def]
  | construct pos head argument ih => simp [map, words, key, tag, agreeRef, ih]
  | split pos fields strict ih =>
    have entries : (fields.map (map f g)).words (words exp ref)
        = (fields.key fun p => (p.map keyE keyR).key).words :=
      NameMap.words_map ih
    simp [map_split, words_split, key_split, NameMap.key_map, entries]
  | typed pos pattern type ih => simp [map, words, key, tag, agree, ih]
  | named pos name pattern ih => simp [map, words, key, tag, ih]
  | bind pos name => simp [map, words, key, tag]
  | literal l => simp [map, words, key, tag]

end Pattern

include agree agreeRef

theorem Entry.words_map (n : Entry E R) :
    (n.map f g).words exp ref = (n.map keyE keyR).key.words := by
  simp [map, words, key, Pattern.words_map agree agreeRef]

theorem Field.words_map (n : Field E R) :
    (n.map f g).words exp ref = (n.map keyE keyR).key.words := by
  simp [map, words, key, Entry.words_map agree agreeRef, wordsOfOption_map agree]

theorem Fields.words_map (n : Fields E R) :
    (n.map f g).words exp ref = (n.map keyE keyR).key.words := by
  have bindings : (n.bindings.map (Field.map f g)).words (Field.words exp ref)
      = (n.bindings.key fun field => (field.map keyE keyR).key).words :=
    NameMap.words_map fun entry _ => entry.2.words_map agree agreeRef
  simp [words, key, bindings_map, NameMap.key_map, bindings, wordsOfNames]

theorem Case.words_map (n : Case E R) :
    (n.map f g).words exp ref = (n.map keyE keyR).key.words := by
  simp [map, words, key, Pattern.words_map agree agreeRef, agree]

theorem Definition.words_map (n : Definition E R) :
    (n.map f g).words exp ref = (n.map keyE keyR).key.words := by
  simp [map, words, key, Pattern.words_map agree agreeRef, wordsOfOption_map agree]

omit agreeRef in
theorem Import.words_map (n : Import E) : (n.map f).words exp = (n.map keyE).key.words := by
  simp [map, words, key, agree]

theorem Proof.words_map (n : Proof E R) :
    (n.map f g).words exp ref = (n.map keyE keyR).key.words := by
  simp [map, words, key, agree, agreeRef]

omit agreeRef in
theorem Truth.words_map (n : Truth E) : (n.map f).words exp = (n.map keyE).key.words := by
  simp [map, words, key, agree, wordsOfOption_map agree]

theorem Builder.words_map (n : Builder E R) :
    (n.map f g).words exp ref = (n.map keyE keyR).key.words := by
  simp [map, words, key, Fields.words_map agree agreeRef,
    wordsOfList_map n.supers fun e _ => agree e, agree]

omit agreeRef in
theorem Precedence.words_map (n : Precedence E) :
    (n.map f).words exp = (n.map keyE).key.words := by
  simp [map, words, key, agree]

omit agreeRef in
theorem Operator.words_map (n : Operator E) : (n.map f).words exp = (n.map keyE).key.words := by
  have precedence := wordsOfList_map n.precedence fun p _ => p.words_map agree
  simp [map, words, key, precedence, Function.comp_def]

theorem Item.words_map (n : Item E R) :
    (n.map f g).words exp ref = (n.map keyE keyR).key.words := by
  cases n with
  | statement e => simp [map, words, key, tag, agree]
  | declaration d => simp [map, words, key, tag, Definition.words_map agree agreeRef]

theorem Scope.words_map (n : Scope E R) :
    (n.map f g).words exp ref = (n.map keyE keyR).key.words := by
  have builders : (n.builders.map (Builder.map f g)).words (Builder.words exp ref)
      = (n.builders.key fun b => (b.map keyE keyR).key).words :=
    NameMap.words_map fun entry _ => entry.2.words_map agree agreeRef
  have operators : (n.operators.map (Operator.map f)).words (Operator.words exp)
      = (n.operators.key fun o => (o.map keyE).key).words :=
    NameMap.words_map fun entry _ => entry.2.words_map agree
  have truths : (n.truths.map (Truth.map f)).words (Truth.words exp)
      = (n.truths.key fun t => (t.map keyE).key).words :=
    NameMap.words_map fun entry _ => entry.2.words_map agree
  have definitions : (n.definitions.map (List.map (Definition.map f g))).words
        (wordsOfList (Definition.words exp ref))
      = (n.definitions.key fun ds => .list (ds.map fun d => (d.map keyE keyR).key)).words := by
    refine VisibilityTable.words_map (fun ds => ?_) n.definitions
    rw [Key.words_list]
    exact wordsOfList_map ds fun d _ => d.words_map agree agreeRef
  have proofs := wordsOfList_map n.proofs fun p _ => p.words_map agree agreeRef
  have imports := wordsOfList_map n.imports fun i _ => i.words_map agree
  simp [map, words, key, NameMap.key_map, VisibilityTable.key_map, builders, operators, truths,
    definitions, proofs, imports, Function.comp_def]

theorem Component.words_map (n : Component E R) :
    (n.map f g).words exp ref = (n.map keyE keyR).key.words := by
  have expected := wordsOfOption_map (f := id) (fun name => name.words_key.symm) n.expected
  simp only [Option.map_id, id] at expected
  simp [map, words, key, Scope.words_map agree agreeRef, expected]

/-- The words of a layer of an expression are those of its key if those of what fills its slots
are. -/
theorem Form.words_map (n : Form E R) :
    (n.map f g).words exp ref = (n.map keyE keyR).key.words := by
  cases n with
  | block pos items =>
    have same := wordsOfList_map items fun i _ => i.words_map agree agreeRef
    simp [map, words, key, tag, same, Function.comp_def]
  | abstraction pos binder cases =>
    have same := wordsOfList_map cases fun c _ => c.words_map agree agreeRef
    simp [map, words, key, tag, same, Function.comp_def]
  | matching pos scrutinee cases =>
    have same := wordsOfList_map cases fun c _ => c.words_map agree agreeRef
    simp [map, words, key, tag, agree, same, Function.comp_def]
  | chain pos items | tuple pos items =>
    simp [map, words, key, tag, wordsOfList_map items fun e _ => agree e]
  | record pos fields =>
    have same : (fields.map f).words exp = (fields.key keyE).words :=
      NameMap.words_map fun entry _ => agree entry.2
    simp [map, words, key, tag, NameMap.key_map, same]
  | recordType pos fields => simp [map, words, key, tag, Fields.words_map agree agreeRef]
  | anonymous pos kind supers params body =>
    simp [map, words, key, tag, wordsOfList_map supers fun e _ => agree e,
      Fields.words_map agree agreeRef, Scope.words_map agree agreeRef]
  | _ => simp [map, words, key, tag, agree, agreeRef, wordsOfNames]

/-- Nodes are written as their keys are, whatever form their expressions are held in. -/
theorem Kind.words_rewrite (k : Kind) (n : k.Tree E R) :
    k.words exp ref (k.rewrite f g n) = (k.key (k.rewrite keyE keyR n)).words := by
  cases k with
  | ref => exact agreeRef n
  | span => exact (Span.words_key n).symm
  | literal => exact (Literal.words_key n).symm
  | entry => exact Entry.words_map agree agreeRef n
  | field => exact Field.words_map agree agreeRef n
  | fields => exact Fields.words_map agree agreeRef n
  | case => exact Case.words_map agree agreeRef n
  | definition => exact Definition.words_map agree agreeRef n
  | imported => exact Import.words_map agree n
  | proof => exact Proof.words_map agree agreeRef n
  | truth => exact Truth.words_map agree n
  | builder => exact Builder.words_map agree agreeRef n
  | precedence => exact Precedence.words_map agree n
  | operator => exact Operator.words_map agree n
  | scope => exact Scope.words_map agree agreeRef n
  | component => exact Component.words_map agree agreeRef n
  | pattern => exact Pattern.words_map agree agreeRef n
  | item => exact Item.words_map agree agreeRef n
  | expr => exact Form.words_map agree agreeRef n

end SurfaceTree
