import SurfaceTree.Canonical.Key
import SurfaceTree.Canonical.Order

namespace SurfaceTree

variable {A : Type} {item : A → A → Ordering} {as bs cs : List A}

/-- Lists compare as equal only if they are, as long as their items do. -/
theorem compareLists_eq_iff (items : ∀ a ∈ as, ∀ b, item a b = .eq ↔ a = b) :
    compareLists item as bs = .eq ↔ as = bs := by
  induction as generalizing bs with
  | nil => cases bs <;> simp [compareLists]
  | cons a rest ih =>
    obtain ⟨first, others⟩ := List.forall_mem_cons.mp items
    cases bs with
    | nil => simp [compareLists]
    | cons b rest' =>
      simp only [compareLists, Ordering.then_eq_eq, first, ih others, List.cons.injEq]

/-- Lists compare the other way round if their items do. -/
theorem compareLists_swap (items : ∀ a ∈ as, ∀ b, (item a b).swap = item b a) :
    (compareLists item as bs).swap = compareLists item bs as := by
  induction as generalizing bs with
  | nil => cases bs <;> rfl
  | cons a rest ih =>
    obtain ⟨first, others⟩ := List.forall_mem_cons.mp items
    cases bs with
    | nil => rfl
    | cons b rest' => simp only [compareLists, Ordering.swap_then, first, ih others]

/-- Lists are ordered where their items are. Items that compare as equal have to be equal. -/
theorem compareLists_lt_trans (same : ∀ a b, item a b = .eq → a = b)
    (items : ∀ a ∈ as, ∀ b c, item a b = .lt → item b c = .lt → item a c = .lt)
    (first : compareLists item as bs = .lt) (second : compareLists item bs cs = .lt) :
    compareLists item as cs = .lt := by
  induction as generalizing bs cs with
  | nil =>
    cases bs with
    | nil => exact second
    | cons b rest' =>
      cases cs with
      | nil => cases second
      | cons c rest'' => rfl
  | cons a rest ih =>
    obtain ⟨transHere, transLater⟩ := List.forall_mem_cons.mp items
    cases bs with
    | nil => cases first
    | cons b rest' =>
      cases cs with
      | nil => cases second
      | cons c rest'' =>
        simp only [compareLists, Ordering.then_eq_lt] at first second ⊢
        rcases first with lt | ⟨eq, later⟩
        · rcases second with lt' | ⟨eq', _⟩
          · exact .inl (transHere b c lt lt')
          · exact .inl (same b c eq' ▸ lt)
        · cases same a b eq
          rcases second with lt' | ⟨eq', later'⟩
          · exact .inl lt'
          · exact .inr ⟨eq', ih transLater later later'⟩

namespace Key

/-- What holds of a key if it holds of its parts holds of all keys. -/
theorem induction {P : Key → Prop} (number : ∀ value, P (.number value))
    (record : ∀ parts, (∀ k ∈ parts, P k) → P (.record parts))
    (list : ∀ items, (∀ k ∈ items, P k) → P (.list items)) (k : Key) : P k :=
  @Key.rec P (fun ks => ∀ k ∈ ks, P k) number record list (by simp)
    (fun _ _ first others => List.forall_mem_cons.mpr ⟨first, others⟩) k

theorem ofNat_inj {m n : Nat} (same : ofNat m = ofNat n) : m = n :=
  Int.ofNat_inj.mp (number.inj same)

theorem ofBool_inj {a b : Bool} (same : ofBool a = ofBool b) : a = b := by
  cases a <;> cases b <;> first | rfl | simp [ofBool] at same

@[simp] theorem compareAll_eq (as bs : List Key) : compareAll as bs = compareLists compare as bs := by
  induction as generalizing bs with
  | nil => cases bs <;> rfl
  | cons a rest ih =>
    cases bs with
    | nil => rfl
    | cons b rest' => simp only [compareAll, compareLists, ih]

/-- Two keys compare as equal only if they are the same key. -/
theorem compare_eq_iff (a b : Key) : compare a b = .eq ↔ a = b := by
  induction a using Key.induction generalizing b with
  | number value => cases b <;> simp [compare]
  | record parts ih => cases b <;> simp [compare, compareLists_eq_iff ih]
  | list items ih => cases b <;> simp [compare, compareLists_eq_iff ih]

@[simp] theorem compare_self (a : Key) : compare a a = .eq := (compare_eq_iff a a).mpr rfl

/-- Exchanging two keys reverses how they compare. -/
theorem compare_swap (a b : Key) : (compare a b).swap = compare b a := by
  induction a using Key.induction generalizing b with
  | number value => cases b <;> simp [compare, Int.compare_swap]
  | record parts ih => cases b <;> simp [compare, compareLists_swap ih]
  | list items ih => cases b <;> simp [compare, compareLists_swap ih]

/-- The order of keys is transitive. -/
theorem compare_lt_trans {a b c : Key} (first : compare a b = .lt) (second : compare b c = .lt) :
    compare a c = .lt := by
  have same (a b : Key) : compare a b = .eq → a = b := (compare_eq_iff a b).mp
  induction a using Key.induction generalizing b c with
  | number value =>
    cases c with
    | number value'' =>
      cases b with
      | number value' =>
        simp only [compare, Int.compare_eq_lt] at first second ⊢
        omega
      | _ => simp [compare] at second
    | _ => rfl
  | record parts ih =>
    cases b with
    | number value' => simp [compare] at first
    | record parts' =>
      cases c with
      | number value'' => simp [compare] at second
      | record parts'' =>
        simp only [compare, compareAll_eq] at first second ⊢
        exact compareLists_lt_trans same (fun k member _ _ => ih k member) first second
      | list items'' => rfl
    | list items' =>
      cases c with
      | list items'' => rfl
      | _ => simp [compare] at second
  | list items ih =>
    cases b with
    | list items' =>
      cases c with
      | list items'' =>
        simp only [compare, compareAll_eq] at first second ⊢
        exact compareLists_lt_trans same (fun k member _ _ => ih k member) first second
      | _ => simp [compare] at second
    | _ => simp [compare] at first

instance : Std.LawfulEqCmp compare where
  compare_self := compare_self _
  eq_of_compare := (compare_eq_iff _ _).mp

instance : Std.TransCmp compare where
  eq_swap := (compare_swap _ _).symm
  isLE_trans := by
    intro a b c first second
    rw [Ordering.isLE_iff_eq_lt_or_eq_eq] at first second ⊢
    rcases first with lt | eq
    · rcases second with lt' | eq'
      · exact .inl (compare_lt_trans lt lt')
      · cases (compare_eq_iff b c).mp eq'
        exact .inl lt
    · cases (compare_eq_iff a b).mp eq
      exact second

end Key

/-- Values that are ordered as their numbers are compare as their numbers do. -/
theorem compareOfLessAndEq_number {α : Type} [LT α] [DecidableLT α] [DecidableEq α]
    (number : α → Int) {a b : α} (lt : a < b ↔ number a < number b) (eq : a = b ↔ number a = number b) :
    compareOfLessAndEq a b = (Key.number (number a)).compare (.number (number b)) := by
  rw [Key.compare, show Ord.compare (number a) (number b)
    = compareOfLessAndEq (number a) (number b) from rfl]
  simp only [compareOfLessAndEq, lt, eq]

theorem Key.compare_ofNat (m n : Nat) : (ofNat m).compare (ofNat n) = Ord.compare m n :=
  (compareOfLessAndEq_number (fun n : Nat => (n : Int)) (by omega) (by omega)).symm

@[simp] theorem Key.compare_ofBool (a b : Bool) : (ofBool a).compare (ofBool b) = Ord.compare a b := by
  cases a <;> cases b <;> rfl

theorem Key.compare_word (a b : UInt32) :
    (ofNat a.toNat).compare (ofNat b.toNat) = Ord.compare a b :=
  (compareOfLessAndEq_number (fun n : UInt32 => (n.toNat : Int))
    (by rw [UInt32.lt_iff_toNat_lt]; omega) (by rw [← UInt32.toNat_inj]; omega)).symm

/-- Records are compared part by part, the first part first. -/
@[simp] theorem Key.compare_record_cons (a b : Key) (as bs : List Key) :
    (record (a :: as)).compare (record (b :: bs))
      = (a.compare b).then ((record as).compare (record bs)) := by
  simp only [Key.compare, compareAll_eq, compareLists]

/-- Lists of keys are compared item by item, and a list that ends first comes first. -/
@[simp] theorem Key.compare_list (as bs : List Key) :
    (list as).compare (list bs) = compareLists Key.compare as bs := by
  rw [Key.compare, compareAll_eq]

/-- A key that begins with the tag of a variant. -/
def Key.Tagged (tag : Nat) (k : Key) : Prop := ∃ parts, k = record (ofNat tag :: parts)

theorem Key.Tagged.eq {tag tag' : Nat} {k : Key} (tagged : k.Tagged tag)
    (tagged' : k.Tagged tag') : tag = tag' := by
  obtain ⟨parts, rfl⟩ := tagged
  obtain ⟨parts', same⟩ := tagged'
  simp only [record.injEq, List.cons.injEq] at same
  exact ofNat_inj same.1

/-- Different tags decide, whatever follows them. -/
theorem Key.Tagged.compare_of_ne {tag tag' : Nat} {k k' : Key} (tagged : k.Tagged tag)
    (tagged' : k'.Tagged tag') (different : tag ≠ tag') : k.compare k' = Ord.compare tag tag' := by
  obtain ⟨parts, rfl⟩ := tagged
  obtain ⟨parts', rfl⟩ := tagged'
  rw [compare_record_cons, compare_ofNat]
  rcases Nat.lt_or_gt_of_ne different with lt | gt
  · rw [Nat.compare_eq_lt.mpr lt, Ordering.lt_then]
  · rw [Nat.compare_eq_gt.mpr gt, Ordering.gt_then]

end SurfaceTree
