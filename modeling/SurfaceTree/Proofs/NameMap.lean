import Mathlib.Data.List.Nodup
import SurfaceTree.Tree.Fields

namespace SurfaceTree

theorem Name.ne_of_lt {a b : Name} (lt : a < b) : a ≠ b := by
  rintro rfl
  exact lt_irrefl a lt

theorem lookup_cons_eq {κ V : Type} [BEq κ] [LawfulBEq κ] [DecidableEq κ] (first : κ × V)
    (rest : List (κ × V)) (key : κ) :
    (first :: rest).lookup key = if key = first.1 then some first.2 else rest.lookup key := by
  obtain ⟨k, value⟩ := first
  by_cases same : key = k
  · simp only [List.lookup_cons, beq_iff_eq.mpr same, if_pos same]
  · simp only [List.lookup_cons, beq_false_of_ne same, if_neg same]

/-- Over distinct keys, every entry is the first of its key. -/
theorem lookup_of_mem {κ V : Type} [BEq κ] [LawfulBEq κ] [DecidableEq κ] {entries : List (κ × V)}
    (distinct : (entries.map Prod.fst).Nodup) {entry : κ × V} (member : entry ∈ entries) :
    entries.lookup entry.1 = some entry.2 := by
  induction entries with
  | nil => simp at member
  | cons first rest ih =>
    simp only [List.map_cons, List.nodup_cons] at distinct
    rw [lookup_cons_eq]
    rcases List.mem_cons.mp member with rfl | later
    · exact if_pos rfl
    · have apart : entry.1 ≠ first.1 := fun same =>
        distinct.1 (same ▸ List.mem_map_of_mem later)
      rw [if_neg apart, ih distinct.2 later]

/-- Where keys are distinct, what is looked up is what is listed. -/
theorem lookup_eq_some_iff_mem {κ V : Type} [BEq κ] [LawfulBEq κ] [DecidableEq κ]
    {entries : List (κ × V)} (distinct : (entries.map Prod.fst).Nodup) {key : κ} {value : V} :
    entries.lookup key = some value ↔ (key, value) ∈ entries := by
  refine ⟨fun found => ?_, lookup_of_mem distinct⟩
  obtain ⟨before, after, rfl, -⟩ := List.lookup_eq_some_iff.mp found
  exact List.mem_append_right before (List.mem_cons_self ..)

/-- Over distinct keys, looking up every key in turn gives the entries back. -/
theorem filterMap_lookup {κ V : Type} [BEq κ] [LawfulBEq κ] [DecidableEq κ] {entries : List (κ × V)}
    (distinct : (entries.map Prod.fst).Nodup) :
    (entries.map Prod.fst).filterMap (fun key => (entries.lookup key).map (key, ·)) = entries := by
  rw [List.filterMap_map]
  refine (List.filterMap_congr fun entry member => ?_).trans List.filterMap_some
  rw [Function.comp_apply, lookup_of_mem distinct member]
  rfl

theorem lookup_isSome_iff_mem {κ V : Type} [BEq κ] [LawfulBEq κ] {entries : List (κ × V)} {key : κ} :
    (entries.lookup key).isSome ↔ key ∈ entries.map Prod.fst := by
  rw [List.lookup_isSome_iff, List.mem_map]
  exact exists_congr fun entry => and_congr_right fun _ => by rw [beq_iff_eq, eq_comm]

namespace NameMap

variable {V : Type}

theorem distinct_keys (m : NameMap V) : m.keys.Nodup := m.ascending.imp Name.ne_of_lt

theorem contains_iff {m : NameMap V} {key : Name} : m.contains key ↔ key ∈ m.keys := by
  simp [contains]

/-- A key above all others goes to the end. -/
theorem place_above {key : Name} (value : V) {entries : List (Name × V)}
    (above : ∀ entry ∈ entries, entry.1 < key) :
    place key value entries = entries ++ [(key, value)] := by
  induction entries with
  | nil => rfl
  | cons first rest ih =>
    obtain ⟨below, others⟩ := List.forall_mem_cons.mp above
    have notLt : ¬ key < first.1 := fun lt => Name.lt_irrefl key (Name.lt_trans lt below)
    have ne : key ≠ first.1 := (Name.ne_of_lt below).symm
    simp only [place, if_neg notLt, if_neg ne, ih others, List.cons_append]

/-- Binds a name that is not bound yet, or hands the value back. -/
def tryInsert (m : NameMap V) (key : Name) (value : V) : Except V Unit × NameMap V :=
  if m.contains key then (.error value, m) else (.ok (), m.insert key value)

theorem insertNew?_above {m : NameMap V} {key : Name} (value : V)
    (above : ∀ entry ∈ m.toList, entry.1 < key) :
    ∃ m', m.insertNew? key value = some m' ∧ m'.toList = m.toList ++ [(key, value)] := by
  have fresh : ¬ m.contains key := by
    rw [contains_iff, ← m.map_fst_toList]
    intro member
    obtain ⟨entry, bound, same⟩ := List.mem_map.mp member
    exact Name.ne_of_lt (above entry bound) same
  exact ⟨m.insert key value, if_neg fresh, by rw [toList_insert, place_above value above]⟩

theorem lookup_place (key : Name) (value : V) (entries : List (Name × V)) (k : Name) :
    (place key value entries).lookup k = if k = key then some value else entries.lookup k := by
  induction entries with
  | nil => rw [place, lookup_cons_eq]
  | cons first rest ih =>
    simp only [place]
    split
    · rw [lookup_cons_eq]
    · split
      · next same =>
        simp only [lookup_cons_eq, same]
        split <;> rfl
      · next ne =>
        simp only [lookup_cons_eq, ih]
        by_cases here : k = first.1
        · have other : k ≠ key := fun same => ne (same.symm.trans here)
          rw [if_pos here, if_neg other, if_pos here]
        · rw [if_neg here, if_neg here]

/-- A name that is bound is looked up as the new value, and all others as before. -/
@[simp] theorem get?_insert (m : NameMap V) (key : Name) (value : V) (k : Name) :
    (m.insert key value).get? k = if k = key then some value else m.get? k := by
  simp only [get?, toList_insert, lookup_place]

theorem contains_eq_isSome_get? (m : NameMap V) (key : Name) :
    m.contains key = (m.get? key).isSome := by
  rw [Bool.eq_iff_iff, contains_iff, get?, lookup_isSome_iff_mem, m.map_fst_toList]

theorem contains_insert (m : NameMap V) (key : Name) (value : V) (k : Name) :
    (m.insert key value).contains k = (decide (k = key) || m.contains k) := by
  rw [contains_eq_isSome_get?, get?_insert, contains_eq_isSome_get?]
  by_cases same : k = key
  · simp [same]
  · simp [same]

theorem get?_foldl_insert {entries : List (Name × V)}
    (distinct : (entries.map Prod.fst).Nodup) (m : NameMap V) (k : Name) :
    (entries.foldl (fun m entry => m.insert entry.1 entry.2) m).get? k
      = (entries.lookup k).or (m.get? k) := by
  induction entries generalizing m with
  | nil => rfl
  | cons first rest ih =>
    simp only [List.map_cons, List.nodup_cons] at distinct
    rw [List.foldl_cons, ih distinct.2, get?_insert, lookup_cons_eq]
    by_cases here : k = first.1
    · have unbound : rest.lookup k = none := by
        rw [← Option.not_isSome_iff_eq_none, lookup_isSome_iff_mem, here]
        exact distinct.1
      rw [if_pos here, if_pos here, unbound, Option.none_or, Option.some_or]
    · rw [if_neg here, if_neg here]

/-- The mapping of distinct bindings gives back every one of them. -/
theorem get?_ofList {entries : List (Name × V)} (distinct : (entries.map Prod.fst).Nodup)
    (k : Name) : (ofList entries).get? k = entries.lookup k := by
  rw [ofList, get?_foldl_insert distinct]
  exact Option.or_none

theorem mem_place {key : Name} {value : V} {entries : List (Name × V)} {entry : Name × V}
    (member : entry ∈ place key value entries) : entry = (key, value) ∨ entry ∈ entries := by
  induction entries with
  | nil => exact .inl (List.mem_singleton.mp member)
  | cons first rest ih =>
    simp only [place] at member
    split at member
    · exact List.mem_cons.mp member
    · split at member
      · exact (List.mem_cons.mp member).imp id (List.mem_cons_of_mem _)
      · rcases List.mem_cons.mp member with rfl | later
        · exact .inr (List.mem_cons_self ..)
        · exact (ih later).imp id (List.mem_cons_of_mem _)

theorem mem_foldl_insert {entries : List (Name × V)} {m : NameMap V} {entry : Name × V}
    (member : entry ∈ (entries.foldl (fun m entry => m.insert entry.1 entry.2) m).toList) :
    entry ∈ entries ∨ entry ∈ m.toList := by
  induction entries generalizing m with
  | nil => exact .inr member
  | cons first rest ih =>
    rcases ih member with later | old
    · exact .inl (List.mem_cons_of_mem _ later)
    · rw [toList_insert] at old
      rcases mem_place old with rfl | old
      · exact .inl (List.mem_cons_self ..)
      · exact .inr old

theorem perm_place {key : Name} (value : V) {entries : List (Name × V)}
    (fresh : key ∉ entries.map Prod.fst) :
    (place key value entries).Perm ((key, value) :: entries) := by
  induction entries with
  | nil => exact .refl _
  | cons first rest ih =>
    rw [List.map_cons, List.mem_cons, not_or] at fresh
    simp only [place]
    split
    · exact .refl _
    · rw [if_neg fresh.1]
      exact ((ih fresh.2).cons first).trans (.swap ..)

/-- A new binding is put in among those that are there. -/
theorem perm_insert {m : NameMap V} {key : Name} (value : V) (fresh : ¬ m.contains key) :
    (m.insert key value).toList.Perm ((key, value) :: m.toList) := by
  rw [toList_insert]
  refine perm_place value ?_
  rwa [contains_iff, ← m.map_fst_toList] at fresh

/-- A mapping binds nothing that it was not built from. -/
theorem mem_ofList {entries : List (Name × V)} {entry : Name × V}
    (member : entry ∈ (ofList entries).toList) : entry ∈ entries :=
  (mem_foldl_insert member).resolve_right List.not_mem_nil

theorem contains_foldl_insert (entries : List (Name × V)) (m : NameMap V) (name : Name) :
    (entries.foldl (fun m entry => m.insert entry.1 entry.2) m).contains name
      ↔ name ∈ entries.map Prod.fst ∨ m.contains name := by
  induction entries generalizing m with
  | nil => simp
  | cons first rest ih =>
    rw [List.foldl_cons, ih, contains_insert, Bool.or_eq_true, decide_eq_true_iff, List.map_cons,
      List.mem_cons, or_left_comm, or_assoc]

theorem contains_ofList {entries : List (Name × V)} {name : Name} :
    (ofList entries).contains name ↔ name ∈ entries.map Prod.fst :=
  (contains_foldl_insert entries .empty name).trans (or_iff_left nofun)

/-- A mapping binds each name once. -/
theorem distinct_toList (m : NameMap V) : (m.toList.map Prod.fst).Nodup := by
  rw [map_fst_toList]
  exact m.distinct_keys

theorem get?_eq_some_iff {m : NameMap V} {key : Name} {value : V} :
    m.get? key = some value ↔ (key, value) ∈ m.toList :=
  lookup_eq_some_iff_mem m.distinct_toList

/-- Two mappings that bind every name to the same value are the same, since both list their
bindings by ascending key. -/
theorem ext_get? {a b : NameMap V} (same : ∀ key, a.get? key = b.get? key) : a = b := by
  have members : a.toList.Perm b.toList := by
    refine (List.perm_ext_iff_of_nodup a.distinct_toList.of_map b.distinct_toList.of_map).mpr ?_
    rintro ⟨key, value⟩
    rw [← get?_eq_some_iff, ← get?_eq_some_iff, same]
  have ascending (m : NameMap V) : m.toList.Pairwise fun x y => x.1 < y.1 := by
    have keys := m.ascending
    rwa [← m.map_fst_toList, List.pairwise_map] at keys
  refine ext (members.eq_of_pairwise (fun x y _ _ below above => ?_) (ascending a) (ascending b))
  exact absurd (Name.lt_trans below above) (Name.lt_irrefl x.1)

/-- The bindings of a mapping make up the mapping in any order. -/
theorem ofList_of_perm {entries : List (Name × V)} {m : NameMap V}
    (shuffled : entries.Perm m.toList) : ofList entries = m := by
  have distinct : (entries.map Prod.fst).Nodup :=
    (shuffled.map Prod.fst).nodup_iff.mpr m.distinct_toList
  refine ext_get? fun key => Option.ext fun value => ?_
  rw [get?_ofList distinct, lookup_eq_some_iff_mem distinct, get?_eq_some_iff, shuffled.mem_iff]

end NameMap

namespace Fields

variable {E R : Type}

@[simp] theorem map_fst_toList (fs : Fields E R) : fs.toList.map Prod.fst = fs.order :=
  Row.map_fst_toList fs.row

theorem distinct_names (fs : Fields E R) : (fs.toList.map Prod.fst).Nodup := by
  rw [map_fst_toList]
  exact fs.distinct

/-- Field lists that list the same fields are the same. -/
theorem ext {a b : Fields E R} (same : a.toList = b.toList) : a = b := by
  obtain ⟨order, distinct, row⟩ := a
  obtain ⟨order', distinct', row'⟩ := b
  have sameOrder : order = order' := by
    have listed := congrArg (List.map Prod.fst) same
    simpa only [toList, Row.map_fst_toList] using listed
  subst sameOrder
  cases Row.toList_inj (show row.toList = row'.toList from same)
  rfl

theorem firstFault?_eq_none {bound : Name → Bool} {seen order : List Name}
    (allBound : ∀ n ∈ order, bound n) (distinct : order.Nodup) (apart : ∀ n ∈ order, n ∉ seen) :
    firstFault? bound seen order = none := by
  induction order generalizing seen with
  | nil => rfl
  | cons name rest ih =>
    obtain ⟨boundHere, boundLater⟩ := List.forall_mem_cons.mp allBound
    obtain ⟨fresh, later⟩ := List.forall_mem_cons.mp apart
    obtain ⟨first, distinct⟩ := List.nodup_cons.mp distinct
    rw [firstFault?, boundHere, if_neg (by decide), if_neg fresh]
    refine ih boundLater distinct fun n member old => ?_
    rcases List.mem_cons.mp old with rfl | old
    · exact first member
    · exact later n member old

/-- A repeated name is what is wrong with an order if all names are bound. -/
theorem firstFault?_true (seen names : List Name) :
    firstFault? (fun _ => true) seen names = (firstRepeat? seen names).map .duplicateKey := by
  induction names generalizing seen with
  | nil => rfl
  | cons name rest ih =>
    rw [firstFault?, firstRepeat?, ih, if_neg (by decide)]
    split <;> rfl

theorem firstRepeat?_eq_none {seen names : List Name} (distinct : names.Nodup)
    (apart : ∀ n ∈ names, n ∉ seen) : firstRepeat? seen names = none := by
  have noFault : firstFault? (fun _ => true) seen names = none :=
    firstFault?_eq_none (fun _ _ => rfl) distinct apart
  rwa [firstFault?_true, Option.map_eq_none_iff] at noFault

theorem bound_of_firstFault?_eq_none {bound : Name → Bool} {seen order : List Name}
    (none : firstFault? bound seen order = none) :
    order.Nodup ∧ ∀ n ∈ order, bound n ∧ n ∉ seen := by
  induction order generalizing seen with
  | nil => exact ⟨.nil, nofun⟩
  | cons name rest ih =>
    simp only [firstFault?] at none
    split at none
    · cases none
    · next isBound =>
      split at none
      · cases none
      · next fresh =>
        obtain ⟨distinct, others⟩ := ih none
        refine ⟨List.nodup_cons.mpr ⟨fun later => (others name later).2 (List.mem_cons_self ..),
          distinct⟩, List.forall_mem_cons.mpr ⟨⟨by simpa using isBound, fresh⟩, ?_⟩⟩
        exact fun n later => ⟨(others n later).1,
          fun old => (others n later).2 (List.mem_cons_of_mem _ old)⟩

/-- Fields of distinct names make up a field list, in the order in which they are given. -/
theorem ofDeclared_toList (fs : Fields E R) : ofDeclared fs.toList = .ok fs := by
  have noRepeat : firstRepeat? [] (fs.toList.map Prod.fst) = none :=
    firstRepeat?_eq_none fs.distinct_names (by simp)
  unfold ofDeclared
  split
  · next name repeated =>
    rw [noRepeat] at repeated
    cases repeated
  · exact congrArg Except.ok (ext (Row.toList_ofList fs.toList))

theorem get?_bindings (fs : Fields E R) (name : Name) : fs.bindings.get? name = fs.get? name :=
  NameMap.get?_ofList fs.distinct_names name

/-- Fields are the same by ascending name as in declared order. -/
theorem perm_bindings (fs : Fields E R) : fs.bindings.toList.Perm fs.toList := by
  refine (List.perm_ext_iff_of_nodup fs.bindings.distinct_toList.of_map
    fs.distinct_names.of_map).mpr ?_
  rintro ⟨name, field⟩
  rw [← NameMap.get?_eq_some_iff, get?_bindings, get?, lookup_eq_some_iff_mem fs.distinct_names]

theorem contains_bindings {fs : Fields E R} {name : Name} :
    fs.bindings.contains name ↔ name ∈ fs.order := by
  rw [NameMap.contains_eq_isSome_get?, get?_bindings, get?, lookup_isSome_iff_mem, map_fst_toList]

/-- The bindings are found in declared order by going through the order. -/
theorem filterMap_bindings (fs : Fields E R) :
    (fs.order.filterMap fun name => (fs.bindings.get? name).map (name, ·)) = fs.toList := by
  simp only [get?_bindings, get?]
  rw [← fs.map_fst_toList]
  exact filterMap_lookup fs.distinct_names

/-- A field list is determined by its bindings and their order. -/
theorem ofBindings_bindings (fs : Fields E R) : ofBindings fs.bindings fs.order = .ok fs := by
  have noFault : firstFault? fs.bindings.contains [] fs.order = none :=
    firstFault?_eq_none (fun _ member => contains_bindings.mpr member) fs.distinct (by simp)
  have noneLeft : fs.bindings.keys.find? (fun key => !fs.order.contains key) = none := by
    simp only [List.find?_eq_none, List.contains_iff_mem, Bool.not_eq_true', Bool.not_eq_false]
    exact fun key bound => contains_bindings.mp (NameMap.contains_iff.mpr bound)
  simp only [ofBindings, noFault, noneLeft, filterMap_bindings, ofDeclared_toList]

/-- A field list is determined by its mapping and its declared order. -/
theorem eq_of_bindings_eq {a b : Fields E R} (bindings : a.bindings = b.bindings)
    (order : a.order = b.order) : a = b := by
  have rebuilt := a.ofBindings_bindings
  rw [bindings, order, b.ofBindings_bindings] at rebuilt
  exact (Except.ok.inj rebuilt).symm

end Fields

end SurfaceTree
