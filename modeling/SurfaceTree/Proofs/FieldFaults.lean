import SurfaceTree.Proofs.Except
import SurfaceTree.Proofs.FieldTable
import SurfaceTree.Proofs.FirstPosition

namespace SurfaceTree

namespace Fields

/-- A position of an order holds a name that is not bound or was listed before. -/
def FaultyAt (bound : Name → Bool) : List Name → Nat → Prop :=
  HoldsAt fun earlier name => ¬ bound name ∨ name ∈ earlier

section

variable {bound : Name → Bool} {order : List Name} {i : Nat} {name : Name}

theorem not_faultyAt_iff :
    (∀ i, ¬ FaultyAt bound order i) ↔ order.Nodup ∧ ∀ name ∈ order, bound name := by
  simp only [FaultyAt, HoldsAt, not_exists, not_and, not_or, not_not, ← not_repeatsAt_iff, RepeatsAt,
    List.mem_iff_getElem?]
  constructor
  · intro sound
    refine ⟨fun i name listed => (sound i name listed).2, ?_⟩
    rintro name ⟨i, listed⟩
    exact (sound i name listed).1
  · rintro ⟨distinct, allBound⟩ i name listed
    exact ⟨allBound name ⟨i, listed⟩, distinct i name listed⟩

theorem firstFault?_append (bound : Name → Bool) (seen before rest : List Name) :
    firstFault? bound seen (before ++ rest)
      = (firstFault? bound seen before).or (firstFault? bound (before.reverse ++ seen) rest) := by
  induction before generalizing seen with
  | nil => rfl
  | cons name before ih =>
    rw [List.cons_append, firstFault?, firstFault?, ih, List.reverse_cons, List.append_assoc,
      List.singleton_append]
    split
    · rfl
    · split <;> rfl

theorem firstFault?_eq_none_iff :
    firstFault? bound [] order = none ↔ ∀ i, ¬ FaultyAt bound order i := by
  rw [not_faultyAt_iff]
  constructor
  · intro noFault
    obtain ⟨distinct, others⟩ := bound_of_firstFault?_eq_none noFault
    exact ⟨distinct, fun name member => (others name member).1⟩
  · rintro ⟨distinct, allBound⟩
    exact firstFault?_eq_none allBound distinct (by simp)

/-- Of an order that has a fault, the first faulty position is reported. -/
theorem firstFault?_of_isLeast (first : IsLeast {i | FaultyAt bound order i} i)
    (listed : order[i]? = some name) :
    firstFault? bound [] order
      = some (if bound name then .duplicateKey name else .unknownKey name) := by
  have sound : firstFault? bound [] (order.take i) = none :=
    firstFault?_eq_none_iff.mpr (not_holdsAt_take_of_isLeast first)
  have fault : ¬ bound name ∨ name ∈ order.take i := holds_of_isLeast first listed
  rw [eq_take_append listed, firstFault?_append, sound, Option.none_or, firstFault?]
  by_cases isBound : bound name
  · have earlier : name ∈ order.take i := fault.resolve_left (not_not_intro isBound)
    simp [isBound, earlier]
  · simp [isBound]

theorem faultyAt_true : FaultyAt (fun _ => true) order i ↔ RepeatsAt order i := by
  simp only [FaultyAt, RepeatsAt, HoldsAt, not_true_eq_false, false_or]

theorem firstRepeat?_of_isLeast (first : IsLeast {i | RepeatsAt order i} i)
    (listed : order[i]? = some name) : firstRepeat? [] order = some name := by
  have fault : firstFault? (fun _ => true) [] order = some (.duplicateKey name) :=
    firstFault?_of_isLeast (by simpa only [faultyAt_true] using first) listed
  rw [firstFault?_true, Option.map_eq_some_iff] at fault
  obtain ⟨name', found, same⟩ := fault
  cases same
  exact found

end

variable {E R : Type}

/-- What a mapping and an order are to give: the field list with these bindings in this order, or the
first fault of the order. A key that is left out counts only where no position is at fault. -/
inductive Paired (m : NameMap (Field E R)) (order : List Name) :
    Except FieldsError (Fields E R) → Prop
  | fields (fs : Fields E R) (bindings : fs.bindings = m) (inOrder : fs.order = order) :
      Paired m order (.ok fs)
  | unknownKey {i : Nat} {name : Name} (first : IsLeast {i | FaultyAt m.contains order i} i)
      (listed : order[i]? = some name) (unbound : ¬ m.contains name) :
      Paired m order (.error (.unknownKey name))
  | duplicateKey {i : Nat} {name : Name} (first : IsLeast {i | FaultyAt m.contains order i} i)
      (listed : order[i]? = some name) (earlier : name ∈ order.take i) :
      Paired m order (.error (.duplicateKey name))
  | missingKey {name : Name} (sound : ∀ i, ¬ FaultyAt m.contains order i) (bound : m.contains name)
      (omitted : name ∉ order) (least : ∀ key, m.contains key → key ∉ order → ¬ key < name) :
      Paired m order (.error (.missingKey name))

variable {m : NameMap (Field E R)} {order : List Name} {result : Except FieldsError (Fields E R)}

/-- The first key that an order leaves out is the smallest one. -/
theorem find?_keys_eq_some_iff {name : Name} :
    m.keys.find? (fun key => !order.contains key) = some name ↔
      m.contains name ∧ name ∉ order ∧ ∀ key, m.contains key → key ∉ order → ¬ key < name := by
  have ascending := m.ascending
  simp only [List.find?_eq_some_iff_append, NameMap.contains_iff, Bool.not_eq_true',
    List.contains_eq_mem, decide_eq_false_iff_not, Bool.not_not, decide_eq_true_eq]
  constructor
  · rintro ⟨omitted, before, after, split, ordered⟩
    rw [split, List.pairwise_append, List.pairwise_cons] at ascending
    obtain ⟨-, ⟨above, -⟩, below⟩ := ascending
    rw [split]
    refine ⟨by simp, omitted, fun key member left lt => ?_⟩
    rcases List.mem_append.mp member with earlier | later
    · exact left (ordered key earlier)
    rcases List.mem_cons.mp later with rfl | later
    · exact Name.lt_irrefl key lt
    · exact Name.lt_irrefl key (Name.lt_trans lt (above key later))
  · rintro ⟨member, omitted, least⟩
    obtain ⟨before, after, split⟩ := List.append_of_mem member
    refine ⟨omitted, before, after, split, fun key earlier => ?_⟩
    rw [split, List.pairwise_append] at ascending
    by_contra left
    refine least key ?_ left (ascending.2.2 key earlier name (List.mem_cons_self ..))
    rw [split]
    exact List.mem_append_left _ earlier

theorem Paired.ofBindings_eq (paired : Paired m order result) : ofBindings m order = result := by
  cases paired with
  | fields fs bindings inOrder =>
    rw [← bindings, ← inOrder, ofBindings_bindings]
  | unknownKey first listed unbound =>
    simp only [ofBindings, firstFault?_of_isLeast first listed, if_neg unbound]
  | @duplicateKey i name first listed earlier =>
    have bound : m.contains name :=
      (not_faultyAt_iff.mp (not_holdsAt_take_of_isLeast first)).2 name earlier
    simp only [ofBindings, firstFault?_of_isLeast first listed, if_pos bound]
  | missingKey sound bound omitted least =>
    simp only [ofBindings, firstFault?_eq_none_iff.mpr sound,
      find?_keys_eq_some_iff.mpr ⟨bound, omitted, least⟩]

theorem exists_paired (m : NameMap (Field E R)) (order : List Name) :
    ∃ result, Paired m order result := by
  rcases not_holdsAt_or_isLeast _ order with sound | ⟨i, name, first, listed⟩
  · cases left : m.keys.find? (fun key => !order.contains key) with
    | some name =>
      obtain ⟨bound, omitted, least⟩ := find?_keys_eq_some_iff.mp left
      exact ⟨_, .missingKey sound bound omitted least⟩
    | none =>
      obtain ⟨fs, same⟩ :=
        (FieldTable.wellFormed_of_pair (firstFault?_eq_none_iff.mpr sound) left).exists_fields
      cases same
      exact ⟨_, .fields fs rfl rfl⟩
  · rcases holds_of_isLeast first listed with unbound | earlier
    · exact ⟨_, .unknownKey first listed unbound⟩
    · exact ⟨_, .duplicateKey first listed earlier⟩

theorem ofBindings_eq_iff : ofBindings m order = result ↔ Paired m order result :=
  eq_iff_of_determines Paired.ofBindings_eq (exists_paired m order)

theorem exists_ofBindings_eq_ok_iff :
    (∃ fs, ofBindings m order = .ok fs) ↔
      order.Nodup ∧ ∀ name, name ∈ order ↔ m.contains name := by
  simp only [ofBindings_eq_iff]
  constructor
  · rintro ⟨fs, paired⟩
    cases paired with
    | fields fs bindings inOrder =>
      rw [← bindings, ← inOrder]
      exact ⟨fs.distinct, fun name => contains_bindings.symm⟩
  · rintro ⟨distinct, lists⟩
    have wellFormed : (FieldTable.mk m order).WellFormed := ⟨distinct, lists⟩
    obtain ⟨fs, same⟩ := wellFormed.exists_fields
    cases same
    exact ⟨fs, .fields fs rfl rfl⟩

/-- What fields in declared order are to give: the list of these fields, or the first name that comes
up again. -/
inductive Declared (entries : List (Name × Field E R)) : Except FieldsError (Fields E R) → Prop
  | fields (fs : Fields E R) (inOrder : fs.order = entries.map Prod.fst)
      (holds : ∀ entry ∈ entries, fs.get? entry.1 = some entry.2) : Declared entries (.ok fs)
  | duplicateKey {i : Nat} {name : Name}
      (first : IsLeast {i | RepeatsAt (entries.map Prod.fst) i} i)
      (listed : (entries.map Prod.fst)[i]? = some name) :
      Declared entries (.error (.duplicateKey name))

variable {entries : List (Name × Field E R)}

theorem toList_eq_of_get? {fs : Fields E R} (inOrder : fs.order = entries.map Prod.fst)
    (holds : ∀ entry ∈ entries, fs.get? entry.1 = some entry.2) : fs.toList = entries := by
  rw [← fs.filterMap_bindings, inOrder, List.filterMap_map]
  refine (List.filterMap_congr fun entry member => ?_).trans List.filterMap_some
  simp only [Function.comp_apply, get?_bindings, holds entry member, Option.map_some]

theorem declared_ofDistinct (distinct : (entries.map Prod.fst).Nodup) :
    Declared entries (.ok (ofDistinct entries distinct)) := by
  refine .fields _ rfl fun entry member => ?_
  rw [get?, toList, ofDistinct, Row.toList_ofList, lookup_of_mem distinct member]

theorem Declared.ofDeclared_eq (declared : Declared entries result) :
    ofDeclared entries = result := by
  cases declared with
  | fields fs inOrder holds => rw [← toList_eq_of_get? inOrder holds, ofDeclared_toList]
  | duplicateKey first listed =>
    have repeated := firstRepeat?_of_isLeast first listed
    unfold ofDeclared
    split
    · next name found =>
      cases found.symm.trans repeated
      rfl
    · next distinct => cases distinct.symm.trans repeated

theorem exists_declared (entries : List (Name × Field E R)) :
    ∃ result, Declared entries result := by
  rcases not_holdsAt_or_isLeast _ (entries.map Prod.fst) with sound | ⟨i, name, first, listed⟩
  · exact ⟨_, declared_ofDistinct (not_repeatsAt_iff.mp sound)⟩
  · exact ⟨_, .duplicateKey first listed⟩

theorem ofDeclared_eq_iff : ofDeclared entries = result ↔ Declared entries result :=
  eq_iff_of_determines Declared.ofDeclared_eq (exists_declared entries)

theorem exists_ofDeclared_eq_ok_iff :
    (∃ fs, ofDeclared entries = .ok fs) ↔ (entries.map Prod.fst).Nodup := by
  simp only [ofDeclared_eq_iff]
  constructor
  · rintro ⟨fs, declared⟩
    cases declared with
    | fields fs inOrder holds => exact inOrder ▸ fs.distinct
  · exact fun distinct => ⟨_, declared_ofDistinct distinct⟩

/-- A mapping and an order make up a field list if and only if the order lists every key once and
no other name. Otherwise the first position that holds an unbound or repeated name is reported, or
else the smallest key that is left out. Fields one after another make up a field list if and only
if their names are distinct, and otherwise the first repeated name is reported. -/
theorem built_or_fault :
    (∀ (m : NameMap (Field E R)) (order : List Name),
      ((∃ fs, ofBindings m order = .ok fs) ↔
        order.Nodup ∧ ∀ name, name ∈ order ↔ m.contains name) ∧
      ∀ result, ofBindings m order = result ↔ Paired m order result) ∧
    ∀ entries : List (Name × Field E R),
      ((∃ fs, ofDeclared entries = .ok fs) ↔ (entries.map Prod.fst).Nodup) ∧
      ∀ result, ofDeclared entries = result ↔ Declared entries result :=
  ⟨fun _ _ => ⟨exists_ofBindings_eq_ok_iff, fun _ => ofBindings_eq_iff⟩,
    fun _ => ⟨exists_ofDeclared_eq_ok_iff, fun _ => ofDeclared_eq_iff⟩⟩

/-- A name comes twice, one is not bound, and a key is left out. -/
example (field : Field E R) :
    ofBindings (.ofList [(⟨2⟩, field), (⟨1⟩, field)]) [⟨1⟩, ⟨1⟩, ⟨7⟩]
      = .error (.duplicateKey ⟨1⟩) := rfl

end Fields

end SurfaceTree
