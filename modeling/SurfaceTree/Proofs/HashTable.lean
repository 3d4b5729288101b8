import SurfaceTree.Proofs.NameMap

namespace SurfaceTree

variable {V : Type}

/-- Bindings in whatever order a hash table has them. No name is bound twice. -/
structure HashTable (V : Type) where
  bindings : List (Name × V)
  distinct : (bindings.map Prod.fst).Nodup

/-- A way of binding a name: always, or only if it is not bound yet. -/
inductive Insertion (V : Type) where
  | insert (name : Name) (value : V)
  | tryInsert (name : Name) (value : V)

namespace Insertion

/-- The bindings after an insertion, in some order. -/
def after (bindings : List (Name × V)) : Insertion V → List (Name × V)
  | insert name value => (name, value) :: bindings.filter (·.1 ≠ name)
  | tryInsert name value =>
    if name ∈ bindings.map Prod.fst then bindings else (name, value) :: bindings

/-- The mapping after an insertion. -/
def run (m : NameMap V) : Insertion V → NameMap V
  | insert name value => m.insert name value
  | tryInsert name value => (m.tryInsert name value).2

/-- An insertion that is refused leaves the mapping as it was. -/
theorem run_tryInsert (m : NameMap V) (name : Name) (value : V) :
    run m (.tryInsert name value) = if m.contains name then m else m.insert name value := by
  rw [run, NameMap.tryInsert]
  split <;> rfl

end Insertion

/-- The bindings that a mapping is collected from, of which the later ones win, and the insertions
that follow. -/
structure History (V : Type) where
  collected : List (Name × V)
  further : List (Insertion V)

namespace History

/-- The mapping that is left. -/
def run (h : History V) : NameMap V := h.further.foldl Insertion.run (.ofList h.collected)

/-- All insertions. Collecting bindings inserts one after the other. -/
def insertions (h : History V) : List (Insertion V) :=
  h.collected.map (fun entry => .insert entry.1 entry.2) ++ h.further

theorem run_eq (h : History V) : h.run = h.insertions.foldl Insertion.run .empty := by
  rw [insertions, List.foldl_append, List.foldl_map]
  rfl

end History

namespace HashTable

/-- A table that some insertions can lead to. Each puts the bindings in an order of its own. -/
inductive Reached : List (Insertion V) → HashTable V → Prop where
  | empty : Reached [] ⟨[], .nil⟩
  | insert {earlier : List (Insertion V)} {t t' : HashTable V} {i : Insertion V}
      (reached : Reached earlier t) (order : t'.bindings.Perm (i.after t.bindings)) :
      Reached (earlier ++ [i]) t'

def get? (t : HashTable V) (name : Name) : Option V := t.bindings.lookup name

def size (t : HashTable V) : Nat := t.bindings.length

/-- The order of the bindings does not matter to a lookup. -/
theorem get?_of_perm {t t' : HashTable V} (order : t.bindings.Perm t'.bindings) (name : Name) :
    t.get? name = t'.get? name :=
  Option.ext fun value => by
    rw [get?, get?, lookup_eq_some_iff_mem t.distinct, lookup_eq_some_iff_mem t'.distinct,
      order.mem_iff]

/-- The bindings by ascending key. -/
def sorted (t : HashTable V) : List (Name × V) :=
  t.bindings.mergeSort fun a b => !decide (b.1 < a.1)

/-- The keys in ascending order. -/
def keys (t : HashTable V) : List Name :=
  (t.bindings.map Prod.fst).mergeSort fun a b => !decide (b < a)

/-- A table and a mapping bind the same. -/
def Holds (t : HashTable V) (m : NameMap V) : Prop :=
  ∀ name value, (name, value) ∈ t.bindings ↔ m.get? name = some value

namespace Holds

variable {t t' : HashTable V} {m : NameMap V}

theorem bound_iff (holds : t.Holds m) {name : Name} :
    name ∈ t.bindings.map Prod.fst ↔ m.contains name := by
  rw [NameMap.contains_eq_isSome_get?, Option.isSome_iff_exists, List.mem_map]
  constructor
  · rintro ⟨⟨_, value⟩, member, rfl⟩
    exact ⟨value, (holds _ _).mp member⟩
  · rintro ⟨value, bound⟩
    exact ⟨(name, value), (holds _ _).mpr bound, rfl⟩

/-- An insertion into the table does what it does to the mapping. -/
theorem insert {i : Insertion V} (holds : t.Holds m)
    (order : t'.bindings.Perm (i.after t.bindings)) : t'.Holds (i.run m) := by
  have binds (key : Name) (new : V) (name : Name) (value : V) :
      ((name, value) = (key, new) ∨ name ≠ key ∧ (name, value) ∈ t.bindings)
        ↔ (m.insert key new).get? name = some value := by
    rw [NameMap.get?_insert]
    by_cases here : name = key
    · simp [here, eq_comm]
    · simp [here, holds name value]
  intro name value
  rw [order.mem_iff]
  cases i with
  | insert key new =>
    rw [Insertion.after, Insertion.run, ← binds]
    simp [and_comm]
  | tryInsert key new =>
    rw [Insertion.after, Insertion.run_tryInsert]
    by_cases bound : m.contains key
    · rw [if_pos (holds.bound_iff.mpr bound), if_pos bound]
      exact holds name value
    · have unbound : key ∉ t.bindings.map Prod.fst := mt holds.bound_iff.mp bound
      have apart : (name, value) ∈ t.bindings → name ≠ key := by
        rintro member rfl
        exact unbound (List.mem_map_of_mem member)
      rw [if_neg unbound, if_neg bound, ← binds, List.mem_cons]
      exact or_congr_right ⟨fun member => ⟨apart member, member⟩, And.right⟩

theorem perm (holds : t.Holds m) : t.bindings.Perm m.toList := by
  refine (List.perm_ext_iff_of_nodup t.distinct.of_map m.distinct_toList.of_map).mpr ?_
  rintro ⟨name, value⟩
  rw [holds, NameMap.get?_eq_some_iff]

theorem get?_eq (holds : t.Holds m) (name : Name) : t.get? name = m.get? name :=
  Option.ext fun value => by rw [get?, lookup_eq_some_iff_mem t.distinct, holds]

theorem size_eq (holds : t.Holds m) : t.size = m.size := by
  rw [size, holds.perm.length_eq, NameMap.size, ← m.map_fst_toList, List.length_map]

end Holds

/-- Whatever is sorted by distinct keys comes in the one ascending order. -/
theorem mergeSort_eq_of_perm {α : Type} (key : α → Name) {xs ys : List α} (order : xs.Perm ys)
    (ascending : ys.Pairwise fun a b => key a < key b) :
    xs.mergeSort (fun a b => !decide (key b < key a)) = ys := by
  have distinct : (ys.map key).Nodup := List.pairwise_map.mpr (ascending.imp Name.ne_of_lt)
  have trans (a b c : α) : (!decide (key b < key a)) = true → (!decide (key c < key b)) = true →
      (!decide (key c < key a)) = true := by
    simp only [Bool.not_eq_true', decide_eq_false_iff_not, Name.lt_iff_toNat_lt]
    omega
  have total (a b : α) : (!decide (key b < key a) || !decide (key a < key b)) = true := by
    simp only [Bool.or_eq_true, Bool.not_eq_true', decide_eq_false_iff_not, Name.lt_iff_toNat_lt]
    omega
  have sorted := List.pairwise_mergeSort trans total xs
  have members := (List.mergeSort_perm xs fun a b => !decide (key b < key a)).trans order
  refine members.eq_of_pairwise (fun a b inXs inYs ab ba => ?_) sorted (ascending.imp fun lt => ?_)
  · refine List.inj_on_of_nodup_map distinct (members.mem_iff.mp inXs) inYs (Name.toNat_inj ?_)
    simp only [Bool.not_eq_true', decide_eq_false_iff_not, Name.lt_iff_toNat_lt] at ab ba
    omega
  · simp only [Bool.not_eq_true', decide_eq_false_iff_not, Name.lt_iff_toNat_lt] at *
    omega

namespace Holds

variable {t : HashTable V} {m : NameMap V}

theorem sorted_eq (holds : t.Holds m) : t.sorted = m.toList :=
  mergeSort_eq_of_perm Prod.fst holds.perm (by
    rw [← List.pairwise_map (f := Prod.fst) (R := (· < ·)), m.map_fst_toList]
    exact m.ascending)

theorem keys_eq (holds : t.Holds m) : t.keys = m.keys := by
  refine mergeSort_eq_of_perm id ?_ m.ascending
  rw [← m.map_fst_toList]
  exact holds.perm.map Prod.fst

end Holds

theorem holds_ofList (t : HashTable V) : t.Holds (.ofList t.bindings) := fun name value => by
  rw [NameMap.get?_ofList t.distinct, lookup_eq_some_iff_mem t.distinct]

/-- The mapping that a table is listed as. -/
def toMap (t : HashTable V) : NameMap V :=
  .ofAscending t.sorted (by
    rw [t.holds_ofList.sorted_eq, NameMap.map_fst_toList]
    exact (NameMap.ofList t.bindings).ascending)

theorem Holds.toMap_eq {t : HashTable V} {m : NameMap V} (holds : t.Holds m) : t.toMap = m :=
  NameMap.ext (by rw [toMap, NameMap.toList_ofAscending, holds.sorted_eq])

theorem Reached.holds {is : List (Insertion V)} {t : HashTable V} (reached : Reached is t) :
    t.Holds (is.foldl Insertion.run .empty) := by
  induction reached with
  | empty =>
    intro name value
    exact ⟨nofun, nofun⟩
  | insert reached order ih =>
    rw [List.foldl_concat]
    exact ih.insert order

end HashTable

end SurfaceTree
