import SurfaceTree.Name.Row

namespace SurfaceTree

/-- A finite mapping from names, listed by ascending key. -/
structure NameMap (V : Type) where
  keys : List Name
  ascending : keys.Pairwise (· < ·)
  row : Row V keys

namespace NameMap

variable {V W : Type}

/-- The bindings by ascending key. -/
def toList (m : NameMap V) : List (Name × V) := m.row.toList

/-- A mapping over the same keys. -/
def withRow (m : NameMap V) (row : Row W m.keys) : NameMap W := ⟨m.keys, m.ascending, row⟩

/-- The mapping with these bindings, which are already sorted. -/
def ofAscending (entries : List (Name × V)) (ascending : (entries.map Prod.fst).Pairwise (· < ·)) :
    NameMap V :=
  ⟨entries.map Prod.fst, ascending, .ofList entries⟩

def empty : NameMap V := ⟨[], .nil, .nil⟩

def size (m : NameMap V) : Nat := m.keys.length

def isEmpty (m : NameMap V) : Bool := m.keys.isEmpty

/-- Whether a name is bound. -/
def contains (m : NameMap V) (key : Name) : Bool := m.keys.contains key

/-- What a name is bound to. -/
def get? (m : NameMap V) (key : Name) : Option V := m.toList.lookup key

/-- Puts a binding where its key belongs, in place of one with the same key. -/
def place (key : Name) (value : V) : List (Name × V) → List (Name × V)
  | [] => [(key, value)]
  | (k, v) :: rest =>
    if key < k then (key, value) :: (k, v) :: rest
    else if key = k then (key, value) :: rest
    else (k, v) :: place key value rest

/-- Placing a binding brings in no key but its own. -/
theorem mem_keys_place {key : Name} {value : V} {entries : List (Name × V)} {k : Name}
    (mem : k ∈ (place key value entries).map Prod.fst) : k = key ∨ k ∈ entries.map Prod.fst := by
  induction entries with
  | nil => simpa [place] using mem
  | cons entry rest ih =>
    simp only [place] at mem
    split at mem
    · simpa using mem
    · split at mem
      · rcases List.mem_cons.mp mem with same | later
        · exact .inl same
        · exact .inr (List.mem_cons_of_mem _ later)
      · rcases List.mem_cons.mp mem with same | later
        · exact .inr (List.mem_cons.mpr (.inl same))
        · exact (ih later).imp id (List.mem_cons_of_mem _)

/-- Placing a binding keeps the keys in ascending order. -/
theorem ascending_place {entries : List (Name × V)} (key : Name) (value : V)
    (ascending : (entries.map Prod.fst).Pairwise (· < ·)) :
    ((place key value entries).map Prod.fst).Pairwise (· < ·) := by
  induction entries with
  | nil => simp [place]
  | cons entry rest ih =>
    simp only [List.map_cons, List.pairwise_cons] at ascending
    obtain ⟨above, sorted⟩ := ascending
    simp only [place]
    split
    · next lt =>
      simp only [List.map_cons, List.pairwise_cons, List.mem_cons]
      refine ⟨?_, above, sorted⟩
      rintro k (rfl | mem)
      · exact lt
      · exact Name.lt_trans lt (above k mem)
    · split
      · next same =>
        subst same
        exact List.pairwise_cons.mpr ⟨above, sorted⟩
      · next notLt ne =>
        refine List.pairwise_cons.mpr ⟨fun k mem => ?_, ih sorted⟩
        rcases mem_keys_place mem with rfl | mem
        · exact Name.lt_of_not_lt_of_ne notLt ne
        · exact above k mem

/-- Binds a key, replacing what it was bound to. -/
def insert (m : NameMap V) (key : Name) (value : V) : NameMap V :=
  ofAscending (place key value m.toList)
    (ascending_place key value ((Row.map_fst_toList m.row).symm ▸ m.ascending))

/-- Binds a key that is not bound yet. -/
def insertNew? (m : NameMap V) (key : Name) (value : V) : Option (NameMap V) :=
  if m.contains key then none else some (m.insert key value)

/-- The mapping of a list of bindings, of which the later ones win. -/
def ofList (entries : List (Name × V)) : NameMap V :=
  entries.foldl (fun m entry => m.insert entry.1 entry.2) empty

/-- Replaces the values by ascending key; the keys stay. -/
def traverse {m : Type → Type} [Monad m] (f : V → m W) (map : NameMap V) : m (NameMap W) := do
  return map.withRow (← map.row.traverse f)

/-- The bindings between braces, as in `{Name(2): 2, Name(9): 1}`. -/
def text (value : V → String) (m : NameMap V) : String :=
  "\x7b" ++ ", ".intercalate (m.toList.map fun (key, v) => key.label ++ ": " ++ value v) ++ "\x7d"

/-- The mapping with its values replaced. -/
def map (f : V → W) (m : NameMap V) : NameMap W := m.withRow (m.row.map f)

@[simp] theorem toList_ofAscending (entries : List (Name × V))
    (ascending : (entries.map Prod.fst).Pairwise (· < ·)) :
    (ofAscending entries ascending).toList = entries :=
  Row.toList_ofList entries

@[simp] theorem map_fst_toList (m : NameMap V) : m.toList.map Prod.fst = m.keys :=
  Row.map_fst_toList m.row

@[simp] theorem toList_insert (m : NameMap V) (key : Name) (value : V) :
    (m.insert key value).toList = place key value m.toList := by
  simp [insert]

/-- A mapping is determined by its listing. -/
theorem ext {a b : NameMap V} (same : a.toList = b.toList) : a = b := by
  obtain ⟨keys, ascending, row⟩ := a
  obtain ⟨keys', ascending', row'⟩ := b
  have sameKeys : keys = keys' := by
    have listed := congrArg (List.map Prod.fst) same
    simpa using listed
  subst sameKeys
  cases Row.toList_inj (show row.toList = row'.toList from same)
  rfl

end NameMap

end SurfaceTree
