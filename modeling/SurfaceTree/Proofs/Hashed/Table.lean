import SurfaceTree.Codec.Encode
import SurfaceTree.Proofs.FieldTable
import SurfaceTree.Proofs.HashTable
import SurfaceTree.Proofs.Traversal.Bare

namespace SurfaceTree

/-- Items may be rewritten on both sides before lists are compared. -/
theorem compareLists_map_both {A A' B B' : Type} {item : A → B → Ordering}
    {item' : A' → B' → Ordering} {f : A → A'} {g : B → B'}
    (agree : ∀ a b, item a b = item' (f a) (g b)) (as : List A) (bs : List B) :
    compareLists item as bs = compareLists item' (as.map f) (bs.map g) := by
  induction as generalizing bs with
  | nil => cases bs <;> rfl
  | cons a rest ih =>
    cases bs with
    | nil => rfl
    | cons b rest' => simp only [List.map_cons, compareLists, agree, ih]

namespace Row

variable {V W : Type}

/-- Entries whose names are those of the row are read back as they were given. -/
theorem toList_ofEntries {keys : List Name} {entries : List (Name × V)}
    (same : entries.map Prod.fst = keys) : (ofEntries keys entries same).toList = entries := by
  subst same
  exact toList_ofList entries

end Row

namespace HashTable

variable {V W : Type}

/-- A table holds what the mapping of its listing holds. -/
theorem holds_toMap (t : HashTable V) : t.Holds t.toMap := by
  rw [t.holds_ofList.toMap_eq]
  exact t.holds_ofList

theorem distinct_sorted (t : HashTable V) : (t.sorted.map Prod.fst).Nodup := by
  rw [t.holds_ofList.sorted_eq]
  exact (NameMap.ofList t.bindings).distinct_toList

/-- The mapping of what is made of the values of a table. -/
def plain (f : V → W) (t : HashTable V) : NameMap W := t.toMap.map f

/-- The mapping lists what the table lists, with what is made of each value. -/
theorem toList_plain (f : V → W) (t : HashTable V) :
    (t.plain f).toList = t.sorted.map fun entry => (entry.1, f entry.2) := by
  rw [plain, NameMap.toList_map, toMap, NameMap.toList_ofAscending]

/-- What is made of the bindings of a table can be made of the bindings of its listing. -/
theorem map_sorted {U : Type} {g : Name × V → U} {g' : Name × W → U} {f : V → W}
    (agree : ∀ name v, g (name, v) = g' (name, f v)) (t : HashTable V) :
    t.sorted.map g = (t.plain f).toList.map g' := by
  rw [toList_plain, List.map_map]
  exact List.map_congr_left fun entry _ => agree entry.1 entry.2

/-- A lookup in the mapping is a lookup in the table, so the native order of the table cannot be
seen in it. -/
theorem get?_plain (f : V → W) (t : HashTable V) (name : Name) :
    (t.plain f).get? name = (t.get? name).map f := by
  rw [plain, NameMap.get?_map, t.holds_toMap.get?_eq]

theorem size_plain (f : V → W) (t : HashTable V) : (t.plain f).size = t.size := by
  rw [t.holds_toMap.size_eq]
  rfl

theorem plain_map {U : Type} (f : V → W) (g : W → U) (t : HashTable V) :
    (t.plain f).map g = t.plain fun v => g (f v) := NameMap.map_map f g t.toMap

/-- Making nothing of the values gives the mapping of the listing itself. -/
theorem plain_id (t : HashTable V) : (t.plain fun v => v) = t.toMap := by
  refine NameMap.ext ?_
  rw [plain, NameMap.toList_map]
  exact List.map_id _

/-- Two tables bind the same names, each to values that are alike. -/
def Alike (alike : V → W → Prop) (t : HashTable V) (t' : HashTable W) : Prop :=
  ∀ name, Option.Rel alike (t.get? name) (t'.get? name)

/-- The bindings by ascending name between braces. -/
def text (value : V → String) (t : HashTable V) : String :=
  "\x7b" ++ ", ".intercalate (t.sorted.map fun (key, v) => key.label ++ ": " ++ value v) ++ "\x7d"

/-- Tables list the same if and only if they bind the same, however they came to it. -/
theorem plain_eq_iff {f : V → W} {alike : V → V → Prop} (values : ∀ v v', f v = f v' ↔ alike v v')
    (t t' : HashTable V) : t.plain f = t'.plain f ↔ t.Alike alike t' := by
  have bound (v v' : Option V) : v.map f = v'.map f ↔ Option.Rel alike v v' := by
    cases v <;> cases v' <;> simp [values]
  refine ⟨fun same name => ?_, fun same => NameMap.ext_get? fun name => ?_⟩
  · rw [← bound, ← get?_plain, ← get?_plain, same]
  · rw [get?_plain, get?_plain, bound]
    exact same name

/-- Gives up the binding of a name. -/
def erase (t : HashTable V) (name : Name) : HashTable V :=
  ⟨t.bindings.filter (·.1 ≠ name), t.distinct.sublist (List.filter_sublist.map Prod.fst)⟩

/-- Moves the values of some names out of a table, passing over names that are not bound. -/
def takeAll : List Name → HashTable V → List (Name × V)
  | [], _ => []
  | name :: rest, t =>
    match t.get? name with
    | some value => (name, value) :: takeAll rest (t.erase name)
    | none => takeAll rest (t.erase name)

/-- Giving up a name in a table is giving it up in the mapping. -/
theorem Holds.erase {t : HashTable V} {m : NameMap V} (holds : t.Holds m) (name : Name) :
    (t.erase name).Holds (m.erase name) := by
  intro key value
  rw [HashTable.erase, List.mem_filter, holds, NameMap.get?_erase]
  by_cases here : key = name
  · simp [here]
  · simp [here]

/-- Moving values out by name gives the same from a table and from a mapping that it holds. -/
theorem Holds.takeAll_eq {t : HashTable V} {m : NameMap V} (holds : t.Holds m) (names : List Name) :
    takeAll names t = NameMap.takeAll names m := by
  induction names generalizing t m with
  | nil => rfl
  | cons name rest ih =>
    have later := ih (holds.erase name)
    rw [takeAll, NameMap.takeAll, holds.get?_eq]
    cases m.get? name with
    | none => exact later
    | some value => exact congrArg ((name, value) :: ·) later

/-- The table that is left when the values of a row have been bound one after the other, each in
front of those before it. -/
def ofRow {keys : List Name} (distinct : keys.Nodup) (row : Row V keys) : HashTable V :=
  ⟨row.toList.reverse, by
    rw [List.map_reverse, List.nodup_reverse, row.map_fst_toList]
    exact distinct⟩

/-- A table that was filled from a row binds what the row does, although it keeps it in another
order. -/
theorem get?_ofRow {keys : List Name} (distinct : keys.Nodup) (row : Row V keys) (name : Name) :
    (ofRow distinct row).get? name = row.toList.lookup name := by
  have distinctRow : (row.toList.map Prod.fst).Nodup := by rwa [row.map_fst_toList]
  refine Option.ext fun value => ?_
  rw [get?, lookup_eq_some_iff_mem (ofRow distinct row).distinct, ofRow, List.mem_reverse,
    lookup_eq_some_iff_mem distinctRow]

/-- Tables by their listings. -/
def compare (value : V → W → Ordering) (a : HashTable V) (b : HashTable W) : Ordering :=
  compareLists (compareBindings value) a.sorted b.sorted

/-- Comparing two tables is comparing their mappings if the values agree. -/
theorem compare_plain {V' W' : Type} {value : V → W → Ordering} {value' : V' → W' → Ordering}
    {f : V → V'} {g : W → W'} (agree : ∀ v w, value v w = value' (f v) (g w)) (a : HashTable V)
    (b : HashTable W) : a.compare value b = (a.plain f).compare value' (b.plain g) := by
  rw [NameMap.compare, toList_plain, toList_plain, compare]
  refine compareLists_map_both (fun x y => ?_) ..
  simp only [compareBindings, agree]

/-- The words of a table: its size and then its bindings by ascending name. -/
def words (value : V → List UInt64) (t : HashTable V) : List UInt64 :=
  .ofNat t.size :: t.sorted.flatMap fun (name, v) => name.words ++ value v

/-- The words of a table are those of its mapping if the values agree. -/
theorem words_plain {value : V → List UInt64} {value' : W → List UInt64} {f : V → W}
    (agree : ∀ v, value v = value' (f v)) (t : HashTable V) :
    t.words value = (t.plain f).words value' := by
  simp only [words, NameMap.words, size_plain, toList_plain, List.flatMap_map, agree]

/-- A child that holds a table by ascending name. -/
def toElement (name : String) (value : V → Element) (t : HashTable V) : Element :=
  .node name [] (t.sorted.map fun (key, v) => .ofEntry key (value v))

/-- The child of a table is that of its mapping if the values agree. -/
theorem toElement_plain (name : String) {value : V → Element} {value' : W → Element} {f : V → W}
    (agree : ∀ v, value v = value' (f v)) (t : HashTable V) :
    t.toElement name value = .ofMapping name value' (t.plain f) :=
  congrArg (Element.node name [])
    (t.map_sorted fun key v => congrArg (Element.ofEntry key) (agree v))

variable {m : Type → Type} [Monad m]

/-- Rebuilds a table, taking its values by ascending name. -/
def traverse (f : V → m W) (t : HashTable V) : m (HashTable W) := do
  return ofRow t.distinct_sorted (← (Row.ofList t.sorted).traverse f)

/-- The mapping of a table that was filled from an ascending row is that row. -/
theorem plain_ofRow {keys : List Name} (ascending : keys.Pairwise (· < ·)) (distinct : keys.Nodup)
    (f : V → W) (row : Row V keys) :
    (ofRow distinct row).plain f = ⟨keys, ascending, row.map f⟩ := by
  refine NameMap.ext_get? fun name => ?_
  rw [get?_plain, get?_ofRow]
  exact (NameMap.get?_map f ⟨keys, ascending, row⟩ name).symm

/-- Rebuilding a table does what rebuilding its listing does. -/
theorem traverse_plain [LawfulMonad m] {V' W' : Type} {f : V → m W} {g : V' → m W'} {before : V → V'}
    {after : W → W'} (agree : ∀ v, after <$> f v = g (before v)) (t : HashTable V) :
    plain after <$> t.traverse f = (t.plain before).traverse g := by
  have ascending : (t.sorted.map Prod.fst).Pairwise (· < ·) := (t.plain before).ascending
  have rebuilt : (t.plain before).traverse g
      = (fun row => ⟨_, ascending, row⟩) <$> ((Row.ofList t.sorted).map before).traverse g :=
    bind_pure_comp ..
  rw [rebuilt, ← Row.map_traverse_comm _ fun entry _ => agree entry.2, traverse, bind_pure_comp,
    Functor.map_map, Functor.map_map]
  exact congrArg (· <$> (Row.ofList t.sorted).traverse f)
    (funext fun row => plain_ofRow ascending t.distinct_sorted after row)

/-- Rebuilding a table and then listing it is listing it and then rebuilding the mapping. -/
theorem toMap_traverse [LawfulMonad m] (f : V → m W) (t : HashTable V) :
    toMap <$> t.traverse f = t.toMap.traverse f := by
  have listed : (plain fun w => w) <$> t.traverse f = (t.plain fun v => v).traverse f :=
    t.traverse_plain fun v => id_map' (f v)
  rwa [funext plain_id, plain_id] at listed

end HashTable

end SurfaceTree
