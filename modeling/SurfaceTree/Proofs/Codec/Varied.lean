import Mathlib.Data.List.Perm.Basic
import SurfaceTree.Proofs.Codec.Element

namespace SurfaceTree

namespace Element

/-- The names of the children that hold mappings. -/
def mappingNames : List String := ["builders", "syntax", "truths", "fields", "bindings"]

/-- A mapping is named as one and holds nothing but entries. -/
def IsMapping (x : Element) : Prop := x.name ∈ mappingNames ∧ ∀ y ∈ x.children, y.name = "entry"

/-- A mapping, or the table of definitions. -/
def IsUnordered (x : Element) : Prop := x.IsMapping ∨ x.name = "defs"

mutual
/-- `Varied none x y` says that `y` is `x` with the children of unordered elements in some other
order, at any depth. In `Varied (some key) x y`, one entry of one mapping, which binds `key`, is
there once more besides. -/
inductive Varied : Option Name → Element → Element → Prop where
  | inside {doubled : Option Name} {name : String} {attrs : List (String × String)}
      {children children' : List Element} {text : Option String}
      (each : VariedAll doubled children children') :
      Varied doubled ⟨name, attrs, children, text⟩ ⟨name, attrs, children', text⟩
  | shuffled {doubled : Option Name} {name : String} {attrs : List (String × String)}
      {children between children' : List Element} {text : Option String}
      (unordered : IsUnordered ⟨name, attrs, children, text⟩)
      (each : VariedAll doubled children between) (order : children'.Perm between) :
      Varied doubled ⟨name, attrs, children, text⟩ ⟨name, attrs, children', text⟩
  | doubled {key : Name} {name : String} {attrs : List (String × String)}
      {children between children' : List Element} {entry : Element} {text : Option String}
      (mapping : IsMapping ⟨name, attrs, children, text⟩)
      (each : VariedAll none children between) (member : entry ∈ between)
      (binds : entry.nameAttr "key" = .ok key) (order : children'.Perm (entry :: between)) :
      Varied (some key) ⟨name, attrs, children, text⟩ ⟨name, attrs, children', text⟩

/-- The same child by child. There is no more than one child with a doubled entry in it. -/
inductive VariedAll : Option Name → List Element → List Element → Prop where
  | nil : VariedAll none [] []
  | cons {doubled : Option Name} {x y : Element} {xs ys : List Element} (first : Varied none x y)
      (others : VariedAll doubled xs ys) : VariedAll doubled (x :: xs) (y :: ys)
  | here {key : Name} {x y : Element} {xs ys : List Element} (first : Varied (some key) x y)
      (others : VariedAll none xs ys) : VariedAll (some key) (x :: xs) (y :: ys)
end

/-- An element with its entries and buckets in some other order. -/
def Rearranged (x y : Element) : Prop := Varied none x y

/-- An element with a further copy of an entry that binds `key` in the same mapping, and perhaps in
some other order. -/
def Doubled (key : Name) (x y : Element) : Prop := Varied (some key) x y

/-- What comes of reading a value in which an entry may be there twice. -/
def outcome {α : Type} (doubled : Option Name) (a : α) : Except DecodeError α :=
  match doubled with
  | none => .ok a
  | some key => .error (.duplicateKey key)

/-- Reading any variation of an element gives a value, or the key that is there twice. -/
def Follows {α : Type} (read : Element → Except DecodeError α) (x : Element) (a : α) : Prop :=
  ∀ doubled y, Varied doubled x y → read y = outcome doubled a

variable {α β V W : Type} {doubled : Option Name}

@[simp] theorem outcome_none (a : α) : outcome none a = .ok a := rfl

@[simp] theorem outcome_some (key : Name) (a : α) :
    outcome (some key) a = .error (.duplicateKey key) := rfl

@[simp] theorem map_outcome (f : α → β) (a : α) :
    f <$> outcome doubled a = outcome doubled (f a) := by
  cases doubled <;> rfl

/-- What is read on after an outcome is reached only if nothing is there twice. -/
@[simp] theorem outcome_bind (f : α → β) (a : α) :
    (outcome doubled a >>= fun a => .ok (f a)) = outcome doubled (f a) := by
  cases doubled <;> rfl

/-- Of two values that are read one after the other, the first with a doubled entry is reported. -/
@[simp] theorem outcome_bind_outcome {later : Option Name} (f : α → β) (a : α) :
    (outcome doubled a >>= fun a => outcome later (f a)) = outcome (doubled.or later) (f a) := by
  cases doubled <;> rfl

mutual
/-- An element is a variation of itself. -/
theorem Varied.refl (x : Element) : Varied none x x := by
  obtain ⟨name, attrs, children, text⟩ := x
  exact .inside (VariedAll.refl children)

theorem VariedAll.refl (xs : List Element) : VariedAll none xs xs := by
  cases xs with
  | nil => exact .nil
  | cons x xs => exact .cons (Varied.refl x) (VariedAll.refl xs)
end

/-- A variation keeps the name. -/
theorem Varied.name_eq {x y : Element} (v : Varied doubled x y) : y.name = x.name := by
  cases v <;> rfl

/-- A variation keeps the attributes. -/
theorem Varied.attrs_eq {x y : Element} (v : Varied doubled x y) : y.attrs = x.attrs := by
  cases v <;> rfl

theorem VariedAll.eq_nil {ys : List Element} (v : VariedAll doubled [] ys) :
    ys = [] ∧ doubled = none := by
  cases v
  exact ⟨rfl, rfl⟩

/-- An entry is doubled in the first of some children or in the others, but not in both. -/
theorem VariedAll.split_first {x : Element} {xs ys : List Element}
    (v : VariedAll doubled (x :: xs) ys) :
    ∃ first later y ys', ys = y :: ys' ∧ Varied first x y ∧ VariedAll later xs ys' ∧
      doubled = first.or later ∧ (first = none ∨ later = none) := by
  cases v with
  | cons first others => exact ⟨none, doubled, _, _, rfl, first, others, rfl, .inl rfl⟩
  | here first others => exact ⟨_, none, _, _, rfl, first, others, rfl, .inr rfl⟩

/-- The first of some children is read, or reported if an entry is doubled in it. -/
theorem VariedAll.read_first {read : Element → Except DecodeError α} {x : Element} {a : α}
    {xs ys : List Element} (v : VariedAll doubled (x :: xs) ys) (follows : Follows read x a) :
    ∃ first later y ys', ys = y :: ys' ∧ y.name = x.name ∧ read y = outcome first a ∧
      VariedAll later xs ys' ∧ doubled = first.or later := by
  obtain ⟨first, later, y, ys', split, varied, others, either, -⟩ := v.split_first
  exact ⟨first, later, y, ys', split, varied.name_eq, follows _ _ varied, others, either⟩

theorem VariedAll.read_last {read : Element → Except DecodeError α} {x : Element} {a : α}
    {ys : List Element} (v : VariedAll doubled [x] ys) (follows : Follows read x a) :
    ∃ y, ys = [y] ∧ y.name = x.name ∧ read y = outcome doubled a := by
  obtain ⟨first, later, y, ys', rfl, named, reads, others, rfl⟩ := v.read_first follows
  obtain ⟨rfl, rfl⟩ := others.eq_nil
  exact ⟨y, rfl, named, by rwa [Option.or_none]⟩

variable {name : String} {attrs : List (String × String)} {children : List Element}

/-- Whether elements of this name have their children in an order that matters. -/
def keepsOrder (name : String) : Bool := name != "defs" && !mappingNames.contains name

/-- Order matters in all elements but mappings and definition tables. -/
theorem keepsOrder_iff : keepsOrder name ↔ name ≠ "defs" ∧ name ∉ mappingNames := by
  simp [keepsOrder]

theorem Varied.of_named_text {text : Option String} {y : Element}
    (v : Varied doubled ⟨name, attrs, children, text⟩ y) (named : keepsOrder name) :
    ∃ children', y = ⟨name, attrs, children', text⟩ ∧ VariedAll doubled children children' := by
  obtain ⟨notDefs, notMapping⟩ := keepsOrder_iff.mp named
  cases v with
  | inside each => exact ⟨_, rfl, each⟩
  | shuffled unordered each order =>
    rcases unordered with mapping | defs
    · exact absurd mapping.1 notMapping
    · exact absurd defs notDefs
  | doubled mapping each member binds order => exact absurd mapping.1 notMapping

theorem Varied.of_named {y : Element} (v : Varied doubled (node name attrs children) y)
    (named : keepsOrder name) :
    ∃ children', y = node name attrs children' ∧ VariedAll doubled children children' :=
  v.of_named_text named

/-- An element whose first child is no entry is not a mapping, whatever its name. -/
theorem Varied.of_first {x y : Element} (v : Varied doubled (node name attrs (x :: children)) y)
    (first : x.name ≠ "entry") (named : name != "defs") :
    ∃ children', y = node name attrs children' ∧ VariedAll doubled (x :: children) children' := by
  cases v with
  | inside each => exact ⟨_, rfl, each⟩
  | shuffled unordered each order =>
    rcases unordered with mapping | defs
    · exact absurd (mapping.2 x (List.mem_cons_self ..)) first
    · exact absurd defs (bne_iff_ne.mp named)
  | doubled mapping each member binds order =>
    exact absurd (mapping.2 x (List.mem_cons_self ..)) first

/-- A slot is read from all variations of it if what it holds is. -/
theorem Varied.slot {read : Element → Except DecodeError α} {x y : Element} {a : α}
    (v : Varied doubled (ofSlot name x) y) (follows : Follows read x a)
    (named : keepsOrder name) :
    ∃ x', y = ofSlot name x' ∧ read x' = outcome doubled a := by
  obtain ⟨ys, rfl, each⟩ := v.of_named named
  obtain ⟨x', rfl, -, reads⟩ := each.read_last follows
  exact ⟨x', rfl, reads⟩

/-- The slot that comes first is read, and the others are left. -/
theorem VariedAll.first_slot {read : Element → Except DecodeError α} {x : Element} {a : α}
    {xs ys : List Element} (v : VariedAll doubled (ofSlot name x :: xs) ys)
    (follows : Follows read x a) (named : keepsOrder name) :
    ∃ first later x' ys', ys = ofSlot name x' :: ys' ∧ read x' = outcome first a ∧
      VariedAll later xs ys' ∧ doubled = first.or later := by
  obtain ⟨first, later, y, ys', rfl, varied, others, either, -⟩ := v.split_first
  obtain ⟨x', rfl, reads⟩ := varied.slot follows named
  exact ⟨first, later, x', ys', rfl, reads, others, either⟩

theorem VariedAll.last_slot {read : Element → Except DecodeError α} {x : Element} {a : α}
    {ys : List Element} (v : VariedAll doubled [ofSlot name x] ys) (follows : Follows read x a)
    (named : keepsOrder name) :
    ∃ x', ys = [ofSlot name x'] ∧ read x' = outcome doubled a := by
  obtain ⟨first, later, x', ys', rfl, reads, others, rfl⟩ := v.first_slot follows named
  obtain ⟨rfl, rfl⟩ := others.eq_nil
  exact ⟨x', rfl, by rwa [Option.or_none]⟩

/-- A list is read from all variations of its items if each item is. -/
theorem VariedAll.mapM {read : Element → Except DecodeError α} {write : α → Element} {xs : List α}
    {ys : List Element} (follows : ∀ x ∈ xs, Follows read (write x) x)
    (v : VariedAll doubled (xs.map write) ys) : ys.mapM read = outcome doubled xs := by
  induction xs generalizing doubled ys with
  | nil =>
    obtain ⟨rfl, rfl⟩ := v.eq_nil
    rfl
  | cons x rest ih =>
    obtain ⟨head, tail⟩ := List.forall_mem_cons.mp follows
    obtain ⟨first, later, y, ys, rfl, -, reads, others, rfl⟩ := v.read_first head
    rw [List.mapM_cons, reads, ih tail others]
    simp

theorem Follows.ofSlots {read : Element → Except DecodeError α} {write : α → Element} {xs : List α}
    (named : keepsOrder name) (follows : ∀ x ∈ xs, Follows read (write x) x) :
    Follows (fun y => y.children.mapM read) (ofSlots name (xs.map write)) xs := by
  intro doubled z v
  obtain ⟨ys, rfl, each⟩ := v.of_named named
  exact each.mapM follows

theorem mapM_eq_ok_iff {read : Element → Except DecodeError α} {ys : List Element} {as : List α} :
    ys.mapM read = .ok as ↔ List.Forall₂ (fun y a => read y = .ok a) ys as := by
  induction ys generalizing as with
  | nil => cases as <;> simp
  | cons y rest ih =>
    rw [List.mapM_cons, List.forall₂_cons_left_iff]
    cases read y with
    | error e => simp
    | ok a =>
      cases tail : rest.mapM read with
      | error e => simp [← ih, tail]
      | ok later => simp [← ih, tail, eq_comm]

/-- Items in another order are read as the same values in another order. -/
theorem mapM_of_perm {read : Element → Except DecodeError α} {ys zs : List Element} {as : List α}
    (order : ys.Perm zs) (reads : zs.mapM read = .ok as) :
    ∃ bs, bs.Perm as ∧ ys.mapM read = .ok bs := by
  obtain ⟨bs, each, shuffled⟩ := List.perm_comp_forall₂ order (mapM_eq_ok_iff.mp reads)
  exact ⟨bs, shuffled, mapM_eq_ok_iff.mpr each⟩

/-- If some items fail, and all that fail do so alike, then reading all of them fails in that
way. -/
theorem mapM_eq_error {read : Element → Except DecodeError α} {ys : List Element} {e : DecodeError}
    (known : ∀ y ∈ ys, (∃ a, read y = .ok a) ∨ read y = .error e)
    (fails : ∃ y ∈ ys, read y = .error e) : ys.mapM read = .error e := by
  induction ys with
  | nil => simp at fails
  | cons y rest ih =>
    obtain ⟨first, others⟩ := List.forall_mem_cons.mp known
    rw [List.mapM_cons]
    rcases first with ⟨a, reads⟩ | reads
    · have later : ∃ y ∈ rest, read y = .error e := by simpa [reads] using fails
      simp only [reads, ok_bind, ih others later, error_bind]
    · simp only [reads, error_bind]

/-- Every item is read, other than one in which an entry is doubled. -/
theorem VariedAll.each_known {read : Element → Except DecodeError α} {write : α → Element}
    {xs : List α} {ys : List Element} (follows : ∀ x ∈ xs, Follows read (write x) x)
    (v : VariedAll doubled (xs.map write) ys) :
    ∀ y ∈ ys, (∃ a, read y = .ok a) ∨ ∃ key ∈ doubled, read y = .error (.duplicateKey key) := by
  induction xs generalizing doubled ys with
  | nil =>
    obtain ⟨rfl, rfl⟩ := v.eq_nil
    exact List.forall_mem_nil _
  | cons x rest ih =>
    obtain ⟨head, tail⟩ := List.forall_mem_cons.mp follows
    cases v with
    | cons first others =>
      exact List.forall_mem_cons.mpr ⟨.inl ⟨x, head _ _ first⟩, ih tail others⟩
    | here first others =>
      refine List.forall_mem_cons.mpr ⟨.inr ⟨_, rfl, head _ _ first⟩, fun y member => .inl ?_⟩
      exact (ih tail others y member).resolve_right nofun

theorem exists_of_mapM_eq_error {read : Element → Except DecodeError α} {ys : List Element}
    {e : DecodeError} (fails : ys.mapM read = .error e) : ∃ y ∈ ys, read y = .error e := by
  induction ys with
  | nil => cases fails
  | cons y rest ih =>
    rw [List.mapM_cons] at fails
    cases head : read y with
    | error e' =>
      rw [head] at fails
      cases fails
      exact ⟨y, List.mem_cons_self .., head⟩
    | ok a =>
      cases tail : rest.mapM read with
      | error e' =>
        rw [head, tail, ok_bind, error_bind] at fails
        obtain ⟨z, member, atZ⟩ := ih (tail.trans fails)
        exact ⟨z, List.mem_cons_of_mem _ member, atZ⟩
      | ok later =>
        rw [head, tail] at fails
        cases fails

/-- Shuffled items are read in the order in which they come. -/
theorem VariedAll.mapM_shuffled {read : Element → Except DecodeError α} {write : α → Element}
    {xs : List α} {ys zs : List Element} (follows : ∀ x ∈ xs, Follows read (write x) x)
    (v : VariedAll doubled (xs.map write) zs) (order : ys.Perm zs) :
    ∃ as, as.Perm xs ∧ ys.mapM read = outcome doubled as := by
  cases doubled with
  | none => exact mapM_of_perm order (v.mapM follows)
  | some key =>
    obtain ⟨y, member, fails⟩ := exists_of_mapM_eq_error (v.mapM follows)
    refine ⟨xs, .refl xs, mapM_eq_error (fun z inside => ?_) ⟨y, order.mem_iff.mpr member, fails⟩⟩
    simpa using v.each_known follows z (order.mem_iff.mp inside)

/-- Reads one entry of a mapping. -/
def readEntry (read : Element → Except DecodeError V) (x : Element) :
    Except DecodeError (Name × V) := do
  x.checkName "entry"
  let key ← x.nameAttr "key"
  return (key, ← read (← x.onlyChild))

theorem readEntries_cons (read : Element → Except DecodeError V) (m : NameMap V) (x : Element)
    (rest : List Element) :
    readEntries read m (x :: rest) = readEntry read x >>= fun entry =>
      match m.insertNew? entry.1 entry.2 with
      | some m => readEntries read m rest
      | none => .error (.duplicateKey entry.1) := by
  simp only [readEntry, bind_assoc, pure_eq_ok, ok_bind]
  rfl

/-- Entries are read one group after the other. -/
theorem readEntries_append (read : Element → Except DecodeError V) (m : NameMap V)
    (xs ys : List Element) :
    readEntries read m (xs ++ ys) = readEntries read m xs >>= fun m => readEntries read m ys := by
  induction xs generalizing m with
  | nil => rfl
  | cons x rest ih =>
    rw [List.cons_append, readEntries_cons, readEntries_cons, bind_assoc]
    refine bind_congr fun entry => ?_
    cases m.insertNew? entry.1 entry.2 with
    | none => rfl
    | some m => exact ih m

/-- An entry that can be read has a key. -/
theorem nameAttr_of_readEntry {read : Element → Except DecodeError V} {x : Element}
    {entry : Name × V} (reads : readEntry read x = .ok entry) : x.nameAttr "key" = .ok entry.1 := by
  obtain ⟨_, -, reads⟩ := bind_eq_ok.mp reads
  obtain ⟨key, atKey, reads⟩ := bind_eq_ok.mp reads
  obtain ⟨y, -, reads⟩ := bind_eq_ok.mp reads
  obtain ⟨value, -, reads⟩ := bind_eq_ok.mp reads
  cases reads
  exact atKey

/-- Over distinct keys, entries are read one by one. -/
theorem readEntries_of_distinct {read : Element → Except DecodeError V} {xs : List Element}
    (distinct : (xs.map fun x => x.nameAttr "key").Nodup) (m : NameMap V)
    (fresh : ∀ x ∈ xs, ∀ key, x.nameAttr "key" = .ok key → m.contains key = false) :
    readEntries read m xs = xs.mapM (readEntry read) >>= fun entries =>
      .ok (entries.foldl (fun m entry => m.insert entry.1 entry.2) m) := by
  induction xs generalizing m with
  | nil => rfl
  | cons x rest ih =>
    obtain ⟨first, others⟩ := List.forall_mem_cons.mp fresh
    rw [List.map_cons, List.nodup_cons] at distinct
    rw [readEntries_cons, List.mapM_cons, bind_assoc]
    cases reads : readEntry read x with
    | error e => rfl
    | ok entry =>
      have key := nameAttr_of_readEntry reads
      have inserted : m.insertNew? entry.1 entry.2 = some (m.insert entry.1 entry.2) := by
        rw [NameMap.insertNew?, first _ key]
        rfl
      have apart : ∀ y ∈ rest, ∀ k, y.nameAttr "key" = .ok k →
          (m.insert entry.1 entry.2).contains k = false := by
        intro y member k atKey
        have ne : k ≠ entry.1 := by
          rintro rfl
          exact distinct.1 (List.mem_map.mpr ⟨y, member, atKey.trans key.symm⟩)
        rw [NameMap.contains_insert, decide_eq_false ne, others y member k atKey]
        rfl
      simp only [ok_bind, inserted, ih distinct.2 _ apart, bind_assoc, pure_eq_ok, List.foldl_cons]

theorem Varied.nameAttr_eq {x y : Element} (v : Varied doubled x y) (key : String) :
    y.nameAttr key = x.nameAttr key := by
  simp only [nameAttr, attrAs, attr, v.name_eq, v.attrs_eq]

theorem VariedAll.map_nameAttr {xs ys : List Element} (v : VariedAll doubled xs ys) (key : String) :
    ys.map (fun y => y.nameAttr key) = xs.map fun x => x.nameAttr key := by
  induction xs generalizing doubled ys with
  | nil =>
    obtain ⟨rfl, rfl⟩ := v.eq_nil
    rfl
  | cons x rest ih =>
    cases v with
    | cons first others => rw [List.map_cons, List.map_cons, first.nameAttr_eq, ih others]
    | here first others => rw [List.map_cons, List.map_cons, first.nameAttr_eq, ih others]

/-- An entry is read from all variations of it if its value is. -/
theorem Follows.ofEntry {read : Element → Except DecodeError V} {x : Element} {value : V}
    (key : Name) (follows : Follows read x value) :
    Follows (readEntry read) (ofEntry key x) (key, value) := by
  intro doubled z v
  obtain ⟨ys, rfl, each⟩ := v.of_named rfl
  obtain ⟨y, rfl, -, reads⟩ := each.read_last follows
  simp [readEntry, reads]

section Mapping

variable {read : Element → Except DecodeError V} {m : NameMap V} {xs ys : List Element}

/-- Shuffled entries make up the same mapping. -/
theorem readEntries_shuffled (write : V → Element)
    (follows : ∀ entry ∈ m.toList, Follows read (write entry.2) entry.2)
    (v : VariedAll doubled (m.toList.map fun entry => ofEntry entry.1 (write entry.2)) xs)
    (order : ys.Perm xs) : readEntries read .empty ys = outcome doubled m := by
  have keys : xs.map (fun x => x.nameAttr "key") = m.keys.map Except.ok := by
    rw [v.map_nameAttr, ← m.map_fst_toList, List.map_map, List.map_map]
    exact List.map_congr_left fun entry _ => nameAttr_cons entry.1
  have distinct : (ys.map fun x => x.nameAttr "key").Nodup := by
    rw [(order.map _).nodup_iff, keys]
    exact m.distinct_keys.map fun a b same => Except.ok.inj same
  obtain ⟨entries, shuffled, reads⟩ :=
    v.mapM_shuffled (fun entry member => (follows entry member).ofEntry entry.1) order
  rw [readEntries_of_distinct distinct .empty (fun _ _ _ _ => rfl), reads]
  cases doubled with
  | some key => rfl
  | none => exact congrArg Except.ok (NameMap.ofList_of_perm shuffled)

/-- Every key of the entries that were read is bound. -/
theorem contains_of_readEntries {m m' : NameMap V} (reads : readEntries read m xs = .ok m')
    {key : Name} (bound : m.contains key ∨ ∃ x ∈ xs, x.nameAttr "key" = .ok key) :
    m'.contains key := by
  induction xs generalizing m with
  | nil =>
    cases reads
    simpa using bound
  | cons x rest ih =>
    rw [readEntries_cons] at reads
    obtain ⟨entry, readHere, reads⟩ := bind_eq_ok.mp reads
    cases fresh : m.contains entry.1 with
    | true => simp [NameMap.insertNew?, fresh] at reads
    | false =>
      simp only [NameMap.insertNew?, fresh, Bool.false_eq_true, if_false] at reads
      refine ih reads ?_
      rcases bound with old | ⟨y, member, atKey⟩
      · exact .inl (by simp [NameMap.contains_insert, old])
      · rcases List.mem_cons.mp member with rfl | later
        · cases (nameAttr_of_readEntry readHere).symm.trans atKey
          exact .inl (by simp [NameMap.contains_insert])
        · exact .inr ⟨y, later, atKey⟩

/-- What is there once more than in another list has another occurrence before its last one. -/
theorem exists_second {x : Element} (member : x ∈ xs) (order : ys.Perm (x :: xs)) :
    ∃ before after, ys = before ++ x :: after ∧ x ∈ before ∧ (before ++ after).Perm xs := by
  obtain ⟨front, back, rfl, fresh⟩ :=
    List.eq_append_cons_of_mem (order.mem_iff.mpr (List.mem_cons_self ..))
  have others : (front ++ back).Perm xs := (List.perm_middle.symm.trans order).cons_inv
  have again : x ∈ back := by
    simpa [fresh] using others.mem_iff.mpr member
  obtain ⟨between, after, rfl⟩ := List.append_of_mem again
  refine ⟨front ++ x :: between, after, by simp, by simp, .trans ?_ others⟩
  rw [List.append_assoc, List.cons_append]
  exact List.Perm.append_left front List.perm_middle.symm

/-- An entry that is there once more is reported, wherever it stands. -/
theorem readEntries_doubled (write : V → Element) {x : Element} {key : Name}
    (follows : ∀ entry ∈ m.toList, Follows read (write entry.2) entry.2)
    (v : VariedAll none (m.toList.map fun entry => ofEntry entry.1 (write entry.2)) xs)
    (member : x ∈ xs) (binds : x.nameAttr "key" = .ok key) (order : ys.Perm (x :: xs)) :
    readEntries read .empty ys = .error (.duplicateKey key) := by
  obtain ⟨before, after, rfl, inside, others⟩ := exists_second member order
  have once := readEntries_shuffled write follows v others
  rw [readEntries_append] at once
  obtain ⟨m', reads, -⟩ := bind_eq_ok.mp once
  have bound : m'.contains key := contains_of_readEntries reads (.inr ⟨x, inside, binds⟩)
  have known := v.each_known (fun entry member => (follows entry member).ofEntry entry.1) x member
  obtain ⟨entry, readHere⟩ := known.resolve_right nofun
  cases (nameAttr_of_readEntry readHere).symm.trans binds
  rw [readEntries_append, reads, ok_bind, readEntries_cons, readHere, ok_bind, NameMap.insertNew?,
    if_pos bound]

end Mapping

/-- A mapping is read from its entries, whatever their order. -/
theorem Follows.ofMapping {read : Element → Except DecodeError V} {toElement : W → Element}
    {write : V → W} {m : NameMap V}
    (follows : ∀ entry ∈ m.toList, Follows read (toElement (write entry.2)) entry.2) :
    Follows (fun y => readEntries read .empty y.children) (ofMapping name toElement (m.map write))
      m := by
  intro doubled y v
  simp only [Element.ofMapping, NameMap.toList_map, List.map_map, Function.comp_def] at v
  cases v with
  | inside each => exact readEntries_shuffled (toElement ∘ write) follows each (.refl _)
  | shuffled unordered each order => exact readEntries_shuffled (toElement ∘ write) follows each order
  | doubled mapping each member binds order =>
    exact readEntries_doubled (toElement ∘ write) follows each member binds order

end Element

end SurfaceTree
