import SurfaceTree.Proofs.Codec.Scalars
import SurfaceTree.Proofs.Except
import SurfaceTree.Proofs.Keyword
import SurfaceTree.Proofs.Traversal.Map

namespace SurfaceTree

variable {α V W : Type}

/-- What comes of reading something that may hold foreign parts: a value, or the one error that
every foreign part is reported by. -/
def verdict (fault : DecodeError) (foreign : Bool) (a : α) : Except DecodeError α :=
  if foreign then .error fault else .ok a

section Verdict

variable {β γ : Type} {fault : DecodeError} {foreign : Bool}

@[simp] theorem verdict_false (a : α) : verdict fault false a = .ok a := rfl

@[simp] theorem verdict_true (a : α) : verdict fault true a = .error fault := rfl

@[simp] theorem map_verdict (f : α → β) (a : α) :
    f <$> verdict fault foreign a = verdict fault foreign (f a) := by
  cases foreign <;> rfl

/-- What is read on after a verdict is reached only where nothing is foreign. -/
@[simp] theorem verdict_bind_ok (f : α → β) (a : α) :
    (verdict fault foreign a >>= fun a => .ok (f a)) = verdict fault foreign (f a) := by
  cases foreign <;> rfl

/-- Of two parts that are read one after the other, neither may be foreign. -/
@[simp] theorem verdict_bind_verdict {later : Bool} (f : α → β) (a : α) :
    (verdict fault foreign a >>= fun a => verdict fault later (f a))
      = verdict fault (foreign || later) (f a) := by
  cases foreign <;> rfl

/-- Reading a list of written items gives a value for each, unless one of them is foreign. -/
theorem mapM_verdict {write : α → β} {read : β → Except DecodeError γ} {foreign : α → Bool}
    {value : α → γ} {xs : List α}
    (reads : ∀ x ∈ xs, read (write x) = verdict fault (foreign x) (value x)) :
    (xs.map write).mapM read = verdict fault (xs.any foreign) (xs.map value) := by
  induction xs with
  | nil => rfl
  | cons x rest ih =>
    obtain ⟨first, others⟩ := List.forall_mem_cons.mp reads
    simp only [List.map_cons, List.mapM_cons, first, ih others, pure_eq_ok, verdict_bind_ok,
      verdict_bind_verdict, List.any_cons]

end Verdict

/-- Reading a list of written items gives the items, if it does for each of them. -/
theorem mapM_written {ε β : Type} {write : α → β} {read : β → Except ε α} {xs : List α}
    (reads : ∀ x ∈ xs, read (write x) = .ok x) : (xs.map write).mapM read = .ok xs := by
  induction xs with
  | nil => rfl
  | cons x rest ih =>
    obtain ⟨first, others⟩ := List.forall_mem_cons.mp reads
    simp only [List.map_cons, List.mapM_cons, first, ih others, ok_bind, pure_eq_ok]

namespace Element

variable {name key : String} {attrs : List (String × String)} {children : List Element}

@[simp] theorem name_node : (node name attrs children).name = name := rfl

@[simp] theorem name_ofSlot (x : Element) : (ofSlot name x).name = name := rfl

@[simp] theorem name_ofSlots (xs : List Element) : (ofSlots name xs).name = name := rfl

@[simp] theorem name_ofMapping (encode : V → Element) (m : NameMap V) :
    (ofMapping name encode m).name = name := rfl

@[simp] theorem children_node : (node name attrs children).children = children := rfl

@[simp] theorem children_ofSlots (xs : List Element) : (ofSlots name xs).children = xs := rfl

@[simp] theorem attrs_node : (node name attrs children).attrs = attrs := rfl

@[simp] theorem onlyChild_node (x : Element) : (node name attrs [x]).onlyChild = .ok x := rfl

/-- A slot holds nothing but what was put into it. -/
@[simp] theorem onlyChild_ofSlot (x : Element) : (ofSlot name x).onlyChild = .ok x := rfl

@[simp] theorem checkName_node : (node name attrs children).checkName name = .ok () :=
  if_pos rfl

/-- Children are passed over until one has the name that is asked for. -/
@[simp] theorem child?_cons (x : Element) :
    (node name attrs (x :: children)).child? key
      = if x.name = key then some x else (node name attrs children).child? key := by
  by_cases same : x.name = key
  · rw [if_pos same]
    exact List.find?_cons_of_pos (beq_iff_eq.mpr same)
  · rw [if_neg same]
    exact List.find?_cons_of_neg (by simpa using same)

@[simp] theorem child_cons (x : Element) :
    (node name attrs (x :: children)).child key
      = if x.name = key then .ok x else (node name attrs children).child key := by
  simp only [child, child?_cons, name_node]
  by_cases same : x.name = key
  · simp only [if_pos same]
  · simp only [if_neg same]

/-- Attributes are passed over until one has the key that is asked for. -/
@[simp] theorem attr_cons (attr : String × String) :
    (node name (attr :: attrs) children).attr key
      = if key = attr.1 then .ok attr.2 else (node name attrs children).attr key := by
  simp only [Element.attr, node, lookup_cons_eq]
  by_cases same : key = attr.1
  · simp only [if_pos same]
  · simp only [if_neg same]

@[simp] theorem nameAttr_cons (n : Name) :
    (node name ((key, toString n.raw) :: attrs) children).nameAttr key = .ok n := by
  simp only [nameAttr, attrAs, attr_cons, if_true, ok_bind, Digits.word32?_toString,
    Option.map_some]

@[simp] theorem boolAttr_cons (b : Bool) :
    (node name ((key, toString b) :: attrs) children).boolAttr key = .ok b := by
  simp only [boolAttr, attrAs, attr_cons, if_true, ok_bind]
  cases b <;> rfl

@[simp] theorem wordAttr_cons (n : UInt32) :
    (node name ((key, toString n) :: attrs) children).attrAs key Digits.word32? = .ok n := by
  simp only [attrAs, attr_cons, if_true, ok_bind, Digits.word32?_toString]

/-- A keyword is read back from its spelling. -/
@[simp] theorem keywordAttr_cons [Keyword α] [LawfulKeyword α] (a : α) :
    (node name ((key, Keyword.spelling a) :: attrs) children).keywordAttr key = .ok a := by
  simp only [keywordAttr, attrAs, attr_cons, if_true, ok_bind, Keyword.ofSpelling?_spelling]

/-- An attribute of another key is passed over. -/
theorem attrAs_skip {attr : String × String} {read : String → Option α} (apart : key ≠ attr.1) :
    (node name (attr :: attrs) children).attrAs key read
      = (node name attrs children).attrAs key read := by
  simp only [attrAs, attr_cons, if_neg apart, name_node]

@[simp] theorem nameAttr_skip {attr : String × String} (apart : key ≠ attr.1) :
    (node name (attr :: attrs) children).nameAttr key = (node name attrs children).nameAttr key :=
  attrAs_skip apart

@[simp] theorem wordAttr_skip {attr : String × String} (apart : key ≠ attr.1) :
    (node name (attr :: attrs) children).attrAs key Digits.word32?
      = (node name attrs children).attrAs key Digits.word32? :=
  attrAs_skip apart

@[simp] theorem keywordAttr_skip [Keyword α] {attr : String × String} (apart : key ≠ attr.1) :
    (node name (attr :: attrs) children).keywordAttr key
      = (node name attrs children).keywordAttr (α := α) key :=
  attrAs_skip apart

/-- The first child of a name is the slot of that name. -/
@[simp] theorem slot_cons (x : Element) :
    (node name attrs (x :: children)).slot key
      = if x.name = key then x.onlyChild else (node name attrs children).slot key := by
  simp only [slot, child_cons]
  by_cases same : x.name = key
  · simp only [if_pos same, ok_bind]
  · simp only [if_neg same]

/-- A slot for a list is read child by child. -/
@[simp] theorem slots_cons (read : Element → Except DecodeError α) (x : Element) :
    (node name attrs (x :: children)).slots key read
      = if x.name = key then x.children.mapM read
        else (node name attrs children).slots key read := by
  simp only [slots, child_cons]
  by_cases same : x.name = key
  · simp only [if_pos same, ok_bind]
  · simp only [if_neg same]

@[simp] theorem slot?_cons (read : Element → Except DecodeError α) (x : Element) :
    (node name attrs (x :: children)).slot? key read
      = if x.name = key then some <$> (x.onlyChild >>= read)
        else (node name attrs children).slot? key read := by
  simp only [slot?, child?_cons]
  by_cases same : x.name = key
  · simp only [if_pos same]
    cases x.onlyChild with
    | error e => rfl
    | ok y =>
      simp only [ok_bind]
      cases read y <;> rfl
  · simp only [if_neg same]

section Mapping

variable {U : Type} {fault : DecodeError} {read : Element → Except DecodeError V}

/-- Entries by ascending key are read one after another to the end of a mapping below them. -/
theorem readEntries_ofEntry (write : U → Element) {foreign : U → Bool} {value : U → V}
    (m : NameMap V) (entries : List (Name × U))
    (ascending : (m.keys ++ entries.map Prod.fst).Pairwise (· < ·))
    (reads : ∀ name u, (name, u) ∈ entries →
      read (write u) = verdict fault (foreign u) (value u)) :
    ∃ m', readEntries read m (entries.map fun entry => ofEntry entry.1 (write entry.2))
        = verdict fault (entries.any fun entry => foreign entry.2) m' ∧
      m'.toList = m.toList ++ entries.map fun entry => (entry.1, value entry.2) := by
  induction entries generalizing m with
  | nil => exact ⟨m, rfl, (List.append_nil _).symm⟩
  | cons entry rest ih =>
    have first := reads entry.1 entry.2 (List.mem_cons_self ..)
    have others := fun name u member => reads name u (List.mem_cons_of_mem _ member)
    have above : ∀ bound ∈ m.toList, bound.1 < entry.1 := by
      rw [List.pairwise_append, ← m.map_fst_toList] at ascending
      exact fun bound member =>
        ascending.2.2 _ (List.mem_map_of_mem member) _ (List.mem_cons_self ..)
    obtain ⟨m', inserted, listed⟩ := NameMap.insertNew?_above (value entry.2) above
    have keys : m'.keys = m.keys ++ [entry.1] := by
      rw [← m'.map_fst_toList, listed, List.map_append, m.map_fst_toList]
      rfl
    obtain ⟨last, read', listed'⟩ := ih m' (by rwa [keys, List.append_assoc]) others
    refine ⟨last, ?_, by rw [listed', listed, List.append_assoc]; rfl⟩
    simp only [List.map_cons, readEntries, ofEntry, checkName_node, nameAttr_cons, onlyChild_node,
      first, ok_bind, List.any_cons]
    cases foreign entry.2 with
    | true => rfl
    | false =>
      simp only [verdict_false, ok_bind, inserted, Bool.false_or]
      exact read'

/-- Reading a written mapping gives a value for each key, unless one of the values is foreign. -/
theorem readEntries_written (name : String) (toElement : W → Element) {write : U → W}
    {foreign : U → Bool} {value : U → V} (m : NameMap U)
    (reads : ∀ name u, (name, u) ∈ m.toList →
      read (toElement (write u)) = verdict fault (foreign u) (value u)) :
    readEntries read .empty (ofMapping name toElement (m.map write)).children
      = verdict fault (m.toList.any fun entry => foreign entry.2) (m.map value) := by
  have ascending : ((NameMap.empty (V := V)).keys ++ m.toList.map Prod.fst).Pairwise (· < ·) := by
    rw [m.map_fst_toList]
    exact m.ascending
  obtain ⟨m', read', listed⟩ :=
    readEntries_ofEntry (fun u => toElement (write u)) .empty m.toList ascending reads
  cases NameMap.ext (show m'.toList = (m.map value).toList from listed.trans (by simp; rfl))
  simpa only [ofMapping, children_node, NameMap.toList_map, List.map_map, Function.comp_def]
    using read'

end Mapping

/-- The first child of a name is the mapping of that name. -/
@[simp] theorem mapping_cons (read : Element → Except DecodeError V) (x : Element) :
    (node name attrs (x :: children)).mapping key read
      = if x.name = key then readEntries read .empty x.children
        else (node name attrs children).mapping key read := by
  simp only [mapping, child_cons]
  by_cases same : x.name = key
  · simp only [if_pos same, ok_bind]
  · simp only [if_neg same]

end Element

end SurfaceTree
