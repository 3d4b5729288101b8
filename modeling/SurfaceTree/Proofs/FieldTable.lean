import SurfaceTree.Codec.Decode
import SurfaceTree.Proofs.Traversal.Declared

namespace SurfaceTree

namespace NameMap

variable {V : Type}

/-- Gives up the binding of a key. -/
def erase (m : NameMap V) (key : Name) : NameMap V :=
  .ofAscending (m.toList.filter (·.1 ≠ key)) (by
    have ascending := m.ascending
    rw [← m.map_fst_toList] at ascending
    exact ascending.sublist (List.filter_sublist.map Prod.fst))

theorem get?_erase (m : NameMap V) (key k : Name) :
    (m.erase key).get? k = if k = key then none else m.get? k := by
  simp only [erase, get?, toList_ofAscending]
  induction m.toList with
  | nil => exact (ite_self none).symm
  | cons first rest ih =>
    by_cases given : first.1 = key
    · rw [List.filter_cons_of_neg (by simpa using given), ih, lookup_cons_eq, given]
      by_cases here : k = key
      · rw [if_pos here, if_pos here]
      · rw [if_neg here, if_neg here, if_neg here]
    · rw [List.filter_cons_of_pos (by simpa using given), lookup_cons_eq, lookup_cons_eq, ih]
      by_cases here : k = first.1
      · subst here
        rw [if_pos rfl, if_pos rfl, if_neg given]
      · rw [if_neg here, if_neg here]

/-- Moves the values of some keys out of a mapping, passing over keys that are not bound. -/
def takeAll : List Name → NameMap V → List (Name × V)
  | [], _ => []
  | key :: rest, m =>
    match m.get? key with
    | some value => (key, value) :: takeAll rest (m.erase key)
    | none => takeAll rest (m.erase key)

/-- Keys that come up once are found where they were bound at the beginning. -/
theorem takeAll_eq {keys : List Name} (distinct : keys.Nodup) (m : NameMap V) :
    takeAll keys m = keys.filterMap fun key => (m.get? key).map (key, ·) := by
  induction keys generalizing m with
  | nil => rfl
  | cons key rest ih =>
    obtain ⟨fresh, distinct⟩ := List.nodup_cons.mp distinct
    have untouched : takeAll rest (m.erase key)
        = rest.filterMap fun key => (m.get? key).map (key, ·) := by
      rw [ih distinct]
      refine List.filterMap_congr fun k member => ?_
      rw [get?_erase, if_neg (ne_of_mem_of_not_mem member fresh)]
    rw [takeAll, untouched, List.filterMap_cons]
    cases m.get? key <;> rfl

end NameMap

/-- Fields by name, and the names in declared order. -/
structure FieldTable (E R : Type) where
  bindings : NameMap (Field E R)
  order : List Name

namespace FieldTable

variable {m : Type → Type} [Monad m] {E R E' R' : Type}

def empty : FieldTable E R := ⟨.empty, []⟩

/-- Pairs a mapping with the order of its keys, as long as they fit. -/
def pair (bindings : NameMap (Field E R)) (order : List Name) :
    Except FieldsError (FieldTable E R) :=
  match Fields.firstFault? bindings.contains [] order with
  | some fault => .error fault
  | none =>
    match bindings.keys.find? (fun key => !order.contains key) with
    | some key => .error (.missingKey key)
    | none => .ok ⟨bindings, order⟩

/-- Declares one more field. -/
def push (t : FieldTable E R) (entry : Name × Field E R) : Except FieldsError (FieldTable E R) :=
  match t.bindings.insertNew? entry.1 entry.2 with
  | some bindings => .ok ⟨bindings, t.order ++ [entry.1]⟩
  | none => .error (.duplicateKey entry.1)

/-- The table of fields in declared order. -/
def ofDeclared (entries : List (Name × Field E R)) : Except FieldsError (FieldTable E R) :=
  entries.foldlM push empty

/-- Puts parts together that are taken to fit. All that is asserted of them is that they are of one
size; `none` stands for the assertion that fails. -/
def assemble? (bindings : NameMap (Field E R)) (order : List Name) : Option (FieldTable E R) :=
  if bindings.size = order.length then some ⟨bindings, order⟩ else none

/-- The fields in declared order. Names that are not bound are passed over. -/
def listed (t : FieldTable E R) : List (Name × Field E R) :=
  t.order.filterMap fun name => (t.bindings.get? name).map (name, ·)

/-- The fields in declared order, each moved out of the mapping. -/
def taken (t : FieldTable E R) : List (Name × Field E R) := t.bindings.takeAll t.order

/-- Rebuilds one field and puts it behind those that are done. -/
def rebuild (f : E → m E') (g : R → m R') (t : FieldTable E' R') (entry : Name × Field E R) :
    m (FieldTable E' R') := do
  let field ← entry.2.traverse f g
  return ⟨t.bindings.insert entry.1 field, t.order ++ [entry.1]⟩

/-- Rebuilds the fields in declared order and puts them together again. -/
def traverse (f : E → m E') (g : R → m R') (t : FieldTable E R) :
    m (Option (FieldTable E' R')) := do
  let rebuilt ← t.taken.foldlM (rebuild f g) empty
  return assemble? rebuilt.bindings rebuilt.order

/-- Reads a table from its element. -/
def decode (expr : Element → Except DecodeError E) (ref : Element → Except DecodeError R)
    (x : Element) : Except DecodeError (FieldTable E R) := do
  x.checkName "fields"
  let bindings ← x.mapping "bindings" (Field.decode expr ref)
  let order ← x.slots "order" Name.decodeOrderKey
  (pair bindings order).mapError .fields

/-- The order lists every bound name once and no others. -/
structure WellFormed (t : FieldTable E R) : Prop where
  distinct : t.order.Nodup
  lists : ∀ name, name ∈ t.order ↔ t.bindings.contains name

namespace WellFormed

variable {t : FieldTable E R}

theorem map_fst_listed (wf : t.WellFormed) : t.listed.map Prod.fst = t.order := by
  rw [listed, List.map_filterMap]
  refine (List.filterMap_congr fun name member => ?_).trans List.filterMap_some
  have bound := (wf.lists name).mp member
  rw [NameMap.contains_eq_isSome_get?, Option.isSome_iff_exists] at bound
  obtain ⟨field, bound⟩ := bound
  rw [bound]
  rfl

theorem perm_listed (wf : t.WellFormed) : t.listed.Perm t.bindings.toList := by
  have distinct : (t.listed.map Prod.fst).Nodup := wf.map_fst_listed ▸ wf.distinct
  refine (List.perm_ext_iff_of_nodup distinct.of_map t.bindings.distinct_toList.of_map).mpr ?_
  rintro ⟨name, field⟩
  rw [← NameMap.get?_eq_some_iff, listed, List.mem_filterMap]
  constructor
  · rintro ⟨name', -, bound⟩
    obtain ⟨field', bound, same⟩ := Option.map_eq_some_iff.mp bound
    cases same
    exact bound
  · intro bound
    refine ⟨name, (wf.lists name).mpr ?_, by rw [bound]; rfl⟩
    rw [NameMap.contains_eq_isSome_get?, bound]
    rfl

theorem taken_eq (wf : t.WellFormed) : t.taken = t.listed := NameMap.takeAll_eq wf.distinct _

theorem size_eq (wf : t.WellFormed) : t.bindings.size = t.order.length := by
  rw [NameMap.size, ← t.bindings.map_fst_toList, List.length_map, ← wf.perm_listed.length_eq,
    ← wf.map_fst_listed, List.length_map]

end WellFormed

end FieldTable

/-- A field list as a mapping and an order. -/
def Fields.table {E R : Type} (fs : Fields E R) : FieldTable E R := ⟨fs.bindings, fs.order⟩

namespace FieldTable

variable {E R E' R' : Type}

theorem wellFormed_table (fs : Fields E R) : fs.table.WellFormed :=
  ⟨fs.distinct, fun _ => Fields.contains_bindings.symm⟩

theorem WellFormed.exists_fields {t : FieldTable E R} (wf : t.WellFormed) :
    ∃ fs : Fields E R, t = fs.table := by
  have distinct : (t.listed.map Prod.fst).Nodup := wf.map_fst_listed ▸ wf.distinct
  refine ⟨.ofDistinct t.listed distinct, ?_⟩
  have bindings : (Fields.ofDistinct t.listed distinct).bindings = t.bindings := by
    rw [Fields.bindings, Fields.toList, Fields.ofDistinct, Row.toList_ofList]
    exact NameMap.ofList_of_perm wf.perm_listed
  have order : (Fields.ofDistinct t.listed distinct).order = t.order := wf.map_fst_listed
  rw [Fields.table, bindings, order]

theorem taken_table (fs : Fields E R) : fs.table.taken = fs.toList :=
  (wellFormed_table fs).taken_eq.trans fs.filterMap_bindings

theorem wellFormed_of_pair {bindings : NameMap (Field E R)} {order : List Name}
    (noFault : Fields.firstFault? bindings.contains [] order = none)
    (noneLeft : bindings.keys.find? (fun key => !order.contains key) = none) :
    (mk bindings order).WellFormed := by
  obtain ⟨distinct, bound⟩ := Fields.bound_of_firstFault?_eq_none noFault
  refine ⟨distinct, fun name => ⟨fun member => (bound name member).1, fun member => ?_⟩⟩
  have ordered := List.find?_eq_none.mp noneLeft name (NameMap.contains_iff.mp member)
  simpa using ordered

theorem pair_eq (bindings : NameMap (Field E R)) (order : List Name) :
    pair bindings order = (Fields.ofBindings bindings order).map Fields.table := by
  cases noFault : Fields.firstFault? bindings.contains [] order with
  | some fault => simp only [pair, Fields.ofBindings, noFault, Except.map]
  | none =>
    cases noneLeft : bindings.keys.find? (fun key => !order.contains key) with
    | some key => simp only [pair, Fields.ofBindings, noFault, noneLeft, Except.map]
    | none =>
      obtain ⟨fs, same⟩ := (wellFormed_of_pair noFault noneLeft).exists_fields
      cases same
      have rebuilt := fs.ofBindings_bindings
      simp only [pair, noFault, noneLeft, rebuilt, Except.map, Fields.table]

theorem decode_eq (expr : Element → Except DecodeError E) (ref : Element → Except DecodeError R)
    (x : Element) : decode expr ref x = (Fields.decode expr ref x).map Fields.table := by
  simp only [decode, Fields.decode, pair_eq]
  cases x.checkName "fields" with
  | error e => rfl
  | ok _ =>
    cases x.mapping "bindings" (Field.decode expr ref) with
    | error e => rfl
    | ok bindings =>
      cases x.slots "order" Name.decodeOrderKey with
      | error e => rfl
      | ok order =>
        change ((Fields.ofBindings bindings order).map _).mapError _
          = ((Fields.ofBindings bindings order).mapError _).map _
        cases Fields.ofBindings bindings order <;> rfl

/-- Declaring one field after another goes well until a name comes up again. -/
theorem foldlM_push (seen : List Name) (earlier later : List (Name × Field E R))
    (done : ∀ name, name ∈ seen ↔ name ∈ earlier.map Prod.fst) :
    later.foldlM push ⟨.ofList earlier, earlier.map Prod.fst⟩
      = match Fields.firstRepeat? seen (later.map Prod.fst) with
        | some name => .error (.duplicateKey name)
        | none => .ok ⟨.ofList (earlier ++ later), (earlier ++ later).map Prod.fst⟩ := by
  induction later generalizing seen earlier with
  | nil => rw [List.append_nil]; rfl
  | cons entry rest ih =>
    obtain ⟨name, field⟩ := entry
    have bound : (NameMap.ofList earlier).contains name ↔ name ∈ seen :=
      NameMap.contains_ofList.trans (done name).symm
    rw [List.foldlM_cons, push, NameMap.insertNew?, List.map_cons, Fields.firstRepeat?]
    by_cases repeated : name ∈ seen
    · rw [if_pos (bound.mpr repeated), if_pos repeated]
      rfl
    · rw [if_neg (mt bound.mp repeated), if_neg repeated]
      have more := ih (name :: seen) (earlier ++ [(name, field)]) (fun n => by
        simp [done n, or_comm])
      rw [List.append_assoc, List.singleton_append] at more
      rw [← more, NameMap.ofList, NameMap.ofList, List.foldl_concat, List.map_append]
      rfl

theorem ofDeclared_eq (entries : List (Name × Field E R)) :
    ofDeclared entries = (Fields.ofDeclared entries).map Fields.table := by
  refine (foldlM_push [] [] entries fun _ => Iff.rfl).trans ?_
  unfold Fields.ofDeclared
  split
  · next name repeated =>
    split
    · next name' repeated' =>
      cases repeated.symm.trans repeated'
      rfl
    · next distinct => cases repeated.symm.trans distinct
  · next distinct =>
    split
    · next name repeated => cases distinct.symm.trans repeated
    · simp only [Except.map, Fields.table, Fields.bindings, Fields.toList, Fields.ofDistinct,
        Row.toList_ofList, List.nil_append]

variable {m : Type → Type} [Monad m] [LawfulMonad m]

/-- The loop of a traversal comes to the rebuilt fields behind those that are done. -/
theorem foldlM_rebuild (f : E → m E') (g : R → m R') {names : List Name}
    (row : Row (Field E R) names) (t : FieldTable E' R') :
    row.toList.foldlM (rebuild f g) t
      = (fun rebuilt => ⟨rebuilt.toList.foldl (fun m entry => m.insert entry.1 entry.2) t.bindings,
          t.order ++ names⟩) <$> row.traverse (Field.traverse f g) := by
  induction row generalizing t with
  | nil => simp [Row.toList, Row.traverse]
  | cons name field rest ih =>
    simp only [Row.toList, Row.traverse, List.foldlM_cons, rebuild, bind_assoc, pure_bind, ih,
      List.foldl_cons, List.append_assoc, List.singleton_append,
      ← bind_pure_comp]

theorem traverse_table (f : E → m E') (g : R → m R') (fs : Fields E R) :
    fs.table.traverse f g = (fun rebuilt => some rebuilt.table) <$> fs.traverse f g := by
  have loop : fs.toList.foldlM (rebuild f g) empty
      = (fun rebuilt => ⟨.ofList rebuilt.toList, fs.order⟩) <$> fs.row.traverse (Field.traverse f g) :=
    foldlM_rebuild f g fs.row empty
  have assembled (rebuilt : Fields E' R') :
      assemble? rebuilt.bindings rebuilt.order = some rebuilt.table :=
    if_pos (wellFormed_table rebuilt).size_eq
  simp only [traverse, taken_table, loop, Fields.traverse, bind_pure_comp, Functor.map_map]
  refine congrArg (· <$> fs.row.traverse (Field.traverse f g)) (funext fun row => ?_)
  exact assembled ⟨fs.order, fs.distinct, row⟩

/-- The tables of the constructors, and what traversals make of tables. Rewriting by plain functions
is a traversal without effects, and rewriting references at every depth is one that goes on into the
expressions. -/
inductive Reached : {E R : Type} → FieldTable E R → Prop
  | empty {E R : Type} : Reached (empty : FieldTable E R)
  | pair {E R : Type} {bindings : NameMap (Field E R)} {order : List Name} {t : FieldTable E R}
      (built : pair bindings order = .ok t) : Reached t
  | ofDeclared {E R : Type} {entries : List (Name × Field E R)} {t : FieldTable E R}
      (built : ofDeclared entries = .ok t) : Reached t
  | decode {E R : Type} {expr : Element → Except DecodeError E}
      {ref : Element → Except DecodeError R} {x : Element} {t : FieldTable E R}
      (read : decode expr ref x = .ok t) : Reached t
  | traverse {σ ε E R E' R' : Type} {f : E → Attempt σ ε E'} {g : R → Attempt σ ε R'}
      {t : FieldTable E R} {t' : FieldTable E' R'} {s s' : σ} (reached : Reached t)
      (run : (t.traverse f g).outcome s = (.ok (some t'), s')) : Reached t'

theorem exists_of_map_eq_ok {ε α β : Type} {f : α → β} {x : Except ε α} {b : β}
    (mapped : x.map f = .ok b) : ∃ a, x = .ok a ∧ b = f a := by
  cases x with
  | error e => cases mapped
  | ok a => exact ⟨a, rfl, (Except.ok.inj mapped).symm⟩

theorem exists_of_traverse_table {σ ε E' R' : Type} {f : E → Attempt σ ε E'}
    {g : R → Attempt σ ε R'} {fs : Fields E R} {result : Option (FieldTable E' R')} {s s' : σ}
    (run : (fs.table.traverse f g).outcome s = (.ok result, s')) :
    ∃ fs', (fs.traverse f g).outcome s = (.ok fs', s') ∧ result = some fs'.table := by
  rw [traverse_table, Attempt.outcome_map, Prod.mk.injEq] at run
  obtain ⟨fs', ended, same⟩ := exists_of_map_eq_ok run.1
  exact ⟨fs', Prod.ext ended run.2, same⟩

theorem Reached.exists_fields {t : FieldTable E R} (reached : Reached t) :
    ∃ fs : Fields E R, t = fs.table := by
  induction reached with
  | empty => exact ⟨.empty, rfl⟩
  | pair built =>
    rw [pair_eq] at built
    exact (exists_of_map_eq_ok built).imp fun _ => And.right
  | ofDeclared built =>
    rw [ofDeclared_eq] at built
    exact (exists_of_map_eq_ok built).imp fun _ => And.right
  | decode read =>
    rw [decode_eq] at read
    exact (exists_of_map_eq_ok read).imp fun _ => And.right
  | traverse reached run ih =>
    obtain ⟨fs, rfl⟩ := ih
    obtain ⟨fs', -, same⟩ := exists_of_traverse_table run
    exact ⟨fs', Option.some.inj same⟩

theorem reached_table (fs : Fields E R) : Reached fs.table :=
  .pair ((pair_eq fs.bindings fs.order).trans (congrArg _ fs.ofBindings_bindings))

/-- What a table promises: that its parts fit, that both ways of listing it give every binding once
in declared order and the table can be built from there again, and that putting it together after
a traversal goes well and keeps the order. -/
structure Sound (t : FieldTable E R) : Prop where
  wellFormed : t.WellFormed
  order_listed : t.listed.map Prod.fst = t.order
  perm_listed : t.listed.Perm t.bindings.toList
  taken_eq : t.taken = t.listed
  ofDeclared_taken : ofDeclared t.taken = .ok t
  traverse {σ ε E' R' : Type} (f : E → Attempt σ ε E') (g : R → Attempt σ ε R') (s s' : σ)
    (result : Option (FieldTable E' R')) : (t.traverse f g).outcome s = (.ok result, s') →
      ∃ t', result = some t' ∧ t'.order = t.order ∧ Reached t'

theorem sound_table (fs : Fields E R) : fs.table.Sound where
  wellFormed := wellFormed_table fs
  order_listed := (wellFormed_table fs).map_fst_listed
  perm_listed := (wellFormed_table fs).perm_listed
  taken_eq := (wellFormed_table fs).taken_eq
  ofDeclared_taken := by rw [taken_table, ofDeclared_eq, fs.ofDeclared_toList, Except.map]
  traverse f g s s' result run := by
    obtain ⟨fs', ended, rfl⟩ := exists_of_traverse_table run
    have sameOrder : [fs'.order] = [fs.order] := Kind.declared_traverse (k := .fields) ended
    exact ⟨fs'.table, rfl, List.singleton_inj.mp sameOrder, reached_table fs'⟩

/-- Every table that is reached keeps the invariant, and the assertion that guards it never fails.
Every field list, wherever it stands, is such a table and is traversed as one, and traversals of
whole nodes keep the declared orders in one layer and, of references, at every depth. -/
theorem reached_sound :
    (∀ {E R : Type} (t : FieldTable E R), Reached t → t.Sound) ∧
    (∀ {E R : Type} (fs : Fields E R), Reached fs.table ∧
      ∀ {σ ε E' R' : Type} (f : E → Attempt σ ε E') (g : R → Attempt σ ε R'),
        fs.table.traverse f g = (fun fs' => some fs'.table) <$> fs.traverse f g) ∧
    ∀ k : Kind,
      (∀ {σ ε E R E' R' : Type} (f : E → Attempt σ ε E') (g : R → Attempt σ ε R')
        (n : k.Tree E R) (t : k.Tree E' R') (s s' : σ),
        (k.traverse f g n).outcome s = (.ok t, s') → k.declared t = k.declared n) ∧
      ∀ {σ ε R S : Type} (g : R → Attempt σ ε S) (n : Node R k) (t : Node S k) (s s' : σ),
        (Node.traverseRefs g k n).outcome s = (.ok t, s') →
          Node.declared k t = Node.declared k n := by
  refine ⟨fun t reached => ?_, fun fs => ⟨reached_table fs, fun f g => traverse_table f g fs⟩,
    fun k => ⟨fun _ _ _ _ _ _ run => Kind.declared_traverse run,
      fun _ _ _ _ _ run => Node.declared_traverseRefs run⟩⟩
  obtain ⟨fs, rfl⟩ := reached.exists_fields
  exact sound_table fs

theorem exists_of_ended {σ ε α : Type} {s' : σ} {outcome : Except ε α × σ}
    (ended : outcome.1.isOk ∧ outcome.2 = s') : ∃ a, outcome = (.ok a, s') := by
  obtain ⟨_ | a, _⟩ := outcome
  · cases ended.1
  · exact ⟨a, Prod.ext rfl ended.2⟩

/-- Two fields declared in descending order, the one with a default that is a record type of its
own, and a resolver that counts the references. -/
theorem reached_sound_two_fields :
    let entry (n : UInt32) : Entry (Expr Name) Name := ⟨.dummy, false, .bind .dummy ⟨n⟩⟩
    let inner : Fields (Expr Name) Name :=
      .ofDistinct [(⟨6⟩, ⟨.dummy, entry 6, some (.mk (.reference .dummy ⟨9⟩))⟩),
        (⟨5⟩, ⟨.dummy, entry 5, none⟩)] (by simp)
    let t : FieldTable (Expr Name) Name :=
      ⟨.ofList [(⟨1⟩, ⟨.dummy, entry 1, none⟩),
        (⟨2⟩, ⟨.dummy, entry 2, some (.mk (.recordType .dummy inner))⟩)], [⟨2⟩, ⟨1⟩]⟩
    let number (name : Name) : Attempt Nat Empty Symbol := fun count =>
      (.ok ⟨⟨count.toUInt32⟩, name⟩, count + 1)
    t.Sound ∧
      (∃ t', (t.traverse (Expr.traverseRefs number) number).outcome 0 = (.ok (some t'), 1) ∧
        t'.order = [⟨2⟩, ⟨1⟩]) ∧
      ∃ n', (Node.traverseRefs number .expr (.recordType .dummy inner)).outcome 0 = (.ok n', 1) ∧
        Node.declared .expr n' = [[⟨6⟩, ⟨5⟩]] := by
  intro entry inner t number
  obtain ⟨tables, -, nodes⟩ := reached_sound
  have sound : t.Sound := tables t (.pair (show pair t.bindings t.order = .ok t from rfl))
  refine ⟨sound, ?_, ?_⟩
  · obtain ⟨result, run⟩ : ∃ result,
        (t.traverse (Expr.traverseRefs number) number).outcome 0 = (.ok result, 1) :=
      exists_of_ended (by decide +kernel)
    obtain ⟨t', rfl, sameOrder, -⟩ := sound.traverse _ _ _ _ _ run
    exact ⟨t', run, sameOrder⟩
  · obtain ⟨n', run⟩ : ∃ n', (Node.traverseRefs number .expr (.recordType .dummy inner)).outcome 0
        = (.ok n', 1) := exists_of_ended (by decide +kernel)
    exact ⟨n', run, (nodes .expr).2 _ _ _ _ _ run⟩

end FieldTable

end SurfaceTree
