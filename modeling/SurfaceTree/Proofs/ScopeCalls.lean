import SurfaceTree.Proofs.HashTable
import SurfaceTree.Proofs.VisibilityTable
import SurfaceTree.Tree.Kind

namespace SurfaceTree

variable {E R V : Type}

/-- What a namespace binds names to. -/
@[reducible] def Namespace.Value (E R : Type) : Namespace → Type
  | builders => Builder E R
  | operators => Operator E
  | truths => Truth E

/-- A call while a scope is built. -/
inductive ScopeCall (E R : Type) where
  | bind (space : Namespace) (name : Name) (value : space.Value E R)
  | define (visibility : Visibility) (definition : Definition E R)
  | prove (proof : Proof E R)
  | importing (target : Import E)

/-- Of several values for one name, the first is bound. -/
theorem Insertion.get?_foldl_tryInsert (entries : List (Name × V)) (m : NameMap V) (name : Name) :
    (entries.foldl (fun m entry => run m (.tryInsert entry.1 entry.2)) m).get? name
      = (m.get? name).or (entries.lookup name) := by
  induction entries generalizing m with
  | nil => exact Option.or_none.symm
  | cons first rest ih =>
    rw [List.foldl_cons, ih, run_tryInsert, lookup_cons_eq]
    by_cases here : name = first.1
    · subst here
      by_cases bound : m.contains first.1
      · obtain ⟨value, found⟩ := Option.isSome_iff_exists.mp (m.contains_eq_isSome_get? _ ▸ bound)
        rw [if_pos bound, found, Option.some_or, Option.some_or]
      · have unbound : m.get? first.1 = none := by
          rwa [m.contains_eq_isSome_get?, Option.not_isSome_iff_eq_none] at bound
        rw [if_neg bound, NameMap.get?_insert, if_pos rfl, if_pos rfl, unbound, Option.some_or,
          Option.none_or]
    · rw [if_neg here]
      split
      · rfl
      · rw [NameMap.get?_insert, if_neg here]

namespace ScopeCall

/-- The binding that a call asks for in a namespace. -/
def binding? (space : Namespace) : ScopeCall E R → Option (Name × space.Value E R)
  | bind space' name value => if same : space' = space then some (name, same ▸ value) else none
  | define .. | prove _ | importing _ => none

/-- The definition that a call adds to a bucket. -/
def definition? (v : Visibility) : ScopeCall E R → Option (Definition E R)
  | define v' d => if v' = v then some d else none
  | bind .. | prove _ | importing _ => none

def proof? : ScopeCall E R → Option (Proof E R)
  | prove p => some p
  | bind .. | define .. | importing _ => none

def import? : ScopeCall E R → Option (Import E)
  | importing i => some i
  | bind .. | define .. | prove _ => none

@[simp] theorem binding?_bind (space : Namespace) (name : Name) (value : space.Value E R) :
    (bind space name value).binding? space = some (name, value) := dif_pos rfl

theorem binding?_eq_some {space : Namespace} {call : ScopeCall E R}
    {entry : Name × space.Value E R} :
    call.binding? space = some entry ↔ call = .bind space entry.1 entry.2 := by
  constructor
  · intro bound
    cases call with
    | bind space' name value =>
      by_cases same : space' = space
      · subst same
        rw [binding?_bind] at bound
        cases bound
        rfl
      · rw [binding?, dif_neg same] at bound
        cases bound
    | _ => cases bound
  · rintro rfl
    exact binding?_bind ..

/-- What calls bring in, whatever the order of calls that bring in different things. -/
structure SamePieces (calls calls' : List (ScopeCall E R)) : Prop where
  bindings : ∀ space,
    (calls.filterMap (binding? space)).Perm (calls'.filterMap (binding? space))
  definitions : ∀ v, calls.filterMap (definition? v) = calls'.filterMap (definition? v)
  proofs : calls.filterMap proof? = calls'.filterMap proof?
  imports : calls.filterMap import? = calls'.filterMap import?

end ScopeCall

namespace Scope

/-- The bindings of a namespace. -/
def table (s : Scope E R) : (space : Namespace) → NameMap (space.Value E R)
  | .builders => s.builders
  | .operators => s.operators
  | .truths => s.truths

/-- A scope with other bindings in one namespace. -/
def withTable (s : Scope E R) : (space : Namespace) → NameMap (space.Value E R) → Scope E R
  | .builders, builders => { s with builders }
  | .operators, operators => { s with operators }
  | .truths, truths => { s with truths }

/-- Binds a name in a namespace that does not bind it yet, or tells that it does. -/
def bind (s : Scope E R) (space : Namespace) (name : Name) (value : space.Value E R) :
    Except DuplicateName Unit × Scope E R :=
  let (verdict, m) := (s.table space).tryInsert name value
  (verdict.mapError fun _ => ⟨space, name⟩, s.withTable space m)

/-- What a call answers, and the scope that it leaves. -/
def run (s : Scope E R) : ScopeCall E R → Except DuplicateName Unit × Scope E R
  | .bind space name value => s.bind space name value
  | .define v d => (.ok (), s.addDefinition v d)
  | .prove p => (.ok (), s.addProof p)
  | .importing i => (.ok (), s.addImport i)

/-- The scope that a call makes, or why it is refused. -/
def call (s : Scope E R) : ScopeCall E R → Except DuplicateName (Scope E R)
  | .bind .builders name b => s.addBuilder name b
  | .bind .operators name o => s.addOperator name o
  | .bind .truths name t => s.addTruth name t
  | .define v d => .ok (s.addDefinition v d)
  | .prove p => .ok (s.addProof p)
  | .importing i => .ok (s.addImport i)

/-- The scope after a call. -/
def after (s : Scope E R) (c : ScopeCall E R) : Scope E R := (s.run c).2

/-- The scope after some calls. -/
def build (s : Scope E R) (calls : List (ScopeCall E R)) : Scope E R := calls.foldl after s

/-- Whether a call is not refused. -/
def accepts (s : Scope E R) (c : ScopeCall E R) : Bool := (s.run c).1.isOk

/-- The calls that are not refused when all are made one after the other. -/
def accepted (s : Scope E R) : List (ScopeCall E R) → List (ScopeCall E R)
  | [] => []
  | c :: rest =>
    if s.accepts c then c :: (s.after c).accepted rest else (s.after c).accepted rest

variable (s : Scope E R)

@[simp] theorem table_withTable (space : Namespace) (m : NameMap (space.Value E R)) :
    (s.withTable space m).table space = m := by cases space <;> rfl

@[simp] theorem withTable_table (space : Namespace) : s.withTable space (s.table space) = s := by
  cases space <;> rfl

theorem table_withTable_of_ne {space other : Namespace} (apart : space ≠ other)
    (m : NameMap (space.Value E R)) : (s.withTable space m).table other = s.table other := by
  cases space <;> cases other <;> first | rfl | exact absurd rfl apart

theorem map_bindNew {α : Type} (into : NameMap V → α) (space : Namespace) (m : NameMap V) (name : Name)
    (value : V) :
    (bindNew space m name value).map into
      = if m.contains name then .error ⟨space, name⟩ else .ok (into (m.insert name value)) := by
  rw [bindNew, NameMap.insertNew?]
  by_cases bound : m.contains name
  · rw [if_pos bound, if_pos bound]
    rfl
  · rw [if_neg bound, if_neg bound]
    rfl

theorem call_bind (space : Namespace) (name : Name) (value : space.Value E R) :
    s.call (.bind space name value)
      = if (s.table space).contains name then .error ⟨space, name⟩
        else .ok (s.withTable space ((s.table space).insert name value)) := by
  cases space with
  | builders => exact map_bindNew (s.withTable .builders) ..
  | operators => exact map_bindNew (s.withTable .operators) ..
  | truths => exact map_bindNew (s.withTable .truths) ..

/-- A call is refused exactly when it binds a name that is bound in its namespace. -/
theorem call_eq_error_iff {c : ScopeCall E R} {e : DuplicateName} :
    s.call c = .error e ↔
      (∃ value, c = .bind e.space e.name value) ∧ (s.table e.space).contains e.name := by
  constructor
  · intro refused
    cases c with
    | bind space name value =>
      rw [call_bind] at refused
      split at refused
      · next bound =>
        cases refused
        exact ⟨⟨value, rfl⟩, bound⟩
      · cases refused
    | _ => cases refused
  · rintro ⟨⟨value, rfl⟩, bound⟩
    rw [call_bind, if_pos bound]

/-- Whatever is put back into a namespace whose name is bound already is what was there. -/
theorem run_bind (space : Namespace) (name : Name) (value : space.Value E R) :
    s.run (.bind space name value)
      = if (s.table space).contains name then (.error ⟨space, name⟩, s)
        else (.ok (), s.withTable space ((s.table space).insert name value)) := by
  rw [run, bind, NameMap.tryInsert]
  by_cases bound : (s.table space).contains name
  · rw [if_pos bound, if_pos bound]
    exact congrArg (Prod.mk _) (s.withTable_table space)
  · rw [if_neg bound, if_neg bound]
    rfl

/-- A call makes the scope that it leaves, or is refused and leaves the scope as it was. -/
theorem run_eq (c : ScopeCall E R) :
    s.run c = match s.call c with
      | .ok s' => (.ok (), s')
      | .error e => (.error e, s) := by
  cases c with
  | bind space name value =>
    rw [run_bind, call_bind]
    split <;> rfl
  | _ => rfl

theorem call_eq_ok_iff {c : ScopeCall E R} {s' : Scope E R} :
    s.call c = .ok s' ↔ s.run c = (.ok (), s') := by
  rw [run_eq]
  cases s.call c <;> simp

theorem call_eq_error_iff_run {c : ScopeCall E R} {e : DuplicateName} :
    s.call c = .error e ↔ s.run c = (.error e, s) := by
  rw [run_eq]
  cases s.call c <;> simp

theorem accepts_bind (space : Namespace) (name : Name) (value : space.Value E R) :
    s.accepts (.bind space name value) = !(s.table space).contains name := by
  rw [accepts, run_bind]
  cases (s.table space).contains name <;> rfl

theorem after_bind (space : Namespace) (name : Name) (value : space.Value E R) :
    s.after (.bind space name value)
      = s.withTable space (Insertion.run (s.table space) (.tryInsert name value)) := by
  rw [after, run_bind, Insertion.run_tryInsert]
  by_cases bound : (s.table space).contains name
  · simp only [if_pos bound, withTable_table]
  · simp only [if_neg bound]

/-- A call has a part in the namespace in which it binds, and in no other. -/
theorem table_after (c : ScopeCall E R) (space : Namespace) :
    (s.after c).table space
      = (c.binding? space).elim (s.table space) fun entry =>
        Insertion.run (s.table space) (.tryInsert entry.1 entry.2) := by
  cases c with
  | bind space' name value =>
    rw [after_bind]
    by_cases same : space' = space
    · subst same
      rw [table_withTable, ScopeCall.binding?_bind, Option.elim]
    · rw [table_withTable_of_ne s same, ScopeCall.binding?, dif_neg same, Option.elim]
  | define v d => cases space <;> rfl
  | prove p => cases space <;> rfl
  | importing i => cases space <;> rfl

theorem definitions_after (c : ScopeCall E R) (v : Visibility) :
    (s.after c).definitions.get v = s.definitions.get v ++ (c.definition? v).toList := by
  cases c with
  | bind space name value =>
    rw [after_bind]
    cases space <;> exact (List.append_nil _).symm
  | define v' d =>
    rw [ScopeCall.definition?]
    show (s.definitions.set v' _).get v = _
    rw [VisibilityTable.get_set]
    by_cases same : v = v'
    · subst same
      rw [if_pos rfl, if_pos rfl]
      rfl
    · rw [if_neg same, if_neg (Ne.symm same)]
      exact (List.append_nil _).symm
  | _ => exact (List.append_nil _).symm

theorem proofs_after (c : ScopeCall E R) :
    (s.after c).proofs = s.proofs ++ c.proof?.toList := by
  cases c with
  | bind space name value =>
    rw [after_bind]
    cases space <;> exact (List.append_nil _).symm
  | prove p => rfl
  | _ => exact (List.append_nil _).symm

theorem imports_after (c : ScopeCall E R) :
    (s.after c).imports = s.imports ++ c.import?.toList := by
  cases c with
  | bind space name value =>
    rw [after_bind]
    cases space <;> exact (List.append_nil _).symm
  | importing i => rfl
  | _ => exact (List.append_nil _).symm

theorem place_after (c : ScopeCall E R) : (s.after c).pos = s.pos ∧ (s.after c).id = s.id := by
  cases c with
  | bind space name value =>
    rw [after_bind]
    cases space <;> exact ⟨rfl, rfl⟩
  | _ => exact ⟨rfl, rfl⟩

/-- Scopes with the same bindings and the same of all else are the same. -/
theorem ext_table {s s' : Scope E R} (pos : s.pos = s'.pos) (id : s.id = s'.id)
    (tables : ∀ space, s.table space = s'.table space) (definitions : s.definitions = s'.definitions)
    (proofs : s.proofs = s'.proofs) (imports : s.imports = s'.imports) : s = s' := by
  have builders : s.builders = s'.builders := tables .builders
  have operators : s.operators = s'.operators := tables .operators
  have truths : s.truths = s'.truths := tables .truths
  cases s
  cases s'
  simp_all

variable (calls : List (ScopeCall E R))

theorem place_build : (s.build calls).pos = s.pos ∧ (s.build calls).id = s.id := by
  induction calls generalizing s with
  | nil => exact ⟨rfl, rfl⟩
  | cons c rest ih =>
    obtain ⟨pos, id⟩ := ih (s.after c)
    exact ⟨pos.trans (s.place_after c).1, id.trans (s.place_after c).2⟩

theorem table_build (space : Namespace) :
    (s.build calls).table space
      = (calls.filterMap (ScopeCall.binding? space)).foldl
        (fun m entry => Insertion.run m (.tryInsert entry.1 entry.2)) (s.table space) := by
  induction calls generalizing s with
  | nil => rfl
  | cons c rest ih =>
    have later : (s.build (c :: rest)).table space = ((s.after c).build rest).table space := rfl
    rw [later, ih, table_after, List.filterMap_cons]
    cases c.binding? space <;> rfl

/-- What each call adds to the end of a list is there in the order of the calls. -/
theorem listing_build {α : Type} (listing : Scope E R → List α)
    {piece? : ScopeCall E R → Option α}
    (step : ∀ s c, listing (after s c) = listing s ++ (piece? c).toList) :
    listing (s.build calls) = listing s ++ calls.filterMap piece? := by
  induction calls generalizing s with
  | nil => exact (List.append_nil _).symm
  | cons c rest ih =>
    have later : listing (s.build (c :: rest)) = listing ((s.after c).build rest) := rfl
    rw [later, ih, step, List.append_assoc, List.filterMap_cons]
    cases piece? c <;> rfl

theorem after_eq_self {s : Scope E R} {c : ScopeCall E R} (refused : ¬ s.accepts c) :
    s.after c = s := by
  rw [accepts, run_eq] at refused
  rw [after, run_eq]
  cases made : s.call c with
  | ok s' =>
    rw [made] at refused
    exact absurd rfl refused
  | error e => rfl

/-- The scope would be the same had the refused calls not been made. -/
theorem build_accepted : s.build (s.accepted calls) = s.build calls := by
  induction calls generalizing s with
  | nil => rfl
  | cons c rest ih =>
    rw [accepted]
    split
    · exact ih (s.after c)
    · next refused =>
      show s.build ((s.after c).accepted rest) = (s.after c).build rest
      rw [after_eq_self refused, ih]

/-- A call is accepted if the scope that the calls before it have led to accepts it. -/
theorem mem_accepted {d : ScopeCall E R} :
    d ∈ s.accepted calls ↔
      ∃ earlier later, calls = earlier ++ d :: later ∧ (s.build earlier).accepts d := by
  induction calls generalizing s with
  | nil => simp [accepted]
  | cons c rest ih =>
    have here : d ∈ s.accepted (c :: rest) ↔
        d = c ∧ s.accepts c ∨ d ∈ (s.after c).accepted rest := by
      rw [accepted]
      split
      · next made => rw [List.mem_cons, and_iff_left made]
      · next refused => simp only [refused, Bool.false_eq_true, and_false, false_or]
    rw [here, ih]
    constructor
    · rintro (⟨rfl, made⟩ | ⟨earlier, later, rfl, made⟩)
      · exact ⟨[], rest, rfl, made⟩
      · exact ⟨c :: earlier, later, rfl, made⟩
    · rintro ⟨earlier, later, split, made⟩
      cases earlier with
      | nil =>
        cases split
        exact .inl ⟨rfl, made⟩
      | cons c' earlier =>
        cases split
        exact .inr ⟨earlier, later, rfl, made⟩

/-- A namespace binds what it bound before and what accepted calls bind in it. -/
theorem perm_table_build (space : Namespace) :
    ((s.build calls).table space).toList.Perm
      ((s.table space).toList ++ (s.accepted calls).filterMap (ScopeCall.binding? space)) := by
  induction calls generalizing s with
  | nil =>
    rw [accepted, List.filterMap_nil, List.append_nil]
    exact .refl _
  | cons c rest ih =>
    refine (ih (s.after c)).trans ?_
    rw [table_after, accepted]
    rcases binds : c.binding? space with _ | ⟨name, value⟩
    · split
      · rw [List.filterMap_cons_none binds]
        exact .refl _
      · exact .refl _
    · have made := s.accepts_bind space name value
      rw [← ScopeCall.binding?_eq_some.mp binds] at made
      rw [Option.elim, Insertion.run_tryInsert, made]
      by_cases bound : (s.table space).contains name
      · rw [if_pos bound, bound]
        exact .refl _
      · rw [if_neg bound, (Bool.not_eq_true _).mp bound, Bool.not_false, if_pos rfl,
          List.filterMap_cons_some binds]
        exact ((NameMap.perm_insert value bound).append_right _).trans List.perm_middle.symm

/-- What a scope holds after some calls on one with nothing in it. -/
structure Holds (pos : Span) (id : ScopeId) (calls : List (ScopeCall E R)) (s : Scope E R) :
    Prop where
  pos_eq : s.pos = pos
  id_eq : s.id = id
  /-- Each name is bound to the first of its values. -/
  bindings : ∀ space name,
    (s.table space).get? name = (calls.filterMap (ScopeCall.binding? space)).lookup name
  /-- A hash table that the bindings are tried on lists what the scope binds. -/
  tables : ∀ space (t : HashTable (space.Value E R)),
    HashTable.Reached ((calls.filterMap (ScopeCall.binding? space)).map
      fun entry => .tryInsert entry.1 entry.2) t → t.toMap = s.table space
  definitions : ∀ v, s.definitions.get v = calls.filterMap (ScopeCall.definition? v)
  proofs : s.proofs = calls.filterMap ScopeCall.proof?
  imports : s.imports = calls.filterMap ScopeCall.import?

section

variable (pos : Span) (id : ScopeId)

theorem table_empty (space : Namespace) : (empty (E := E) (R := R) pos id).table space = .empty := by
  cases space <;> rfl

theorem holds_build : Holds pos id calls ((empty pos id).build calls) where
  pos_eq := ((empty pos id).place_build calls).1
  id_eq := ((empty pos id).place_build calls).2
  bindings space name := by
    rw [table_build, Insertion.get?_foldl_tryInsert, table_empty]
    exact Option.none_or
  tables space t reached := by
    have holds := reached.holds
    rw [List.foldl_map] at holds
    rw [holds.toMap_eq, table_build, table_empty]
  definitions v := by
    have listed := (empty pos id).listing_build calls (fun s => s.definitions.get v)
      fun s c => s.definitions_after c v
    rw [listed]
    cases v <;> exact List.nil_append _
  proofs := (empty pos id).listing_build calls Scope.proofs proofs_after
  imports := (empty pos id).listing_build calls Scope.imports imports_after

theorem perm_table_build_empty (space : Namespace) :
    (((empty pos id).build calls).table space).toList.Perm
      (((empty pos id).accepted calls).filterMap (ScopeCall.binding? space)) := by
  have listed := (empty pos id).perm_table_build calls space
  rwa [table_empty] at listed

/-- A name is bound by the calls that bind it and are accepted. -/
theorem contains_build {space : Namespace} {name : Name} :
    (((empty pos id).build calls).table space).contains name ↔
      ∃ earlier value later, calls = earlier ++ .bind space name value :: later ∧
        ((empty pos id).build earlier).accepts (.bind space name value) := by
  have listed := (perm_table_build_empty calls pos id space).map Prod.fst
  rw [NameMap.map_fst_toList] at listed
  rw [NameMap.contains_iff, listed.mem_iff, List.mem_map]
  constructor
  · rintro ⟨⟨_, value⟩, member, rfl⟩
    obtain ⟨c, made, binds⟩ := List.mem_filterMap.mp member
    obtain ⟨earlier, later, split, accepts⟩ := (mem_accepted _ calls).mp made
    rw [ScopeCall.binding?_eq_some.mp binds] at split accepts
    exact ⟨earlier, value, later, split, accepts⟩
  · rintro ⟨earlier, value, later, split, accepts⟩
    refine ⟨(name, value), List.mem_filterMap.mpr ⟨.bind space name value, ?_, ?_⟩, rfl⟩
    · exact (mem_accepted _ calls).mpr ⟨earlier, later, split, accepts⟩
    · exact ScopeCall.binding?_bind space name value

theorem build_eq_of_samePieces {calls calls' : List (ScopeCall E R)}
    (same : ScopeCall.SamePieces ((empty pos id).accepted calls) ((empty pos id).accepted calls')) :
    (empty pos id).build calls = (empty pos id).build calls' := by
  have held := holds_build ((empty pos id).accepted calls) pos id
  have held' := holds_build ((empty pos id).accepted calls') pos id
  rw [build_accepted] at held held'
  refine ext_table (held.pos_eq.trans held'.pos_eq.symm) (held.id_eq.trans held'.id_eq.symm)
    (fun space => ?_) (VisibilityTable.ext_get fun v => ?_) ?_ ?_
  · have listed := perm_table_build_empty calls pos id space
    have listed' := perm_table_build_empty calls' pos id space
    have shuffled := listed.trans ((same.bindings space).trans listed'.symm)
    exact (NameMap.ofList_of_perm (.refl _)).symm.trans (NameMap.ofList_of_perm shuffled)
  · rw [held.definitions, held'.definitions, same.definitions]
  · rw [held.proofs, held'.proofs, same.proofs]
  · rw [held.imports, held'.imports, same.imports]

/-- A call that is refused leaves the scope as it was. Of the calls on a scope with nothing in it,
exactly those are refused that bind a name which an earlier call has bound in the same namespace.
They leave no trace: the scope holds the first value of every name, and everything else in the order
of the calls. What is brought in determines the scope, whatever the order of calls that bring in
different things. -/
theorem build_calls :
    (∀ (s : Scope E R) (c : ScopeCall E R),
      (∀ s', s.call c = .ok s' ↔ s.run c = (.ok (), s')) ∧
        ∀ e, s.call c = .error e ↔ s.run c = (.error e, s)) ∧
    (∀ (calls : List (ScopeCall E R)) (c : ScopeCall E R) (e : DuplicateName),
      ((empty pos id).build calls).call c = .error e ↔
        (∃ value, c = .bind e.space e.name value) ∧
          ∃ earlier value later, calls = earlier ++ .bind e.space e.name value :: later ∧
            ((empty pos id).build earlier).accepts (.bind e.space e.name value)) ∧
    (∀ (calls : List (ScopeCall E R)) (c : ScopeCall E R) (e : DuplicateName),
      ((empty pos id).build calls).call c = .error e →
        (empty pos id).build (calls ++ [c]) = (empty pos id).build calls) ∧
    (∀ calls : List (ScopeCall E R),
      Holds pos id calls ((empty pos id).build calls) ∧
        (empty pos id).build ((empty pos id).accepted calls) = (empty pos id).build calls) ∧
    ∀ calls calls' : List (ScopeCall E R),
      ScopeCall.SamePieces ((empty pos id).accepted calls) ((empty pos id).accepted calls') →
        (empty pos id).build calls = (empty pos id).build calls' := by
  refine ⟨fun s c => ⟨fun s' => s.call_eq_ok_iff, fun e => s.call_eq_error_iff_run⟩,
    fun calls c e => ?_, fun calls c e refused => ?_,
    fun calls => ⟨holds_build calls pos id, build_accepted _ calls⟩,
    fun calls calls' => build_eq_of_samePieces pos id⟩
  · rw [call_eq_error_iff, contains_build]
  · have unchanged : ¬ ((empty pos id).build calls).accepts c := by
      rw [accepts, (call_eq_error_iff_run _).mp refused]
      exact Bool.false_ne_true
    rw [build, List.foldl_concat]
    exact after_eq_self unchanged

/-- Two facts and a definition, with a third fact refused because its name is taken, and the same
brought in the other way round. -/
theorem build_calls_shuffled :
    let fact (kind : TruthKind) : Truth (Expr Name) :=
      ⟨.dummy, kind, .pub, .mk (.reference .dummy ⟨1⟩), none⟩
    let definition : Definition (Expr Name) Name := ⟨.dummy, .bind .dummy ⟨5⟩, none⟩
    let first : ScopeCall (Expr Name) Name := .bind .truths ⟨2⟩ (fact .fundamental)
    let second : ScopeCall (Expr Name) Name := .bind .truths ⟨3⟩ (fact .proven)
    let refused : ScopeCall (Expr Name) Name := .bind .truths ⟨2⟩ (fact .invariant)
    let begun : Scope (Expr Name) Name := empty .dummy ⟨4⟩
    (begun.build [first, second]).call refused = .error ⟨.truths, ⟨2⟩⟩ ∧
    (begun.build [first, second]).run refused
      = (.error ⟨.truths, ⟨2⟩⟩, begun.build [first, second]) ∧
    begun.build [first, second, refused] = begun.build [first, second] ∧
    begun.build [first, second, refused, .define .priv definition]
      = begun.build [.define .priv definition, second, first] := by
  intro fact definition first second refused begun
  have taken : (begun.build [first, second]).call refused = .error ⟨.truths, ⟨2⟩⟩ := rfl
  have kept : begun.accepted [first, second, refused, .define .priv definition]
      = [first, second, .define .priv definition] := rfl
  have kept' : begun.accepted [.define .priv definition, second, first]
      = [.define .priv definition, second, first] := rfl
  let entry (name : UInt32) (kind : TruthKind) : Name × Truth (Expr Name) := (⟨name⟩, fact kind)
  have same : ScopeCall.SamePieces [first, second, .define .priv definition]
      [.define .priv definition, second, first] :=
    { bindings := fun space => by
        cases space with
        | truths => exact List.Perm.swap (entry 3 .proven) (entry 2 .fundamental) []
        | builders => exact .refl []
        | operators => exact .refl []
      definitions := fun v => by cases v <;> rfl
      proofs := rfl
      imports := rfl }
  rw [← kept, ← kept'] at same
  obtain ⟨answers, -, unchanged, -, alike⟩ := build_calls (E := Expr Name) (R := Name) .dummy ⟨4⟩
  exact ⟨taken, ((answers _ refused).2 _).mp taken, unchanged _ _ _ taken, alike _ _ same⟩

end

end Scope

end SurfaceTree
