import Mathlib.Data.Finset.Card
import Mathlib.Data.List.Nodup
import SurfaceTree.Name.Registry

namespace SurfaceTree

namespace Name

theorem shard_lt (n : Name) : n.shard < shardCount := by
  have bound := n.raw.toNat_lt
  simp only [shard, shardCount, maxSlot]
  omega

theorem slot_le (n : Name) : n.slot ≤ maxSlot := by
  simp only [slot, maxSlot]
  omega

section Parts

variable {i j : Nat} (shardFits : i < shardCount) (slotFits : j ≤ maxSlot)

include shardFits slotFits

theorem toNat_ofParts : (ofParts i j).raw.toNat = i * (maxSlot + 1) + j := by
  simp only [shardCount, maxSlot] at shardFits slotFits
  simp only [ofParts, maxSlot, UInt32.toNat_ofNat']
  omega

theorem shard_ofParts : (ofParts i j).shard = i := by
  rw [shard, toNat_ofParts shardFits slotFits]
  simp only [maxSlot] at slotFits ⊢
  omega

theorem slot_ofParts : (ofParts i j).slot = j := by
  rw [slot, toNat_ofParts shardFits slotFits]
  simp only [maxSlot] at slotFits ⊢
  omega

theorem ofParts?_eq : ofParts? i j = some (ofParts i j) := if_pos ⟨shardFits, slotFits⟩

end Parts

/-- A name is determined by its shard and its slot. -/
theorem ext_parts {n n' : Name} (sameShard : n.shard = n'.shard) (sameSlot : n.slot = n'.slot) :
    n = n' := by
  apply toNat_inj
  simp only [shard, slot, maxSlot] at sameShard sameSlot
  omega

end Name

namespace Registry

theorem shardOf_lt (s : String) : shardOf s < Name.shardCount := Nat.mod_lt _ (by decide)

/-- The strings of a shard, by slot. -/
def inShard (r : Registry) (i : Nat) : List String := r.strings.filter fun s => shardOf s == i

variable {r r' : Registry} {s t : String} {n n' : Name}

theorem ext_strings (same : r.strings = r'.strings) : r = r' := by
  cases r
  cases r'
  exact congr(⟨$same, _⟩)

theorem mem_inShard {i : Nat} : s ∈ r.inShard i ↔ s ∈ r.strings ∧ shardOf s = i := by
  simp only [inShard, List.mem_filter, beq_iff_eq]

theorem distinct_inShard (i : Nat) : (r.inShard i).Nodup := r.distinct.filter _

theorem length_inShard (i : Nat) :
    (r.inShard i).length = r.strings.countP fun s => shardOf s == i :=
  List.countP_eq_length_filter.symm

/-- No shard has more strings than a name has slots for. -/
def Fits (r : Registry) : Prop := ∀ i, (r.inShard i).length ≤ Name.maxSlot + 1

/-- A string stands where a name says. -/
structure At (r : Registry) (s : String) (n : Name) : Prop where
  shard : n.shard = shardOf s
  slot : (r.inShard n.shard)[n.slot]? = some s

namespace At

theorem mem (placed : r.At s n) : s ∈ r.strings :=
  (mem_inShard.mp (List.mem_of_getElem? placed.slot)).1

theorem lookup (placed : r.At s n) : r.lookup n = s := by
  have found : (r.strings.filter fun s => shardOf s == n.shard)[n.slot]? = some s := placed.slot
  rw [Registry.lookup, found, Option.getD_some]

/-- Different strings stand in different places. -/
theorem string_eq (placed : r.At s n) (placed' : r.At t n) : s = t :=
  placed.lookup.symm.trans placed'.lookup

/-- A string stands in one place only. -/
theorem name_eq (placed : r.At s n) (placed' : r.At s n') : n = n' := by
  have sameShard : n.shard = n'.shard := placed.shard.trans placed'.shard.symm
  refine Name.ext_parts sameShard ?_
  have found := placed.slot
  have found' := placed'.slot
  rw [← sameShard] at found'
  obtain ⟨inside, here⟩ := List.getElem?_eq_some_iff.mp found
  obtain ⟨inside', here'⟩ := List.getElem?_eq_some_iff.mp found'
  exact (r.distinct_inShard n.shard).getElem_inj_iff.mp (here.trans here'.symm)

/-- What is registered later changes no places. -/
theorem mono (placed : r.At s n) (grown : r.strings <+: r'.strings) : r'.At s n := by
  obtain ⟨more, grown⟩ := grown
  have split : r'.inShard n.shard
      = r.inShard n.shard ++ more.filter fun s => shardOf s == n.shard := by
    rw [inShard, ← grown, List.filter_append]
    rfl
  obtain ⟨inside, _⟩ := List.getElem?_eq_some_iff.mp placed.slot
  refine ⟨placed.shard, ?_⟩
  rw [split, List.getElem?_append_left inside, placed.slot]

end At

/-- A name reads as unknown if no string has it, or if the string reads so itself. -/
theorem lookup_eq_unknown_iff : r.lookup n = "<unknown>" ↔ ∀ s, r.At s n → s = "<unknown>" := by
  constructor
  · intro unknown s placed
    exact placed.lookup.symm.trans unknown
  · intro only
    rcases found : (r.inShard n.shard)[n.slot]? with _ | s
    · have missing : (r.strings.filter fun s => shardOf s == n.shard)[n.slot]? = none := found
      rw [lookup, missing, Option.getD_none]
    · have placed : r.At s n := ⟨(mem_inShard.mp (List.mem_of_getElem? found)).2.symm, found⟩
      rw [placed.lookup, only s placed]

/-- Counting the items before an item gives its place among the items that are counted. -/
theorem getElem?_filter_countP {α : Type} [DecidableEq α] {p : α → Bool} {a : α} (counted : p a)
    {xs : List α} (member : a ∈ xs) :
    (xs.filter p)[(xs.takeWhile (· ≠ a)).countP p]? = some a := by
  induction xs with
  | nil => cases member
  | cons x rest ih =>
    by_cases here : x = a
    · subst here
      simp [counted]
    · have later := ih ((List.mem_cons.mp member).resolve_left (Ne.symm here))
      by_cases px : p x <;> simpa [here, px] using later

theorem at_nameIn (fits : r.Fits) (member : s ∈ r.strings) : r.At s (nameIn r.strings s) := by
  have found : (r.inShard (shardOf s))[slotIn r.strings s]? = some s :=
    getElem?_filter_countP (p := fun t => shardOf t == shardOf s) (beq_self_eq_true _) member
  obtain ⟨inside, _⟩ := List.getElem?_eq_some_iff.mp found
  have slotFits : slotIn r.strings s ≤ Name.maxSlot := by
    have bound := fits (shardOf s)
    omega
  have sameShard := Name.shard_ofParts (shardOf_lt s) slotFits
  have sameSlot := Name.slot_ofParts (shardOf_lt s) slotFits
  refine ⟨sameShard, ?_⟩
  rw [nameIn, sameShard, sameSlot, found]

/-- The places that are taken in a shard are its first slots. -/
theorem exists_at_iff (fits : r.Fits) {i j : Nat} :
    (∃ s n, r.At s n ∧ n.shard = i ∧ n.slot = j) ↔ j < (r.inShard i).length := by
  constructor
  · rintro ⟨s, n, placed, rfl, rfl⟩
    exact (List.getElem?_eq_some_iff.mp placed.slot).1
  · intro inside
    obtain ⟨member, here⟩ := mem_inShard.mp (List.getElem_mem inside)
    have placed := at_nameIn fits member
    have sameShard := placed.shard.trans here
    refine ⟨_, _, placed, sameShard, ?_⟩
    have found := placed.slot
    rw [sameShard] at found
    obtain ⟨inside', same⟩ := List.getElem?_eq_some_iff.mp found
    exact (r.distinct_inShard i).getElem_inj_iff.mp same

/-- A call finds a string that is there, or puts a new one behind the strings of its shard, or finds
that the shard is full. -/
theorem intern_cases (fits : r.Fits) (s : String) :
    (s ∈ r.strings ∧ ∃ n, r.At s n ∧ r.intern s = .ok (n, r)) ∨
    (s ∉ r.strings ∧ ∃ n r', r.intern s = .ok (n, r') ∧ r'.strings = r.strings ++ [s] ∧
      n = .ofParts (shardOf s) (r.inShard (shardOf s)).length ∧
      (r.inShard (shardOf s)).length ≤ Name.maxSlot) ∨
    (s ∉ r.strings ∧ (r.inShard (shardOf s)).length = Name.maxSlot + 1 ∧
      r.intern s = .error ⟨shardOf s, Name.maxSlot + 1⟩) := by
  have load := length_inShard (r := r) (shardOf s)
  by_cases known : s ∈ r.strings
  · exact .inl ⟨known, _, at_nameIn fits known, dif_pos known⟩
  right
  rw [intern, dif_neg known]
  by_cases room : (r.inShard (shardOf s)).length ≤ Name.maxSlot
  · left
    rw [load] at room ⊢
    exact ⟨known, _, _, if_pos room, rfl, rfl, room⟩
  · right
    have full : (r.inShard (shardOf s)).length = Name.maxSlot + 1 := by
      have bound := fits (shardOf s)
      omega
    rw [← full, load]
    rw [load] at room
    exact ⟨known, rfl, if_neg room⟩

theorem intern_eq_error_iff (fits : r.Fits) {e : ShardOverflow} :
    r.intern s = .error e ↔
      s ∉ r.strings ∧ (r.inShard (shardOf s)).length = Name.maxSlot + 1 ∧
        e = ⟨shardOf s, Name.maxSlot + 1⟩ := by
  rcases intern_cases fits s with ⟨known, n, _, found⟩ | ⟨_, n, r', added, _, _, room⟩ |
    ⟨new, full, failed⟩
  · rw [found]
    exact iff_of_false nofun fun ⟨new, _⟩ => new known
  · rw [added]
    exact iff_of_false nofun fun ⟨_, full, _⟩ => by omega
  · rw [failed, Except.error.injEq]
    exact ⟨fun same => ⟨new, full, same.symm⟩, fun ⟨_, _, same⟩ => same.symm⟩

theorem inShard_push (grown : r'.strings = r.strings ++ [s]) (i : Nat) :
    r'.inShard i = if shardOf s = i then r.inShard i ++ [s] else r.inShard i := by
  rw [inShard, grown, List.filter_append]
  by_cases here : shardOf s = i
  · rw [if_pos here, List.filter_cons_of_pos (by simpa using here), List.filter_nil]
    rfl
  · rw [if_neg here, List.filter_cons_of_neg (by simpa using here), List.filter_nil,
      List.append_nil]
    rfl

theorem at_push (grown : r'.strings = r.strings ++ [s])
    (room : (r.inShard (shardOf s)).length ≤ Name.maxSlot) :
    r'.At s (.ofParts (shardOf s) (r.inShard (shardOf s)).length) := by
  have sameShard := Name.shard_ofParts (shardOf_lt s) room
  refine ⟨sameShard, ?_⟩
  rw [sameShard, Name.slot_ofParts (shardOf_lt s) room, inShard_push grown, if_pos rfl]
  simp

theorem fits_push (fits : r.Fits) (grown : r'.strings = r.strings ++ [s])
    (room : (r.inShard (shardOf s)).length ≤ Name.maxSlot) : r'.Fits := by
  intro i
  rw [inShard_push grown]
  split
  · next here =>
    subst here
    rw [List.length_append, List.length_singleton]
    omega
  · exact fits i

/-- The string of a call that goes well stands where the name says. Nothing else is registered. -/
theorem of_intern_eq_ok (fits : r.Fits) (answered : r.intern s = .ok (n, r')) :
    r'.Fits ∧ r'.At s n ∧ r.strings <+: r'.strings ∧
      ∀ t, t ∈ r'.strings ↔ t ∈ r.strings ∨ t = s := by
  rcases intern_cases fits s with ⟨known, n', placed, found⟩ |
    ⟨_, n', r'', added, grown, named, room⟩ | ⟨_, _, failed⟩
  · cases found.symm.trans answered
    refine ⟨fits, placed, List.prefix_rfl, fun t => ⟨.inl, ?_⟩⟩
    rintro (old | rfl)
    · exact old
    · exact known
  · cases added.symm.trans answered
    subst named
    refine ⟨fits_push fits grown room, at_push grown room, ⟨[s], grown.symm⟩, fun t => ?_⟩
    rw [grown, List.mem_append, List.mem_singleton]
  · cases failed.symm.trans answered

/-- Asking for a string changes nothing if the string is there, and then gives its name. -/
theorem intern_eq_self_iff (fits : r.Fits) : r.intern s = .ok (n, r) ↔ r.At s n := by
  refine ⟨fun answered => (of_intern_eq_ok fits answered).2.1, fun placed => ?_⟩
  have named := at_nameIn fits placed.mem
  rw [intern, dif_pos placed.mem, named.name_eq placed]

/-- The answers to some calls, one after another. -/
def answers (r : Registry) : List String → List (String × Except ShardOverflow Name)
  | [] => []
  | s :: rest => (s, (r.intern s).map Prod.fst) :: (r.internAll [s]).answers rest

/-- The strings that were given a name. -/
def named (answers : List (String × Except ShardOverflow Name)) : List String :=
  answers.filterMap fun (s, answer) => answer.toOption.map fun _ => s

theorem internAll_cons (r : Registry) (s : String) (rest : List String) :
    r.internAll (s :: rest) = (r.internAll [s]).internAll rest := rfl

theorem internAll_of_ok (answered : r.intern s = .ok (n, r')) : r.internAll [s] = r' := by
  rw [internAll, List.foldl_cons, answered, List.foldl_nil]

theorem internAll_of_error {e : ShardOverflow} (failed : r.intern s = .error e) :
    r.internAll [s] = r := by
  rw [internAll, List.foldl_cons, failed, List.foldl_nil]

theorem named_answers_cons (r : Registry) (s : String) (rest : List String) :
    named (r.answers (s :: rest)) = match r.intern s with
      | .ok (_, r') => s :: named (r'.answers rest)
      | .error _ => named (r.answers rest) := by
  rw [answers, named, List.filterMap_cons]
  rcases answer : r.intern s with e | ⟨n, r'⟩
  · rw [internAll_of_error answer]
    rfl
  · rw [internAll_of_ok answer]
    rfl

/-- A run takes no place from a string, and registers the strings that it gives names. -/
theorem of_internAll (fits : r.Fits) (calls : List String) :
    (r.internAll calls).Fits ∧ r.strings <+: (r.internAll calls).strings ∧
      ∀ s, s ∈ (r.internAll calls).strings ↔ s ∈ r.strings ∨ s ∈ named (r.answers calls) := by
  induction calls generalizing r with
  | nil =>
    exact ⟨fits, List.prefix_rfl, fun s => ⟨.inl, fun member => member.resolve_right nofun⟩⟩
  | cons t rest ih =>
    rw [internAll_cons, named_answers_cons]
    rcases answer : r.intern t with e | ⟨n, r'⟩
    · rw [internAll_of_error answer]
      exact ih fits
    · obtain ⟨fits', _, grown, member⟩ := of_intern_eq_ok fits answer
      obtain ⟨fits'', grown', member'⟩ := ih fits'
      rw [internAll_of_ok answer]
      refine ⟨fits'', grown.trans grown', fun s => ?_⟩
      rw [member', member, List.mem_cons, or_assoc]

theorem fits_internAll (fits : r.Fits) (calls : List String) : (r.internAll calls).Fits :=
  (of_internAll fits calls).1

/-- The string of a name that was given in a run stands in the end where the name says. -/
theorem at_of_answered (fits : r.Fits) {calls : List String}
    (answered : (s, .ok n) ∈ r.answers calls) : (r.internAll calls).At s n := by
  induction calls generalizing r with
  | nil => cases answered
  | cons t rest ih =>
    rw [internAll_cons]
    have fits' := fits_internAll fits [t]
    rcases List.mem_cons.mp answered with now | later
    · rcases answer : r.intern t with e | ⟨n', r'⟩
      · rw [answer] at now
        cases now
      · rw [answer] at now
        cases now
        have placed := (of_intern_eq_ok fits answer).2.1
        rw [← internAll_of_ok answer] at placed
        exact placed.mono (of_internAll fits' rest).2.1
    · exact ih fits' later

theorem fits_of_few (few : r.strings.length ≤ Name.maxSlot + 1) : r.Fits := fun _ =>
  (List.length_filter_le _ r.strings).trans few

/-- New strings are registered in the order of the calls, if there is room for all. -/
theorem strings_internAll_of_new {new : List String} (distinct : (r.strings ++ new).Nodup)
    (few : (r.strings ++ new).length ≤ Name.maxSlot + 1) :
    (r.internAll new).strings = r.strings ++ new := by
  induction new generalizing r with
  | nil => exact (List.append_nil _).symm
  | cons s rest ih =>
    rw [List.length_append, List.length_cons] at few
    have fits : r.Fits := fits_of_few (by omega)
    have fresh : s ∉ r.strings := fun member =>
      List.disjoint_of_nodup_append distinct member List.mem_cons_self
    have load : (r.inShard (shardOf s)).length ≤ r.strings.length := List.length_filter_le ..
    rcases intern_cases fits s with ⟨known, _⟩ | ⟨_, n, r', added, grown, _⟩ | ⟨_, full, _⟩
    · exact absurd known fresh
    · have appended : r.strings ++ s :: rest = r'.strings ++ rest := by
        rw [grown, List.append_assoc, List.singleton_append]
      rw [appended] at distinct ⊢
      have few' : (r'.strings ++ rest).length ≤ Name.maxSlot + 1 := by
        rw [← appended, List.length_append, List.length_cons]
        exact few
      rw [internAll_cons, internAll_of_ok added, ih distinct few']
    · omega

theorem initial_eq : initial = (⟨[""], List.nodup_singleton ""⟩ : Registry).internAll keywords :=
  ext_strings (strings_internAll_of_new (r := ⟨[""], List.nodup_singleton ""⟩) initial.distinct
    (by decide)).symm

theorem fits_initial : initial.Fits := fits_of_few (by decide)

/-- The registry after some calls, one after another. -/
def after (calls : List String) : Registry := initial.internAll calls

theorem fits_after (calls : List String) : (after calls).Fits := fits_internAll fits_initial calls

/-- The empty string, the words of the surface language, and all strings that were given a name. -/
def interned (calls : List String) : Finset String :=
  ("" :: keywords ++ named (initial.answers calls)).toFinset

section Run

variable (calls : List String)

theorem mem_interned : s ∈ interned calls ↔ s ∈ (after calls).strings := by
  have registered := (of_internAll fits_initial calls).2.2 s
  rw [interned, List.mem_toFinset, List.mem_append, after, registered]
  rfl

theorem size_after : (after calls).size = (interned calls).card := by
  have same : interned calls = (after calls).strings.toFinset :=
    Finset.ext fun s => (mem_interned calls).trans List.mem_toFinset.symm
  rw [same, List.toFinset_card_of_nodup (after calls).distinct, size]

theorem length_inShard_after (i : Nat) :
    ((after calls).inShard i).length
      = ((interned calls).filter (shardOf · = i)).card := by
  have same : (interned calls).filter (shardOf · = i)
      = ((after calls).inShard i).toFinset := by
    ext s
    rw [Finset.mem_filter, mem_interned, List.mem_toFinset, mem_inShard]
  rw [same, List.toFinset_card_of_nodup (distinct_inShard i)]

end Run

end Registry

end SurfaceTree
