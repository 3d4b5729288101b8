import SurfaceTree.Proofs.Registry

namespace SurfaceTree

/-- The strings of one shard by slot, and the slots of these strings. -/
structure Shard where
  strings : List String
  slot? : String → Option Nat

namespace Shard

def empty : Shard := ⟨[], fun _ => none⟩

/-- Puts a string into the next slot. -/
def push (h : Shard) (s : String) : Shard :=
  ⟨h.strings ++ [s], Function.update h.slot? s (some h.strings.length)⟩

/-- The two tables say the same. -/
def Inverse (h : Shard) : Prop := ∀ s j, h.slot? s = some j ↔ h.strings[j]? = some s

variable {h : Shard} {s t : String}

theorem push_strings : (h.push s).strings = h.strings ++ [s] := rfl

theorem push_slot?_self : (h.push s).slot? s = some h.strings.length := Function.update_self ..

theorem push_slot?_of_ne (ne : t ≠ s) : (h.push s).slot? t = h.slot? t :=
  Function.update_of_ne ne ..

theorem inverse_empty : empty.Inverse := fun _ _ => ⟨nofun, nofun⟩

theorem mem_strings (inverse : h.Inverse) : s ∈ h.strings ↔ h.slot? s ≠ none := by
  rw [List.mem_iff_getElem?, Option.ne_none_iff_exists']
  exact exists_congr fun j => (inverse s j).symm

theorem inverse_push (inverse : h.Inverse) (new : h.slot? s = none) : (h.push s).Inverse := by
  have fresh : s ∉ h.strings := fun member => (mem_strings inverse).mp member new
  intro t j
  rw [push_strings, List.getElem?_append]
  by_cases here : t = s
  · subst here
    rw [push_slot?_self, Option.some.injEq]
    split
    · next before =>
      have absent : h.strings[j]? ≠ some t := fun found => fresh (List.mem_of_getElem? found)
      exact iff_of_false (by omega) absent
    · next behind =>
      rw [List.getElem?_singleton]
      split
      · exact iff_of_true (by omega) rfl
      · exact iff_of_false (by omega) nofun
  · rw [push_slot?_of_ne here, inverse t j]
    split
    · exact Iff.rfl
    · next behind =>
      rw [List.getElem?_eq_none (by omega), List.getElem?_singleton]
      split
      · exact iff_of_false nofun fun same => here (Option.some.inj same).symm
      · exact Iff.rfl

end Shard

/-- A registry with a shard for each number that a name can select, and a count of all strings. -/
structure ShardedRegistry where
  shard : Fin Name.shardCount → Shard
  size : Nat

namespace ShardedRegistry

/-- The shard that the first bytes of a string select. -/
def place (s : String) : Fin Name.shardCount := ⟨Registry.shardOf s, Registry.shardOf_lt s⟩

/-- Puts a string into the next slot of its shard. -/
def push (g : ShardedRegistry) (s : String) : ShardedRegistry :=
  ⟨Function.update g.shard (place s) ((g.shard (place s)).push s), g.size + 1⟩

/-- The name of a string, registering it if it is new and its shard has a slot left. No answer means
that the shard or the slot does not fit into a name. -/
def intern (g : ShardedRegistry) (s : String) :
    Option (Except ShardOverflow Name) × ShardedRegistry :=
  match (g.shard (place s)).slot? s with
  | some slot => ((Name.ofParts? (place s) slot).map .ok, g)
  | none =>
    let slot := (g.shard (place s)).strings.length
    if slot ≤ Name.maxSlot then ((Name.ofParts? (place s) slot).map .ok, g.push s)
    else (some (.error ⟨place s, slot⟩), g)

def internAll (g : ShardedRegistry) (strings : List String) : ShardedRegistry :=
  strings.foldl (fun g s => (g.intern s).2) g

def lookup (g : ShardedRegistry) (n : Name) : String :=
  (g.shard ⟨n.shard, n.shard_lt⟩).strings[n.slot]?.getD "<unknown>"

def vacant : ShardedRegistry := ⟨fun _ => Shard.empty, 0⟩

/-- The empty string stands in the first slot of the first shard. -/
def blank : ShardedRegistry := ⟨fun i => if i.val = 0 then Shard.empty.push "" else Shard.empty, 1⟩

def initial : ShardedRegistry := blank.internAll Registry.keywords

section Push

variable {g : ShardedRegistry} {s : String}

theorem push_shard_self : (g.push s).shard (place s) = (g.shard (place s)).push s :=
  Function.update_self ..

theorem push_shard_of_ne {i : Fin Name.shardCount} (ne : i ≠ place s) :
    (g.push s).shard i = g.shard i :=
  Function.update_of_ne ne ..

theorem push_size : (g.push s).size = g.size + 1 := rfl

end Push

/-- Both registries hold the same strings in the same places. -/
structure Holds (g : ShardedRegistry) (r : Registry) : Prop where
  strings : ∀ i, (g.shard i).strings = r.inShard i
  inverse : ∀ i, (g.shard i).Inverse
  size : g.size = r.size

namespace Holds

variable {g : ShardedRegistry} {r r' : Registry} {s : String} {n : Name}

theorem lookup (holds : g.Holds r) (n : Name) : g.lookup n = r.lookup n := by
  rw [ShardedRegistry.lookup, holds.strings]
  rfl

theorem slot?_eq_some (holds : g.Holds r) (placed : r.At s n) :
    (g.shard (place s)).slot? s = some n.slot := by
  have found := placed.slot
  rw [placed.shard] at found
  rw [holds.inverse, holds.strings]
  exact found

theorem slot?_eq_none (holds : g.Holds r) (new : s ∉ r.strings) :
    (g.shard (place s)).slot? s = none := by
  have absent : s ∉ (g.shard (place s)).strings := by
    rw [holds.strings]
    exact fun member => new (Registry.mem_inShard.mp member).1
  exact not_not.mp fun found => absent ((Shard.mem_strings (holds.inverse _)).mpr found)

theorem push (holds : g.Holds r) (new : s ∉ r.strings) (grown : r'.strings = r.strings ++ [s]) :
    (g.push s).Holds r' := by
  refine ⟨fun i => ?_, fun i => ?_, ?_⟩
  · rw [Registry.inShard_push grown]
    by_cases here : i = place s
    · subst here
      have own : Registry.shardOf s = place s := rfl
      rw [push_shard_self, if_pos own, Shard.push_strings, holds.strings]
    · have elsewhere : Registry.shardOf s ≠ i := fun same => here (Fin.ext same.symm)
      rw [push_shard_of_ne here, if_neg elsewhere, holds.strings]
  · by_cases here : i = place s
    · subst here
      rw [push_shard_self]
      exact Shard.inverse_push (holds.inverse _) (holds.slot?_eq_none new)
    · rw [push_shard_of_ne here]
      exact holds.inverse i
  · rw [push_size, holds.size, Registry.size, Registry.size, grown, List.length_append,
      List.length_singleton]

/-- Both registries give the same answer, and hold the same afterwards. -/
theorem intern (holds : g.Holds r) (fits : r.Fits) (s : String) :
    (g.intern s).1 = some ((r.intern s).map Prod.fst) ∧ (g.intern s).2.Holds (r.internAll [s]) := by
  have load : (g.shard (place s)).strings.length = (r.inShard (Registry.shardOf s)).length :=
    congrArg List.length (holds.strings (place s))
  have shardFits := Registry.shardOf_lt s
  rcases Registry.intern_cases fits s with ⟨_, n, placed, found⟩ |
    ⟨new, n, r', added, grown, named, room⟩ | ⟨new, full, failed⟩
  · have sameName : Name.ofParts (place s) n.slot = n :=
      Name.ext_parts ((Name.shard_ofParts shardFits n.slot_le).trans placed.shard.symm)
        (Name.slot_ofParts shardFits n.slot_le)
    have answered : g.intern s = (some (.ok n), g) := by
      rw [ShardedRegistry.intern, holds.slot?_eq_some placed]
      simp only [Name.ofParts?_eq (place s).isLt n.slot_le, sameName, Option.map_some]
    rw [answered, found, Registry.internAll_of_ok found]
    exact ⟨rfl, holds⟩
  · have answered : g.intern s = (some (.ok n), g.push s) := by
      rw [ShardedRegistry.intern, holds.slot?_eq_none new]
      simp only [load, if_pos room, Name.ofParts?_eq (place s).isLt room, Option.map_some, named]
      rfl
    rw [answered, added, Registry.internAll_of_ok added]
    exact ⟨rfl, holds.push new grown⟩
  · have answered : g.intern s = (some (.error ⟨place s, Name.maxSlot + 1⟩), g) := by
      rw [ShardedRegistry.intern, holds.slot?_eq_none new]
      simp only [load, full, if_neg (Nat.not_succ_le_self _)]
    rw [answered, failed, Registry.internAll_of_error failed]
    exact ⟨rfl, holds⟩

theorem internAll (holds : g.Holds r) (fits : r.Fits) (calls : List String) :
    (g.internAll calls).Holds (r.internAll calls) := by
  induction calls generalizing g r with
  | nil => exact holds
  | cons s rest ih => exact ih (holds.intern fits s).2 (Registry.fits_internAll fits [s])

end Holds

theorem vacant_holds : vacant.Holds ⟨[], List.nodup_nil⟩ :=
  ⟨fun _ => rfl, fun _ => Shard.inverse_empty, rfl⟩

theorem blank_eq : blank = vacant.push "" := by
  have first : (place "").val = 0 := by decide +kernel
  have shards : blank.shard = (vacant.push "").shard := by
    funext i
    by_cases here : i = place ""
    · subst here
      rw [push_shard_self]
      exact if_pos first
    · rw [push_shard_of_ne here]
      exact if_neg fun zero => here (Fin.ext (zero.trans first.symm))
  exact congr(⟨$shards, 1⟩)

theorem blank_holds : blank.Holds ⟨[""], List.nodup_singleton ""⟩ := by
  rw [blank_eq]
  exact vacant_holds.push List.not_mem_nil rfl

theorem initial_holds : initial.Holds Registry.initial := by
  have fits : (⟨[""], List.nodup_singleton ""⟩ : Registry).Fits := Registry.fits_of_few (by decide)
  rw [initial, Registry.initial_eq]
  exact blank_holds.internAll fits Registry.keywords

/-- The registry after some calls, one after another. -/
def after (calls : List String) : ShardedRegistry := initial.internAll calls

theorem after_holds (calls : List String) : (after calls).Holds (Registry.after calls) :=
  initial_holds.internAll Registry.fits_initial calls

/-- A call that fails changes nothing. -/
theorem intern_of_error {g : ShardedRegistry} {s : String} {e : ShardOverflow}
    (failed : (g.intern s).1 = some (.error e)) : (g.intern s).2 = g := by
  rw [intern] at failed ⊢
  split
  · rfl
  · next missing =>
    rw [missing] at failed
    dsimp only at failed ⊢
    split
    · next room =>
      rw [if_pos room, Option.map_eq_some_iff] at failed
      obtain ⟨_, _, same⟩ := failed
      cases same
    · rfl

end ShardedRegistry

namespace Registry

/-- Whatever strings are interned, one after another: the name of a string is permanent, different
strings have different names, all strings that were given a name are counted once, and the names of
each shard fill its first slots. A call that fails is as if it had not been made. A registry that
keeps its shards apart gives the same answers, and always gives one. -/
theorem names_of_run (calls : List String) :
    (∀ s n, (s, .ok n) ∈ initial.answers calls →
      (after calls).lookup n = s ∧ (after calls).intern s = .ok (n, after calls)) ∧
    (∀ s n t n', (s, .ok n) ∈ initial.answers calls → (t, .ok n') ∈ initial.answers calls →
      (n = n' ↔ s = t)) ∧
    (after calls).size = (interned calls).card ∧
    (∀ i j,
      (∃ s ∈ interned calls, ∃ n,
        (after calls).intern s = .ok (n, after calls) ∧ n.shard = i ∧ n.slot = j) ↔
      j < ((interned calls).filter (shardOf · = i)).card) ∧
    (∀ n, (after calls).lookup n = "<unknown>" ↔
      ∀ s ∈ interned calls, (after calls).intern s = .ok (n, after calls) → s = "<unknown>") ∧
    (∀ s e, (after calls).intern s = .error e ↔
      s ∉ interned calls ∧
        ((interned calls).filter (shardOf · = shardOf s)).card = Name.maxSlot + 1 ∧
        e = ⟨shardOf s, Name.maxSlot + 1⟩) ∧
    (∀ s e later, (after calls).intern s = .error e →
      (after calls).internAll (s :: later) = (after calls).internAll later ∧
        (after calls).answers (s :: later) = (s, .error e) :: (after calls).answers later) ∧
    (∀ s, ((ShardedRegistry.after calls).intern s).1
      = some (((after calls).intern s).map Prod.fst)) ∧
    (∀ s e, ((ShardedRegistry.after calls).intern s).1 = some (.error e) →
      ((ShardedRegistry.after calls).intern s).2 = ShardedRegistry.after calls) ∧
    (∀ n, (ShardedRegistry.after calls).lookup n = (after calls).lookup n) ∧
    (ShardedRegistry.after calls).size = (after calls).size := by
  have fits := fits_after calls
  have holds := ShardedRegistry.after_holds calls
  refine ⟨fun s n answered => ?_, fun s n t n' answered answered' => ?_, size_after calls,
    fun i j => ?_, fun n => ?_, fun s e => ?_, fun s e later failed => ?_,
    fun s => (holds.intern fits s).1, fun s e => ShardedRegistry.intern_of_error, holds.lookup,
    holds.size⟩
  · have placed := at_of_answered fits_initial answered
    exact ⟨placed.lookup, (intern_eq_self_iff fits).mpr placed⟩
  · have placed := at_of_answered fits_initial answered
    have placed' := at_of_answered fits_initial answered'
    constructor
    · rintro rfl
      exact placed.string_eq placed'
    · rintro rfl
      exact placed.name_eq placed'
  · rw [← length_inShard_after, ← exists_at_iff fits]
    constructor
    · rintro ⟨s, _, n, answered, here⟩
      exact ⟨s, n, (intern_eq_self_iff fits).mp answered, here⟩
    · rintro ⟨s, n, placed, here⟩
      exact ⟨s, (mem_interned calls).mpr placed.mem, n, (intern_eq_self_iff fits).mpr placed, here⟩
  · rw [lookup_eq_unknown_iff]
    constructor
    · intro only s _ answered
      exact only s ((intern_eq_self_iff fits).mp answered)
    · intro only s placed
      exact only s ((mem_interned calls).mpr placed.mem) ((intern_eq_self_iff fits).mpr placed)
  · rw [intern_eq_error_iff fits, mem_interned, ← length_inShard_after]
  · rw [internAll_cons, answers, internAll_of_error failed, failed]
    exact ⟨rfl, rfl⟩

/-- Of these three calls, only the first one registers a string. -/
example : (after ["x", "theorem", "x"]).size = initial.size + 1 := by decide +kernel

end Registry

end SurfaceTree
