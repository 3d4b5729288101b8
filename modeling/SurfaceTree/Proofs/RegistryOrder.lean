import SurfaceTree.Proofs.ShardedRegistry

namespace SurfaceTree

namespace Registry

/-- The calls for strings of one shard, in their order. -/
def callsIn (i : Nat) (calls : List String) : List String := calls.filter fun s => shardOf s == i

/-- The answers to the calls for strings of one shard, in their order. -/
def answersIn (i : Nat) (answers : List (String × Except ShardOverflow Name)) :
    List (String × Except ShardOverflow Name) :=
  answers.filter fun answer => shardOf answer.1 == i

/-- No calls tell two registries apart: after any of them, both have given the same answers, read
every name as the same string and are of the same size. -/
def Alike (r r' : Registry) : Prop :=
  ∀ later, r.answers later = r'.answers later ∧
    (∀ n, (r.internAll later).lookup n = (r'.internAll later).lookup n) ∧
    (r.internAll later).size = (r'.internAll later).size

variable {r r' : Registry} {s : String} {i : Nat}

theorem callsIn_cons (i : Nat) (s : String) (rest : List String) :
    callsIn i (s :: rest) = if shardOf s = i then s :: callsIn i rest else callsIn i rest := by
  simp only [callsIn, List.filter_cons, beq_iff_eq]

theorem answersIn_cons (i : Nat) (s : String) (answer : Except ShardOverflow Name)
    (rest : List (String × Except ShardOverflow Name)) :
    answersIn i ((s, answer) :: rest)
      = if shardOf s = i then (s, answer) :: answersIn i rest else answersIn i rest := by
  simp only [answersIn, List.filter_cons, beq_iff_eq]

/-- A call leaves the other shards as they are. -/
theorem inShard_internAll_of_ne (fits : r.Fits) (elsewhere : shardOf s ≠ i) :
    (r.internAll [s]).inShard i = r.inShard i := by
  rcases intern_cases fits s with ⟨_, n, _, found⟩ | ⟨_, n, pushed, added, grown, _⟩ |
    ⟨_, _, failed⟩
  · rw [internAll_of_ok found]
  · rw [internAll_of_ok added, inShard_push grown, if_neg elsewhere]
  · rw [internAll_of_error failed]

/-- The answer to a call, and what the call makes of its shard, depend only on the shard. -/
theorem intern_congr (fits : r.Fits) (fits' : r'.Fits)
    (same : r.inShard (shardOf s) = r'.inShard (shardOf s)) :
    (r.intern s).map Prod.fst = (r'.intern s).map Prod.fst ∧
      (r.internAll [s]).inShard (shardOf s) = (r'.internAll [s]).inShard (shardOf s) := by
  have known : s ∈ r.strings ↔ s ∈ r'.strings := by
    have inside : s ∈ r.inShard (shardOf s) ↔ s ∈ r'.inShard (shardOf s) := by rw [same]
    simpa only [mem_inShard, and_true] using inside
  have load := congrArg List.length same
  rcases intern_cases fits s with ⟨here, n, placed, found⟩ |
    ⟨new, n, pushed, added, grown, named, room⟩ | ⟨new, full, failed⟩
  · have placed' : r'.At s n := by
      refine ⟨placed.shard, ?_⟩
      rw [placed.shard, ← same, ← placed.shard]
      exact placed.slot
    have found' := (intern_eq_self_iff fits').mpr placed'
    rw [found, found', internAll_of_ok found, internAll_of_ok found']
    exact ⟨rfl, same⟩
  · rcases intern_cases fits' s with ⟨here', _⟩ | ⟨_, n', pushed', added', grown', named', _⟩ |
      ⟨_, full', _⟩
    · exact absurd (known.mpr here') new
    · rw [added, added', internAll_of_ok added, internAll_of_ok added', inShard_push grown,
        inShard_push grown', if_pos rfl, if_pos rfl, named, named', same]
      exact ⟨rfl, rfl⟩
    · omega
  · rcases intern_cases fits' s with ⟨here', _⟩ | ⟨_, _, _, _, _, _, room'⟩ | ⟨_, _, failed'⟩
    · exact absurd (known.mpr here') new
    · omega
    · rw [failed, failed', internAll_of_error failed, internAll_of_error failed']
      exact ⟨rfl, same⟩

theorem length_inShard_internAll_le (fits : r.Fits) (s : String) (i : Nat) :
    ((r.internAll [s]).inShard i).length
      ≤ (r.inShard i).length + if shardOf s = i then 1 else 0 := by
  rcases intern_cases fits s with ⟨_, n, _, found⟩ | ⟨_, n, pushed, added, grown, _⟩ |
    ⟨_, _, failed⟩
  · rw [internAll_of_ok found]
    omega
  · rw [internAll_of_ok added, inShard_push grown]
    split
    · rw [List.length_append, List.length_singleton]
    · omega
  · rw [internAll_of_error failed]
    omega

/-- A string is given a name if its shard is not full. -/
theorem exists_name_of_room (fits : r.Fits) (room : (r.inShard (shardOf s)).length ≤ Name.maxSlot) :
    ∃ n, (r.intern s).map Prod.fst = .ok n := by
  rcases intern_cases fits s with ⟨_, n, _, found⟩ | ⟨_, n, _, added, _⟩ | ⟨_, full, _⟩
  · exact ⟨n, by rw [found]; rfl⟩
  · exact ⟨n, by rw [added]; rfl⟩
  · omega

/-- A run answers the calls for one shard, and fills the shard, as if it were made of these calls
alone. -/
theorem run_congr (fits : r.Fits) (fits' : r'.Fits) (same : r.inShard i = r'.inShard i)
    (calls : List String) :
    answersIn i (r.answers calls) = r'.answers (callsIn i calls) ∧
      (r.internAll calls).inShard i = (r'.internAll (callsIn i calls)).inShard i := by
  induction calls generalizing r r' with
  | nil => exact ⟨rfl, same⟩
  | cons s rest ih =>
    have next := fits_internAll fits [s]
    rw [internAll_cons, Registry.answers, answersIn_cons, callsIn_cons]
    by_cases here : shardOf s = i
    · subst here
      obtain ⟨answer, after⟩ := intern_congr fits fits' same
      obtain ⟨answers, ended⟩ := ih next (fits_internAll fits' [s]) after
      rw [if_pos rfl, if_pos rfl, internAll_cons r', Registry.answers, answer, answers]
      exact ⟨rfl, ended⟩
    · have after := (inShard_internAll_of_ne fits here).trans same
      rw [if_neg here, if_neg here]
      exact ih next fits' after

/-- Every string of a run is given a name if no shard gets more calls than it has slots left. -/
theorem exists_name_of_mem (fits : r.Fits) {calls : List String}
    (room : ∀ i, (r.inShard i).length + (callsIn i calls).length ≤ Name.maxSlot + 1)
    (asked : s ∈ calls) : ∃ n, (s, .ok n) ∈ r.answers calls := by
  induction calls generalizing r with
  | nil => cases asked
  | cons t rest ih =>
    rcases List.mem_cons.mp asked with rfl | later
    · have own := room (shardOf s)
      rw [callsIn_cons, if_pos rfl, List.length_cons] at own
      obtain ⟨n, named⟩ := exists_name_of_room (s := s) fits (by omega)
      refine ⟨n, ?_⟩
      rw [Registry.answers, named]
      exact List.mem_cons_self
    · have roomLeft (i : Nat) :
          ((r.internAll [t]).inShard i).length + (callsIn i rest).length ≤ Name.maxSlot + 1 := by
        have before := room i
        have grown := length_inShard_internAll_le fits t i
        rw [callsIn_cons] at before
        split at before
        · next here =>
          rw [if_pos here] at grown
          rw [List.length_cons] at before
          omega
        · next elsewhere =>
          rw [if_neg elsewhere] at grown
          omega
      obtain ⟨n, named⟩ := ih (fits_internAll fits [t]) roomLeft later
      exact ⟨n, List.mem_cons_of_mem _ named⟩

section Interleaved

variable (fits : r.Fits) {calls calls' : List String}
  (alike : ∀ i, callsIn i calls = callsIn i calls')

include fits alike

theorem answersIn_eq (i : Nat) :
    answersIn i (r.answers calls) = answersIn i (r.answers calls') := by
  rw [(run_congr fits fits rfl calls).1, (run_congr fits fits rfl calls').1, alike]

theorem inShard_internAll_eq (i : Nat) :
    (r.internAll calls).inShard i = (r.internAll calls').inShard i := by
  rw [(run_congr fits fits rfl calls).2, (run_congr fits fits rfl calls').2, alike]

theorem mem_answers_iff (answer : String × Except ShardOverflow Name) :
    answer ∈ r.answers calls ↔ answer ∈ r.answers calls' := by
  have same := answersIn_eq fits alike (shardOf answer.1)
  have listed : answer ∈ answersIn (shardOf answer.1) (r.answers calls) ↔
      answer ∈ answersIn (shardOf answer.1) (r.answers calls') := by rw [same]
  simpa only [answersIn, List.mem_filter, beq_self_eq_true, and_true] using listed

end Interleaved

section SameShards

variable (fits : r.Fits) (fits' : r'.Fits) (same : ∀ i, r.inShard i = r'.inShard i)

include same

/-- A string is in the list of all strings as often as in its shard. -/
theorem size_eq_of_inShard : r.size = r'.size := by
  refine List.Perm.length_eq (List.perm_iff_count.mpr fun s => ?_)
  have own : (shardOf s == shardOf s) = true := beq_self_eq_true _
  have counted (r : Registry) : (r.inShard (shardOf s)).count s = r.strings.count s :=
    List.count_filter own
  rw [← counted r, ← counted r', same]

theorem lookup_eq_of_inShard (n : Name) : r.lookup n = r'.lookup n :=
  congrArg (fun held : List String => held[n.slot]?.getD "<unknown>") (same n.shard)

include fits fits'

theorem inShard_internAll_congr (s : String) (i : Nat) :
    (r.internAll [s]).inShard i = (r'.internAll [s]).inShard i := by
  by_cases here : shardOf s = i
  · subst here
    exact (intern_congr fits fits' (same _)).2
  · rw [inShard_internAll_of_ne fits here, inShard_internAll_of_ne fits' here, same]

theorem alike_of_inShard : Alike r r' := by
  intro later
  induction later generalizing r r' with
  | nil => exact ⟨rfl, lookup_eq_of_inShard same, size_eq_of_inShard same⟩
  | cons s rest ih =>
    have next := inShard_internAll_congr fits fits' same s
    obtain ⟨answers, ended⟩ := ih (fits_internAll fits [s]) (fits_internAll fits' [s]) next
    rw [internAll_cons, internAll_cons r']
    refine ⟨?_, ended⟩
    rw [Registry.answers, Registry.answers, answers, (intern_congr fits fits' (same _)).1]

end SameShards

end Registry

namespace Shard

/-- The strings of a shard determine the table of their slots. -/
theorem ext_strings {h h' : Shard} (inverse : h.Inverse) (inverse' : h'.Inverse)
    (same : h.strings = h'.strings) : h = h' := by
  have slots : h.slot? = h'.slot? := by
    funext s
    refine Option.ext fun j => ?_
    rw [inverse, inverse', same]
  cases h
  cases h'
  exact congr(⟨$same, $slots⟩)

end Shard

theorem ShardedRegistry.Holds.eq_of_inShard {g g' : ShardedRegistry} {r r' : Registry}
    (holds : g.Holds r) (holds' : g'.Holds r') (same : ∀ i, r.inShard i = r'.inShard i) :
    g = g' := by
  have shards : g.shard = g'.shard := by
    funext i
    refine Shard.ext_strings (holds.inverse i) (holds'.inverse i) ?_
    rw [holds.strings, holds'.strings, same]
  have sizes : g.size = g'.size := by
    rw [holds.size, holds'.size, Registry.size_eq_of_inShard same]
  cases g
  cases g'
  exact congr(⟨$shards, $sizes⟩)

namespace Registry

theorem after_append (calls more : List String) :
    after (calls ++ more) = (after calls).internAll more := List.foldl_append

/-- Two strings of different shards find room, whichever comes first, if none of the shards is
full. -/
theorem exists_answers_pair {r : Registry} (fits : r.Fits)
    (room : ∀ i, (r.inShard i).length ≤ Name.maxSlot) {s t : String}
    (apart : shardOf s ≠ shardOf t) :
    ∃ n m, r.answers [s, t] = [(s, .ok n), (t, .ok m)] ∧
      r.answers [t, s] = [(t, .ok m), (s, .ok n)] := by
  have later (u v : String) (other : shardOf u ≠ shardOf v) :
      ((r.internAll [u]).intern v).map Prod.fst = (r.intern v).map Prod.fst :=
    (intern_congr (fits_internAll fits [u]) fits (inShard_internAll_of_ne fits other)).1
  obtain ⟨n, ofS⟩ := exists_name_of_room fits (room (shardOf s))
  obtain ⟨m, ofT⟩ := exists_name_of_room fits (room (shardOf t))
  refine ⟨n, m, ?_, ?_⟩
  · simp only [answers, later s t apart, ofS, ofT]
  · simp only [answers, later t s (Ne.symm apart), ofS, ofT]

theorem callsIn_pair_comm {s t : String} (apart : shardOf s ≠ shardOf t) (i : Nat) :
    callsIn i [s, t] = callsIn i [t, s] := by
  simp only [callsIn_cons]
  by_cases ofS : shardOf s = i
  · have notT : shardOf t ≠ i := fun same => apart (ofS.trans same.symm)
    rw [if_pos ofS, if_neg notT, if_neg notT, if_pos ofS]
  · rw [if_neg ofS, if_neg ofS]

/-- Whatever was registered before: two strings of different shards get the same names in either
order, and no later calls can tell which was first. More generally, two runs whose calls for each
shard are the same in the same order give the same answers to the calls for each shard, so the same
name to every string, and a name to all of them if no shard gets too many calls. No later calls tell
the two runs apart, and a registry that keeps its shards apart is the same after both. -/
theorem names_of_interleaving (calls : List String) :
    (∀ s t, shardOf s ≠ shardOf t → (∀ i, ((after calls).inShard i).length ≤ Name.maxSlot) →
      (∃ n m, (after calls).answers [s, t] = [(s, .ok n), (t, .ok m)] ∧
        (after calls).answers [t, s] = [(t, .ok m), (s, .ok n)]) ∧
      Alike (after (calls ++ [s, t])) (after (calls ++ [t, s]))) ∧
    ∀ xs ys, (∀ i, callsIn i xs = callsIn i ys) →
      (∀ i, answersIn i ((after calls).answers xs) = answersIn i ((after calls).answers ys)) ∧
      (∀ s n, (s, .ok n) ∈ (after calls).answers xs ↔ (s, .ok n) ∈ (after calls).answers ys) ∧
      ((∀ i, ((after calls).inShard i).length + (callsIn i xs).length ≤ Name.maxSlot + 1) →
        ∀ s ∈ xs, ∃ n, (s, .ok n) ∈ (after calls).answers xs) ∧
      Alike (after (calls ++ xs)) (after (calls ++ ys)) ∧
      ShardedRegistry.after (calls ++ xs) = ShardedRegistry.after (calls ++ ys) := by
  have fits := fits_after calls
  have shards (xs ys : List String) (alike : ∀ i, callsIn i xs = callsIn i ys) (i : Nat) :
      (after (calls ++ xs)).inShard i = (after (calls ++ ys)).inShard i := by
    rw [after_append, after_append]
    exact inShard_internAll_eq fits alike i
  have indistinct (xs ys : List String) (alike : ∀ i, callsIn i xs = callsIn i ys) :
      Alike (after (calls ++ xs)) (after (calls ++ ys)) :=
    alike_of_inShard (fits_after _) (fits_after _) (shards xs ys alike)
  refine ⟨fun s t apart room => ⟨exists_answers_pair fits room apart,
    indistinct _ _ (callsIn_pair_comm apart)⟩, fun xs ys alike => ?_⟩
  have sharded := (ShardedRegistry.after_holds (calls ++ xs)).eq_of_inShard
    (ShardedRegistry.after_holds (calls ++ ys)) (shards xs ys alike)
  exact ⟨answersIn_eq fits alike, fun s n => mem_answers_iff fits alike (s, .ok n),
    fun room s asked => exists_name_of_mem fits room asked, indistinct xs ys alike, sharded⟩

/-- Two orders of the same calls, for the strings of two shards. -/
theorem names_of_interleaving_shards :
    let earlier := ["x"]
    let xs := ["b", "a", "q", "a"]
    let ys := ["a", "q", "a", "b"]
    (shardOf "a" = shardOf "q" ∧ shardOf "a" ≠ shardOf "b") ∧
    (∃ n m, (after earlier).answers ["a", "b"] = [("a", .ok n), ("b", .ok m)] ∧
      (after earlier).answers ["b", "a"] = [("b", .ok m), ("a", .ok n)]) ∧
    (∀ s ∈ xs, ∃ n, (s, .ok n) ∈ (after earlier).answers xs ∧
      (s, .ok n) ∈ (after earlier).answers ys) ∧
    Alike (after (earlier ++ xs)) (after (earlier ++ ys)) := by
  intro earlier xs ys
  have together : shardOf "a" = shardOf "q" := by decide +kernel
  have apart : shardOf "a" ≠ shardOf "b" := by decide +kernel
  have few : (after earlier).strings.length + xs.length ≤ Name.maxSlot := by decide +kernel
  have room (i : Nat) : ((after earlier).inShard i).length + (callsIn i xs).length ≤ Name.maxSlot :=
    (Nat.add_le_add (List.length_filter_le ..) (List.length_filter_le ..)).trans few
  have alike (i : Nat) : callsIn i xs = callsIn i ys := by
    simp only [xs, ys, callsIn_cons, ← together]
    by_cases ofA : shardOf "a" = i
    · have notB : shardOf "b" ≠ i := fun same => apart (ofA.trans same.symm)
      simp only [if_pos ofA, if_neg notB]
    · simp only [if_neg ofA]
  obtain ⟨pairs, runs⟩ := names_of_interleaving earlier
  obtain ⟨-, same, named, indistinct, -⟩ := runs xs ys alike
  refine ⟨⟨together, apart⟩, (pairs "a" "b" apart fun i => ?_).1, fun s asked => ?_, indistinct⟩
  · exact (Nat.le_add_right ..).trans (room i)
  · obtain ⟨n, answered⟩ := named (fun i => (room i).trans (Nat.le_succ _)) s asked
    exact ⟨n, answered, (same s n).mp answered⟩

end Registry

end SurfaceTree
