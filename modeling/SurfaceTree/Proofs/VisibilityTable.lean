import Mathlib.Order.WellFounded
import SurfaceTree.Proofs.Except
import SurfaceTree.Proofs.FirstPosition
import SurfaceTree.Proofs.NameMap
import SurfaceTree.VisibilityTable

namespace SurfaceTree

namespace VisibilityTable

variable {α : Type}

@[simp] theorem get_ofFn (f : Visibility → α) (v : Visibility) : (ofFn f).get v = f v := by
  cases v <;> rfl

theorem get_set (t : VisibilityTable α) (v : Visibility) (value : α) (u : Visibility) :
    (t.set v value).get u = if u = v then value else t.get u := by
  cases u <;> rfl

/-- Buckets of distinct visibilities are filled one after another. -/
theorem fill_of_distinct {slots : VisibilityTable (Option α)} {buckets : List (Visibility × α)}
    (distinct : (buckets.map Prod.fst).Nodup)
    (free : ∀ bucket ∈ buckets, slots.get bucket.1 = none) :
    ∃ filled, slots.fill buckets = .ok filled ∧
      ∀ v, filled.get v = (buckets.lookup v).or (slots.get v) := by
  induction buckets generalizing slots with
  | nil => exact ⟨slots, rfl, fun _ => rfl⟩
  | cons bucket rest ih =>
    obtain ⟨first, others⟩ := List.forall_mem_cons.mp free
    rw [List.map_cons, List.nodup_cons] at distinct
    have still : ∀ b ∈ rest, (slots.set bucket.1 (some bucket.2)).get b.1 = none := by
      intro b member
      have apart : b.1 ≠ bucket.1 := fun same => distinct.1 (same ▸ List.mem_map_of_mem member)
      rw [get_set, if_neg apart, others b member]
    obtain ⟨filled, reads, gets⟩ := ih distinct.2 still
    refine ⟨filled, ?_, fun v => ?_⟩
    · rw [fill, first]
      exact reads
    · rw [gets, get_set, lookup_cons_eq]
      by_cases here : v = bucket.1
      · have unlisted : rest.lookup v = none := by
          rw [here, ← Option.not_isSome_iff_eq_none, lookup_isSome_iff_mem]
          exact distinct.1
        rw [if_pos here, if_pos here, unlisted, Option.none_or, Option.some_or]
      · rw [if_neg here, if_neg here]

/-- Of a table with nothing in it, buckets of distinct visibilities fill just their own. -/
theorem fill_empty_of_distinct {buckets : List (Visibility × α)}
    (distinct : (buckets.map Prod.fst).Nodup) :
    ∃ filled, (ofFn fun _ => none).fill buckets = .ok filled ∧
      ∀ v, filled.get v = buckets.lookup v := by
  have free : ∀ bucket ∈ buckets, (ofFn fun _ => (none : Option α)).get bucket.1 = none :=
    fun bucket _ => get_ofFn _ bucket.1
  obtain ⟨filled, reads, gets⟩ := fill_of_distinct distinct free
  exact ⟨filled, reads, fun v => by rw [gets, get_ofFn, Option.or_none]⟩

/-- Buckets are filled one group after the other. -/
theorem fill_append (slots : VisibilityTable (Option α)) (before rest : List (Visibility × α)) :
    slots.fill (before ++ rest) = slots.fill before >>= fun filled => filled.fill rest := by
  induction before generalizing slots with
  | nil => rfl
  | cons bucket before ih =>
    rw [List.cons_append, fill, fill]
    split
    · rfl
    · exact ih _

theorem complete_of_get {slots : VisibilityTable (Option α)} {t : VisibilityTable α}
    (all : ∀ v, slots.get v = some (t.get v)) : slots.complete = .ok t := by
  obtain ⟨hidden, priv, prot, pub⟩ := slots
  cases show hidden = some t.hidden from all .hidden
  cases show priv = some t.priv from all .priv
  cases show prot = some t.prot from all .prot
  cases show pub = some t.pub from all .pub
  rfl

/-- The first bucket that is not filled is reported. -/
theorem complete_of_missing {slots : VisibilityTable (Option α)} {v : Visibility}
    (missing : slots.get v = none)
    (before : ∀ u, Keyword.index u < Keyword.index v → (slots.get u).isSome) :
    slots.complete = .error (.missingBucket v) := by
  have filled (u : Visibility) (lt : Keyword.index u < Keyword.index v) :
      ∃ value, slots.get u = some value := Option.isSome_iff_exists.mp (before u lt)
  obtain ⟨hidden, priv, prot, pub⟩ := slots
  cases v with
  | hidden =>
    cases show hidden = none from missing
    rfl
  | priv =>
    obtain ⟨_, rfl⟩ : ∃ value, hidden = some value := filled .hidden (by decide)
    cases show priv = none from missing
    rfl
  | prot =>
    obtain ⟨_, rfl⟩ : ∃ value, hidden = some value := filled .hidden (by decide)
    obtain ⟨_, rfl⟩ : ∃ value, priv = some value := filled .priv (by decide)
    cases show prot = none from missing
    rfl
  | pub =>
    obtain ⟨_, rfl⟩ : ∃ value, hidden = some value := filled .hidden (by decide)
    obtain ⟨_, rfl⟩ : ∃ value, priv = some value := filled .priv (by decide)
    obtain ⟨_, rfl⟩ : ∃ value, prot = some value := filled .prot (by decide)
    cases show pub = none from missing
    rfl

/-- Tables with the same bucket for each visibility are the same. -/
theorem ext_get {t t' : VisibilityTable α} (same : ∀ v, t.get v = t'.get v) : t = t' := by
  obtain ⟨hidden, priv, prot, pub⟩ := t
  cases show hidden = t'.hidden from same .hidden
  cases show priv = t'.priv from same .priv
  cases show prot = t'.prot from same .prot
  cases show pub = t'.pub from same .pub
  rfl

/-- What a table lists is what is in its buckets. -/
theorem mem_toList {t : VisibilityTable α} {v : Visibility} {value : α} :
    (v, value) ∈ t.toList ↔ t.get v = value := by
  cases v <;> simp [toList, get, eq_comm]

theorem distinct_toList (t : VisibilityTable α) : (t.toList.map Prod.fst).Nodup :=
  show Keyword.all.Nodup by decide

/-- The buckets of a table fill the table in any order. -/
theorem ofList_of_perm {buckets : List (Visibility × α)} {t : VisibilityTable α}
    (shuffled : buckets.Perm t.toList) : ofList buckets = .ok t := by
  have distinct : (buckets.map Prod.fst).Nodup :=
    (shuffled.map Prod.fst).nodup_iff.mpr t.distinct_toList
  obtain ⟨filled, reads, gets⟩ := fill_empty_of_distinct distinct
  have all (v : Visibility) : filled.get v = some (t.get v) := by
    have listed : (v, t.get v) ∈ t.toList := mem_toList.mpr rfl
    rw [gets, lookup_of_mem distinct (shuffled.mem_iff.mpr listed)]
  rw [ofList, reads, ok_bind, complete_of_get all]

/-- What a list of buckets is to give: the table that holds each of them, or the first visibility that
comes up again. A missing one counts only where none does. -/
inductive Filled (buckets : List (Visibility × α)) : Except TableError (VisibilityTable α) → Prop
  | table (t : VisibilityTable α) (once : ∀ v, (buckets.map Prod.fst).count v = 1)
      (holds : ∀ bucket ∈ buckets, t.get bucket.1 = bucket.2) : Filled buckets (.ok t)
  | duplicateBucket {i : Nat} {v : Visibility}
      (first : IsLeast {i | RepeatsAt (buckets.map Prod.fst) i} i)
      (listed : (buckets.map Prod.fst)[i]? = some v) :
      Filled buckets (.error (.duplicateBucket v))
  | missingBucket {v : Visibility} (distinct : ∀ i, ¬ RepeatsAt (buckets.map Prod.fst) i)
      (omitted : v ∉ buckets.map Prod.fst)
      (least : ∀ u, Keyword.index u < Keyword.index v → u ∈ buckets.map Prod.fst) :
      Filled buckets (.error (.missingBucket v))

section

variable {buckets : List (Visibility × α)} {result : Except TableError (VisibilityTable α)}

theorem perm_toList {t : VisibilityTable α} (once : ∀ v, (buckets.map Prod.fst).count v = 1)
    (holds : ∀ bucket ∈ buckets, t.get bucket.1 = bucket.2) : buckets.Perm t.toList := by
  have distinct : (buckets.map Prod.fst).Nodup :=
    List.nodup_iff_count_le_one.mpr fun v => (once v).le
  refine (List.perm_ext_iff_of_nodup distinct.of_map t.distinct_toList.of_map).mpr ?_
  rintro ⟨v, value⟩
  rw [mem_toList]
  refine ⟨fun member => holds _ member, ?_⟩
  rintro rfl
  have listed : v ∈ buckets.map Prod.fst := List.count_pos_iff.mp ((once v).symm ▸ Nat.one_pos)
  obtain ⟨bucket, member, rfl⟩ := List.mem_map.mp listed
  rwa [holds bucket member]

theorem ofList_of_isLeast {i : Nat} {v : Visibility}
    (first : IsLeast {i | RepeatsAt (buckets.map Prod.fst) i} i)
    (listed : (buckets.map Prod.fst)[i]? = some v) :
    ofList buckets = .error (.duplicateBucket v) := by
  have distinct : ((buckets.take i).map Prod.fst).Nodup := by
    rw [List.map_take]
    exact not_repeatsAt_iff.mp (not_holdsAt_take_of_isLeast first)
  have earlier : v ∈ (buckets.take i).map Prod.fst := by
    rw [List.map_take]
    exact holds_of_isLeast first listed
  obtain ⟨bucket, here, rfl⟩ : ∃ bucket, buckets[i]? = some bucket ∧ bucket.1 = v := by
    rwa [List.getElem?_map, Option.map_eq_some_iff] at listed
  obtain ⟨filled, reads, gets⟩ := fill_empty_of_distinct distinct
  obtain ⟨value, taken⟩ : ∃ value, filled.get bucket.1 = some value := by
    rw [gets]
    exact Option.isSome_iff_exists.mp (lookup_isSome_iff_mem.mpr earlier)
  rw [ofList, eq_take_append here, fill_append, reads, ok_bind, fill, taken]
  rfl

theorem ofList_of_missing {v : Visibility} (distinct : (buckets.map Prod.fst).Nodup)
    (omitted : v ∉ buckets.map Prod.fst)
    (least : ∀ u, Keyword.index u < Keyword.index v → u ∈ buckets.map Prod.fst) :
    ofList buckets = .error (.missingBucket v) := by
  obtain ⟨filled, reads, gets⟩ := fill_empty_of_distinct distinct
  rw [ofList, reads, ok_bind]
  refine complete_of_missing ?_ fun u before => ?_
  · rw [gets, ← Option.not_isSome_iff_eq_none, lookup_isSome_iff_mem]
    exact omitted
  · rw [gets, lookup_isSome_iff_mem]
    exact least u before

theorem Filled.ofList_eq (filled : Filled buckets result) : ofList buckets = result := by
  cases filled with
  | table t once holds => exact ofList_of_perm (perm_toList once holds)
  | duplicateBucket first listed => exact ofList_of_isLeast first listed
  | missingBucket distinct omitted least =>
    exact ofList_of_missing (not_repeatsAt_iff.mp distinct) omitted least

theorem exists_filled_ok (once : ∀ v, (buckets.map Prod.fst).count v = 1) :
    ∃ t, Filled buckets (.ok t) := by
  have distinct : (buckets.map Prod.fst).Nodup :=
    List.nodup_iff_count_le_one.mpr fun v => (once v).le
  have listed (v : Visibility) : ∃ value, buckets.lookup v = some value := by
    rw [← Option.isSome_iff_exists, lookup_isSome_iff_mem, ← List.count_pos_iff, once]
    exact Nat.one_pos
  choose value found using listed
  refine ⟨ofFn value, .table _ once fun bucket member => ?_⟩
  rw [get_ofFn]
  exact Option.some.inj ((found bucket.1).symm.trans (lookup_of_mem distinct member))

theorem exists_filled (buckets : List (Visibility × α)) : ∃ result, Filled buckets result := by
  rcases not_holdsAt_or_isLeast _ (buckets.map Prod.fst) with sound | ⟨i, v, first, listed⟩
  · by_cases all : ∀ v, v ∈ buckets.map Prod.fst
    · obtain ⟨t, filled⟩ := exists_filled_ok fun v =>
        List.count_eq_one_of_mem (not_repeatsAt_iff.mp sound) (all v)
      exact ⟨_, filled⟩
    · obtain ⟨v, omitted, least⟩ := (measure Keyword.index).wf.has_min
        {v : Visibility | v ∉ buckets.map Prod.fst} (not_forall.mp all)
      exact ⟨_, .missingBucket sound omitted fun u before => by_contra fun left => least u left before⟩
  · exact ⟨_, .duplicateBucket first listed⟩

theorem ofList_eq_iff : ofList buckets = result ↔ Filled buckets result :=
  eq_iff_of_determines Filled.ofList_eq (exists_filled buckets)

/-- A list of buckets is a table if and only if it has every visibility once. -/
theorem exists_ofList_eq_ok_iff :
    (∃ t, ofList buckets = .ok t) ↔ ∀ v, (buckets.map Prod.fst).count v = 1 := by
  simp only [ofList_eq_iff]
  refine ⟨?_, exists_filled_ok⟩
  rintro ⟨t, filled⟩
  cases filled with
  | table t once holds => exact once

theorem ofList_eq_ok_of_perm {buckets' : List (Visibility × α)} {t : VisibilityTable α}
    (shuffled : buckets'.Perm buckets) (built : ofList buckets = .ok t) : ofList buckets' = .ok t := by
  cases ofList_eq_iff.mp built with
  | table t once holds => exact ofList_of_perm (shuffled.trans (perm_toList once holds))

/-- A list of buckets is a table if and only if it has every visibility once, and it is the same
table in any order. Otherwise the first repeated visibility is reported, or else the first one that
is missing. -/
theorem ofList_table_or_fault (buckets : List (Visibility × α)) :
    ((∃ t, ofList buckets = .ok t) ↔ ∀ v, (buckets.map Prod.fst).count v = 1) ∧
    (∀ result, ofList buckets = result ↔ Filled buckets result) ∧
    ∀ (t : VisibilityTable α) (buckets' : List (Visibility × α)), buckets'.Perm buckets →
      (ofList buckets' = .ok t ↔ ofList buckets = .ok t) :=
  ⟨exists_ofList_eq_ok_iff, fun _ => ofList_eq_iff, fun _ _ shuffled =>
    ⟨ofList_eq_ok_of_perm shuffled.symm, ofList_eq_ok_of_perm shuffled⟩⟩

theorem ofList_table_or_fault_shuffled :
    let buckets : List (Visibility × Nat) := [(.prot, 3), (.hidden, 1), (.pub, 4), (.priv, 2)]
    let sorted : List (Visibility × Nat) := [(.hidden, 1), (.priv, 2), (.prot, 3), (.pub, 4)]
    buckets.Perm sorted ∧ ofList buckets = .ok ⟨1, 2, 3, 4⟩ := by
  intro buckets sorted
  have shuffled : buckets.Perm sorted := by decide
  obtain ⟨-, -, alike⟩ := ofList_table_or_fault sorted
  exact ⟨shuffled, (alike ⟨1, 2, 3, 4⟩ buckets shuffled).mpr rfl⟩

/-- Two buckets come twice and two are missing. -/
example : ofList [(.prot, 1), (.hidden, 2), (.prot, 3), (.hidden, 4)]
    = .error (.duplicateBucket .prot) := rfl

end

end VisibilityTable

end SurfaceTree
