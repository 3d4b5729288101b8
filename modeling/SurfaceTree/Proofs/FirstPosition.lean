import Mathlib.Data.List.Induction
import Mathlib.Data.List.Nodup
import Mathlib.Order.Nat

namespace SurfaceTree

variable {α : Type} {p : List α → α → Prop} {xs : List α} {x : α} {i : Nat}

/-- The item at a position stands in a relation to the list of those before it. -/
def HoldsAt (p : List α → α → Prop) (xs : List α) (i : Nat) : Prop :=
  ∃ x, xs[i]? = some x ∧ p (xs.take i) x

/-- The item at a position was listed before. -/
def RepeatsAt : List α → Nat → Prop := HoldsAt fun earlier x => x ∈ earlier

theorem holdsAt_concat : HoldsAt p (xs ++ [x]) i ↔ HoldsAt p xs i ∨ i = xs.length ∧ p xs x := by
  rcases Nat.lt_trichotomy i xs.length with within | rfl | past
  · simp only [HoldsAt, List.getElem?_append_left within, List.take_append_of_le_length within.le,
      within.ne, false_and, or_false]
  · simp [HoldsAt]
  · have beyond : (xs ++ [x])[i]? = none := List.getElem?_eq_none (by simp; omega)
    simp only [HoldsAt, beyond, List.getElem?_eq_none past.le, past.ne', reduceCtorEq, false_and,
      exists_false, or_self]

theorem holdsAt_take {j : Nat} : HoldsAt p (xs.take i) j ↔ j < i ∧ HoldsAt p xs j := by
  simp only [HoldsAt, List.getElem?_take, List.take_take]
  by_cases before : j < i
  · simp only [before, ↓reduceIte, Nat.min_eq_left before.le, true_and]
  · simp only [before, ↓reduceIte, reduceCtorEq, false_and, exists_false]

theorem not_repeatsAt_iff : (∀ i, ¬ RepeatsAt xs i) ↔ xs.Nodup := by
  induction xs using List.reverseRecOn with
  | nil => simp [RepeatsAt, HoldsAt]
  | append_singleton xs x ih =>
    rw [← List.concat_eq_append, List.nodup_concat, ← ih, and_comm, List.concat_eq_append]
    simp only [RepeatsAt, holdsAt_concat, not_or, forall_and, not_and, forall_eq]

/-- Either there is no such position, or there is a first one. -/
theorem not_holdsAt_or_isLeast (p : List α → α → Prop) (xs : List α) :
    (∀ i, ¬ HoldsAt p xs i) ∨ ∃ i x, IsLeast {i | HoldsAt p xs i} i ∧ xs[i]? = some x := by
  classical
  by_cases some : ∃ i, HoldsAt p xs i
  · have first := Nat.isLeast_find some
    obtain ⟨x, listed, -⟩ := first.1
    exact .inr ⟨_, x, first, listed⟩
  · exact .inl (not_exists.mp some)

theorem holds_of_isLeast (first : IsLeast {i | HoldsAt p xs i} i) (listed : xs[i]? = some x) :
    p (xs.take i) x := by
  obtain ⟨y, here, holds⟩ := first.1
  cases listed.symm.trans here
  exact holds

theorem not_holdsAt_take_of_isLeast (first : IsLeast {i | HoldsAt p xs i} i) (j : Nat) :
    ¬ HoldsAt p (xs.take i) j := by
  rw [holdsAt_take]
  rintro ⟨before, holds⟩
  exact absurd (first.2 holds) (Nat.not_le_of_lt before)

theorem eq_take_append (listed : xs[i]? = some x) : xs = xs.take i ++ x :: xs.drop (i + 1) := by
  obtain ⟨within, rfl⟩ := List.getElem?_eq_some_iff.mp listed
  rw [List.getElem_cons_drop, List.take_append_drop]

end SurfaceTree
