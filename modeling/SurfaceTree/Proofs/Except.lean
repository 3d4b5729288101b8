namespace SurfaceTree

variable {α : Type}

@[simp] theorem ok_bind {ε β : Type} (a : α) (f : α → Except ε β) : (Except.ok a >>= f) = f a := rfl

@[simp] theorem error_bind {ε β : Type} (e : ε) (f : α → Except ε β) :
    (Except.error e >>= f) = .error e := rfl

@[simp] theorem map_ok {ε β : Type} (f : α → β) (a : α) :
    f <$> (Except.ok a : Except ε α) = .ok (f a) := rfl

@[simp] theorem pure_eq_ok {ε : Type} (a : α) : (pure a : Except ε α) = .ok a := rfl

/-- A sequence of two steps gives a value if both do. -/
theorem bind_eq_ok {ε β : Type} {first : Except ε α} {next : α → Except ε β} {b : β} :
    (first >>= next) = .ok b ↔ ∃ a, first = .ok a ∧ next a = .ok b := by
  cases first <;> simp

/-- What determines the outcome of a computation and holds of some outcome holds of just that. -/
theorem eq_iff_of_determines {ε : Type} {computed outcome : Except ε α} {p : Except ε α → Prop}
    (determines : ∀ {outcome}, p outcome → computed = outcome) (holds : ∃ outcome, p outcome) :
    computed = outcome ↔ p outcome := by
  refine ⟨?_, determines⟩
  rintro rfl
  obtain ⟨outcome, holds⟩ := holds
  rwa [determines holds]

end SurfaceTree
