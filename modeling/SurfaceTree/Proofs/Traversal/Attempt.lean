import SurfaceTree.Proofs.Traversal.Refill
import Mathlib.Algebra.BigOperators.Group.List.Basic

namespace SurfaceTree

variable {σ ε Q A α β : Type}

/-- A computation that carries a state and can fail. The state outlives a failure. -/
abbrev Attempt (σ ε : Type) : Type → Type := ExceptT ε (StateM σ)

namespace Attempt

/-- What a computation comes to that begins in a state, and the state in which it ends. -/
def outcome (x : Attempt σ ε α) (s : σ) : Except ε α × σ := Id.run (x.run.run s)

theorem outcome_bind (x : Attempt σ ε α) (f : α → Attempt σ ε β) (s : σ) :
    (x >>= f).outcome s = match x.outcome s with
      | (.ok a, s') => (f a).outcome s'
      | (.error e, s') => (.error e, s') := by
  have opened : (x >>= f).outcome s
      = Id.run ((ExceptT.bindCont f (x.outcome s).1).run (x.outcome s).2) := rfl
  rw [opened]
  rcases x.outcome s with ⟨_ | _, _⟩ <;> rfl

theorem outcome_map (f : α → β) (x : Attempt σ ε α) (s : σ) :
    (f <$> x).outcome s = ((x.outcome s).1.map f, (x.outcome s).2) := by
  rw [← bind_pure_comp, outcome_bind]
  rcases x.outcome s with ⟨_ | _, _⟩ <;> rfl

/-- Asks one question after another, each in the state in which the one before has left, until the
first failure. -/
def askAll (ask : Q → Attempt σ ε A) : List Q → σ → Except ε (List A) × σ
  | [], s => (.ok [], s)
  | q :: rest, s =>
    match (ask q).outcome s with
    | (.error e, s') => (.error e, s')
    | (.ok a, s') => ((askAll ask rest s').1.map (a :: ·), (askAll ask rest s').2)

theorem outcome_mapM (ask : Q → Attempt σ ε A) (qs : List Q) (s : σ) :
    (qs.mapM ask).outcome s = askAll ask qs s := by
  induction qs generalizing s with
  | nil => rfl
  | cons q rest ih =>
    simp only [List.mapM_cons, outcome_bind, askAll, bind_pure_comp, outcome_map, ih]
    rcases (ask q).outcome s with ⟨_ | _, _⟩ <;> rfl

theorem askAll_cons_eq_error_iff {ask : Q → Attempt σ ε A} {q : Q} {rest : List Q} {s s' : σ}
    {e : ε} :
    askAll ask (q :: rest) s = (.error e, s') ↔ (ask q).outcome s = (.error e, s') ∨
      ∃ a s₁, (ask q).outcome s = (.ok a, s₁) ∧ askAll ask rest s₁ = (.error e, s') := by
  rcases first : (ask q).outcome s with ⟨e' | a, s₁⟩
  · simp [askAll, first]
  · rcases later : askAll ask rest s₁ with ⟨e' | answers, s₂⟩ <;>
      simp [askAll, first, later, Except.map]

theorem askAll_cons_eq_ok_iff {ask : Q → Attempt σ ε A} {q : Q} {rest : List Q} {s s' : σ}
    {answers : List A} :
    askAll ask (q :: rest) s = (.ok answers, s') ↔ ∃ a s₁ others,
      (ask q).outcome s = (.ok a, s₁) ∧ askAll ask rest s₁ = (.ok others, s') ∧
        answers = a :: others := by
  rcases first : (ask q).outcome s with ⟨e | a, s₁⟩
  · simp [askAll, first]
  · rcases later : askAll ask rest s₁ with ⟨e | others, s₂⟩ <;>
      simp [askAll, first, later, Except.map, eq_comm, and_comm]

/-- Asking fails if the questions before some question are answered and that one fails, in the state
in which the answers before have left. The questions after it do not matter. -/
theorem askAll_eq_error_iff {ask : Q → Attempt σ ε A} {qs : List Q} {s s' : σ} {e : ε} :
    askAll ask qs s = (.error e, s') ↔ ∃ before q after answers s₁, qs = before ++ q :: after ∧
      askAll ask before s = (.ok answers, s₁) ∧ (ask q).outcome s₁ = (.error e, s') := by
  constructor
  · intro failed
    induction qs generalizing s with
    | nil => cases failed
    | cons q rest ih =>
      rcases askAll_cons_eq_error_iff.mp failed with stopped | ⟨a, s₁, first, later⟩
      · exact ⟨[], q, rest, [], s, rfl, rfl, stopped⟩
      · obtain ⟨before, q', after, answers, s₂, rfl, asked, stopped⟩ := ih later
        exact ⟨q :: before, q', after, a :: answers, s₂, rfl,
          askAll_cons_eq_ok_iff.mpr ⟨a, s₁, answers, first, asked, rfl⟩, stopped⟩
  · rintro ⟨before, q, after, answers, s₁, rfl, asked, stopped⟩
    induction before generalizing s answers with
    | nil =>
      cases asked
      exact askAll_cons_eq_error_iff.mpr (.inl stopped)
    | cons q' before ih =>
      obtain ⟨a, s₂, others, first, later, _⟩ := askAll_cons_eq_ok_iff.mp asked
      exact askAll_cons_eq_error_iff.mpr (.inr ⟨a, s₂, first, ih others later⟩)

/-- Notes a question when it is asked. The notes are kept beside the state. -/
def noting (q : Q) (x : Attempt σ ε α) : Attempt (σ × List Q) ε α := fun (s, asked) =>
  ((x.outcome s).1, ((x.outcome s).2, asked ++ [q]))

theorem outcome_noting (q : Q) (x : Attempt σ ε α) (s : σ) (asked : List Q) :
    (x.noting q).outcome (s, asked)
      = ((x.outcome s).1, ((x.outcome s).2, asked ++ [q])) := rfl

theorem map_noting (f : α → β) (q : Q) (x : Attempt σ ε α) :
    f <$> x.noting q = (f <$> x).noting q := by
  funext ⟨s, asked⟩
  refine (outcome_map f (x.noting q) (s, asked)).trans ?_
  rw [outcome_noting]
  exact congrArg (fun o => (o.1, (o.2, asked ++ [q]))) (outcome_map f x s).symm

theorem askAll_noting_of_ok {ask : Q → Attempt σ ε A} {qs : List Q} {s s' : σ} {answers : List A}
    (answered : askAll ask qs s = (.ok answers, s')) (asked : List Q) :
    askAll (fun q => (ask q).noting q) qs (s, asked) = (.ok answers, (s', asked ++ qs)) := by
  induction qs generalizing s asked answers with
  | nil =>
    cases answered
    rw [List.append_nil]
    rfl
  | cons q rest ih =>
    obtain ⟨a, s₁, others, first, later, rfl⟩ := askAll_cons_eq_ok_iff.mp answered
    refine askAll_cons_eq_ok_iff.mpr ⟨a, (s₁, asked ++ [q]), others, ?_, ?_, rfl⟩
    · rw [outcome_noting, first]
    · rw [ih later, List.append_assoc]
      rfl

/-- A computation asks questions as they are listed, and no others. If all of them are answered, it
comes to the one value that fits the answers. Otherwise it comes to the first failure, in the state
in which this has left. The questions are seen in `noted`, which is the computation with notes. -/
def Follows (ask : Q → Attempt σ ε A) (qs : List Q) (Fits : List A → α → Prop) (x : Attempt σ ε α)
    (noted : Attempt (σ × List Q) ε α) : Prop :=
  ∀ s, match askAll ask qs s with
    | (.ok answers, s') => ∃ t, (∀ t', Fits answers t' ↔ t' = t) ∧ x.outcome s = (.ok t, s') ∧
        noted.outcome (s, []) = (.ok t, (s', qs))
    | (.error e, s') => x.outcome s = (.error e, s') ∧
        ∃ before q after answers s₁, qs = before ++ q :: after ∧
          askAll ask before s = (.ok answers, s₁) ∧ (ask q).outcome s₁ = (.error e, s') ∧
          noted.outcome (s, []) = (.error e, (s', before ++ [q]))

section Viewed

variable {γ : Type} {ask : Q → Attempt σ ε A} {qs : List Q} {x : Attempt σ ε α}
  {view : α → List A} {frame : α → γ} {kept : γ} {s s' : σ}

theorem outcome_of_error {e : ε} (viewed : view <$> x = qs.mapM ask)
    (failed : askAll ask qs s = (.error e, s')) : x.outcome s = (.error e, s') := by
  have viewed := congrArg (outcome · s) viewed
  rw [outcome_map, outcome_mapM, failed] at viewed
  rcases ended : x.outcome s with ⟨_ | _, _⟩ <;> rw [ended] at viewed <;> cases viewed
  rfl

theorem outcome_of_ok {answers : List A} (viewed : view <$> x = qs.mapM ask)
    (framed : frame <$> x = (fun _ => kept) <$> x)
    (answered : askAll ask qs s = (.ok answers, s')) :
    ∃ t, x.outcome s = (.ok t, s') ∧ view t = answers ∧ frame t = kept := by
  have viewed := congrArg (outcome · s) viewed
  have framed := congrArg (outcome · s) framed
  rw [outcome_map, outcome_mapM, answered] at viewed
  rw [outcome_map, outcome_map] at framed
  rcases ended : x.outcome s with ⟨_ | t, _⟩ <;> rw [ended] at viewed framed <;> cases viewed
  injection framed with framed
  injection framed with framed
  exact ⟨t, rfl, rfl, framed⟩

/-- A computation in which the answers to a list of questions are seen, and of which the rest is
known, follows this list. -/
theorem follows {noted : Attempt (σ × List Q) ε α} (viewed : view <$> x = qs.mapM ask)
    (framed : frame <$> x = (fun _ => kept) <$> x)
    (viewedNoted : view <$> noted = qs.mapM fun q => (ask q).noting q)
    (framedNoted : frame <$> noted = (fun _ => kept) <$> noted)
    (unique : ∀ {t t'}, view t = view t' → frame t = frame t' → t = t') :
    Follows ask qs (fun answers t => view t = answers ∧ frame t = kept) x noted := by
  intro s
  rcases asked : askAll ask qs s with ⟨e | answers, s'⟩
  · refine ⟨outcome_of_error viewed asked, ?_⟩
    obtain ⟨before, q, after, answers, s₁, split, answered, stopped⟩ :=
      askAll_eq_error_iff.mp asked
    refine ⟨before, q, after, answers, s₁, split, answered, stopped, ?_⟩
    refine outcome_of_error viewedNoted (askAll_eq_error_iff.mpr
      ⟨before, q, after, answers, (s₁, before), split, askAll_noting_of_ok answered [], ?_⟩)
    rw [outcome_noting, stopped]
  · obtain ⟨t, ended, answersEq, keptEq⟩ := outcome_of_ok viewed framed asked
    obtain ⟨t', noting, answersEq', keptEq'⟩ :=
      outcome_of_ok viewedNoted framedNoted (askAll_noting_of_ok asked [])
    have fits (u : α) : (view u = answers ∧ frame u = kept) ↔ u = t :=
      ⟨fun ⟨same, same'⟩ => unique (same.trans answersEq.symm) (same'.trans keptEq.symm),
        fun same => same ▸ ⟨answersEq, keptEq⟩⟩
    refine ⟨t, fits, ended, ?_⟩
    rw [noting, (fits t').mp ⟨answersEq', keptEq'⟩, List.nil_append]

end Viewed

end Attempt

open Attempt

/-- A value of what a slot holds. -/
def Leaf.elim {E R M : Type} (f : E → M) (g : R → M) : Leaf E R → M
  | exp e => f e
  | ref r => g r

namespace Kind

variable {E R E' R' : Type}

/-- Traverses a node and notes the leaves it asks about. -/
def traverseNoting (f : E → Attempt σ ε E') (g : R → Attempt σ ε R') (k : Kind) (n : k.Tree E R) :
    Attempt (σ × List (Leaf E R)) ε (k.Tree E' R') :=
  k.traverse (fun e => (f e).noting (.exp e)) (fun r => (g r).noting (.ref r)) n

theorem leaves_traverseNoting (f : E → Attempt σ ε E') (g : R → Attempt σ ε R') (k : Kind)
    (n : k.Tree E R) :
    k.leaves <$> k.traverseNoting f g n
      = (k.leaves n).mapM fun leaf => (leaf.traverse f g).noting leaf := by
  rw [traverseNoting, leaves_traverse]
  refine congrArg (List.mapM · _) (funext fun leaf => ?_)
  cases leaf <;> exact map_noting ..

theorem foldMap_eq_foldl {M : Type} (unit : M) (combine : M → M → M) (f : E → M) (g : R → M)
    (k : Kind) (n : k.Tree E R) :
    k.foldMap unit combine f g n
      = (k.leaves n).foldl (fun acc leaf => combine acc (leaf.elim f g)) unit := by
  refine congrArg (List.foldl · unit (k.leaves n)) (funext fun acc => funext fun leaf => ?_)
  cases leaf <;> rfl

theorem foldMap_eq_prod {M : Type} [Monoid M] (f : E → M) (g : R → M) (k : Kind)
    (n : k.Tree E R) :
    k.foldMap 1 (· * ·) f g n = ((k.leaves n).map (Leaf.elim f g)).prod := by
  rw [foldMap_eq_foldl, List.prod_eq_foldl, List.foldl_map]

/-- A traversal follows the leaves, handing the state on from one to the next. It comes to the node
with the answers in place of its leaves and all else as it was. A fold combines the values of the
leaves in the same order. -/
theorem traverse_follows_leaves (k : Kind) (n : k.Tree E R) :
    (∀ (E' R' σ ε : Type) (f : E → Attempt σ ε E') (g : R → Attempt σ ε R'),
      Follows (Leaf.traverse f g) (k.leaves n)
        (fun answers t => k.leaves t = answers ∧ k.shape t = k.shape n)
        (k.traverse f g n) (k.traverseNoting f g n)) ∧
    ∀ (M : Type) [Monoid M] (f : E → M) (g : R → M),
      k.foldMap 1 (· * ·) f g n = ((k.leaves n).map (Leaf.elim f g)).prod :=
  ⟨fun _ _ _ _ f g => follows (k.leaves_traverse f g n) (k.shape_traverse f g n)
    (k.leaves_traverseNoting f g n) (k.shape_traverse _ _ n)
    (fun sameLeaves sameShape => eq_of_leaves sameShape sameLeaves),
    fun _ _ f g => k.foldMap_eq_prod f g n⟩

end Kind

end SurfaceTree
