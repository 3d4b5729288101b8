import SurfaceTree.Proofs.Traversal.Deep

namespace SurfaceTree

variable {m : Type → Type} [Monad m] {Q A R S α ε : Type}

/-- The failures of a function on a list, in the order of the list. -/
def failures (f : Q → Except ε A) (qs : List Q) : List ε :=
  qs.filterMap fun q => match f q with
    | .ok _ => none
    | .error e => some e

section Failures

variable {f : Q → Except ε A} {q : Q} {a : A} {e : ε}

theorem failures_cons_of_ok (answered : f q = .ok a) (rest : List Q) :
    failures f (q :: rest) = failures f rest := by
  simp only [failures, List.filterMap_cons, answered]

theorem failures_cons_of_error (failed : f q = .error e) (rest : List Q) :
    failures f (q :: rest) = e :: failures f rest := by
  simp only [failures, List.filterMap_cons, failed]

theorem answerAll_cons_of_ok (answered : f q = .ok a) (rest : List Q) :
    answerAll f (q :: rest) = .cons a <$> answerAll f rest := by
  rw [answerAll, answered, ← bind_pure_comp]
  rfl

theorem answerAll_cons_of_error (failed : f q = .error e) (rest : List Q) :
    answerAll f (q :: rest) = .error e := by
  rw [answerAll, failed]
  rfl

/-- Answering the questions of a list comes to the first failure. -/
theorem answerAll_eq_error_iff {qs : List Q} :
    answerAll f qs = .error e ↔ (failures f qs).head? = some e := by
  induction qs with
  | nil => exact ⟨nofun, nofun⟩
  | cons q rest ih =>
    rcases asked : f q with e' | a
    · rw [answerAll_cons_of_error asked, failures_cons_of_error asked, List.head?_cons,
        Except.error.injEq, Option.some.injEq]
    · rw [answerAll_cons_of_ok asked, failures_cons_of_ok asked, ← ih]
      rcases answerAll f rest with _ | _
      · simp only [Except.map_error, Except.error.injEq]
      · exact ⟨nofun, nofun⟩

end Failures

/-- Notes a question and answers it without other effects. -/
def noted (f : Q → Except ε A) (note : Q → m Unit) (q : Q) : m (Except ε A) := do
  note q
  return f q

/-- Answers a question. A failure is recorded and stands as `recover` of it. -/
def attempt (resolve : Q → m (Except ε A)) (recover : ε → m A) (q : Q) : StateT (List ε) m A := do
  match ← resolve q with
  | .ok a => pure a
  | .error e => do
    modify (· ++ [e])
    recover e

/-- What is left of an attempt if its answer is not seen. -/
def visit (f : Q → Except ε A) (note : Q → m Unit) (recover : ε → m A) (q : Q) : m Unit := do
  note q
  match f q with
  | .ok _ => return ()
  | .error e => do
    let _ ← recover e
    return ()

/-- Gives a value up for the failures if there are any. -/
def settle (value : A → α) : A × List ε → Except (List ε) α
  | (a, []) => .ok (value a)
  | (_, e :: es) => .error (e :: es)

section Attempts

variable (f : Q → Except ε A) (note : Q → m Unit) (recover : ε → m A)

/-- Attempts at the questions of a list, settled in the end. -/
def settleAll {qs : List Q} (value : Answers (fun _ => A) qs → α) (failed : List ε) :
    m (Except (List ε) α) :=
  settle value <$> (answerAll (attempt (noted f note) recover) qs).run failed

variable [LawfulMonad m]

theorem run_attempt (q : Q) (failed : List ε) :
    (attempt (noted f note) recover q).run failed
      = note q >>= fun _ => match f q with
        | .ok a => pure (a, failed)
        | .error e => (·, failed ++ [e]) <$> recover e := by
  simp only [attempt, noted, StateT.run_bind, bind_assoc, StateT.run_monadLift, pure_bind,
    monadLift_self]
  rcases f q with e | a
  · simp only [StateT.run_bind, StateT.run_modify, StateT.run_monadLift, monadLift_self, pure_bind,
      bind_pure_comp]
  · rfl

theorem settleAll_cons {q : Q} {rest : List Q} (value : Answers (fun _ => A) (q :: rest) → α)
    (failed : List ε) :
    settleAll f note recover value failed = note q >>= fun _ => match f q with
      | .ok a => settleAll f note recover (fun others => value (.cons a others)) failed
      | .error e => recover e >>= fun a =>
        settleAll f note recover (fun others => value (.cons a others)) (failed ++ [e]) := by
  have passed (a : A) (es : List ε) :
      settle value <$> (answerAll (attempt (noted f note) recover) rest >>=
          fun others => pure (.cons a others)).run es
        = settleAll f note recover (fun others => value (.cons a others)) es := by
    simp only [settleAll, bind_pure_comp, StateT.run_map, Functor.map_map]
    refine congrArg (· <$> _) (funext fun ⟨_, es⟩ => ?_)
    cases es <;> rfl
  rw [settleAll, answerAll, StateT.run_bind, map_bind, run_attempt, bind_assoc]
  refine congrArg (note q >>= ·) (funext fun _ => ?_)
  rcases f q with e | a
  · simp only [bind_map_left, passed]
  · simp only [pure_bind, passed]

/-- Once a question has failed, the answers to the later ones do not matter. -/
theorem settleAll_of_failed {qs : List Q} (value : Answers (fun _ => A) qs → α) (e : ε)
    (failed : List ε) :
    settleAll f note recover value (e :: failed)
      = (fun _ => .error (e :: (failed ++ failures f qs))) <$> forM qs (visit f note recover) := by
  induction qs generalizing failed with
  | nil =>
    simp only [settleAll, answerAll, StateT.run_pure, map_pure, List.forM_nil, settle, failures,
      List.filterMap_nil, List.append_nil]
  | cons q rest ih =>
    rw [settleAll_cons, List.forM_cons, visit, bind_assoc, map_bind]
    refine congrArg (note q >>= ·) (funext fun _ => ?_)
    rcases asked : f q with e' | a
    · simp only [List.cons_append, ih, failures_cons_of_error asked, bind_assoc, pure_bind,
        List.append_assoc, List.nil_append, map_bind]
    · simp only [ih, failures_cons_of_ok asked, pure_bind]

/-- If no question has failed so far, what stands in for failures is not seen in the end. -/
theorem settleAll_nil {qs : List Q} (value : Answers (fun _ => A) qs → α) :
    settleAll f note recover value []
      = (fun _ => (value <$> answerAll f qs).mapError fun _ => failures f qs)
        <$> forM qs (visit f note recover) := by
  induction qs with
  | nil =>
    simp only [settleAll, answerAll, StateT.run_pure, map_pure, List.forM_nil]
    rfl
  | cons q rest ih =>
    rw [settleAll_cons, List.forM_cons, visit, bind_assoc, map_bind]
    refine congrArg (note q >>= ·) (funext fun _ => ?_)
    rcases asked : f q with e | a
    · rw [answerAll_cons_of_error asked]
      simp only [List.nil_append, settleAll_of_failed, failures_cons_of_error asked, bind_assoc,
        pure_bind, map_bind]
      rfl
    · rw [answerAll_cons_of_ok asked]
      simp only [ih, failures_cons_of_ok asked, pure_bind, Functor.map_map]

end Attempts

theorem map_eq_of_mapM_eq_ok {f : Q → Except ε A} {qs : List Q} {as : List A}
    (answered : qs.mapM f = .ok as) : qs.map f = as.map .ok := by
  induction qs generalizing as with
  | nil =>
    cases answered
    rfl
  | cons q rest ih =>
    rw [List.mapM_cons] at answered
    rcases first : f q with e | a <;> rw [first] at answered
    · cases answered
    · rcases later : rest.mapM f with e | others <;> rw [later] at answered
      · cases answered
      · cases answered
        rw [List.map_cons, List.map_cons, first, ih later]

namespace Node

variable (f : R → Except ε S) (k : Kind) (n : Node R k)

/-- Going on after failures visits every reference and then tells what stopping at the first failure
tells, with all failures in place of the first. -/
theorem resolveCollecting_eq [LawfulMonad m] (note : R → m Unit) (recover : ε → m S) :
    resolveCollecting (noted f note) recover k n
      = (fun _ => (traverseRefs f k n).mapError fun _ => failures f (refs k n))
        <$> forM (refs k n) (visit f note recover) := by
  obtain ⟨refill, refilled, _⟩ := exists_refill S k n
  have settled : resolveCollecting (noted f note) recover k n
      = settle id <$> (traverseRefs (attempt (noted f note) recover) k n).run
          [] := by
    rw [resolveCollecting, ← bind_pure_comp]
    refine congrArg (_ >>= ·) (funext fun ⟨tree, errors⟩ => ?_)
    cases errors <;> rfl
  have refilling : settle id
        <$> (refill <$> answerAll (attempt (noted f note) recover) (refs k n)).run []
      = settleAll f note recover refill [] := by
    rw [StateT.run_map, Functor.map_map]
    refine congrArg (· <$> _) (funext fun ⟨_, errors⟩ => ?_)
    cases errors <;> rfl
  rw [settled, refilled, refilling, settleAll_nil, refilled]

theorem traverseRefs_eq_error_iff {e : ε} :
    traverseRefs f k n = .error e ↔ (failures f (refs k n)).head? = some e := by
  obtain ⟨refill, refilled, _⟩ := exists_refill S k n
  rw [refilled, ← answerAll_eq_error_iff]
  rcases answerAll f (refs k n) with _ | _
  · simp only [Except.map_error, Except.error.injEq]
  · exact ⟨nofun, nofun⟩

theorem failures_of_traverseRefs_eq_ok {t : Node S k} (resolved : traverseRefs f k n = .ok t) :
    failures f (refs k n) = [] := by
  rcases all : failures f (refs k n) with _ | ⟨e, later⟩
  · rfl
  · have stopped := (traverseRefs_eq_error_iff f k n).mpr (congrArg List.head? all)
    rw [resolved] at stopped
    cases stopped

theorem refs_of_traverseRefs_eq_ok {t : Node S k} (resolved : traverseRefs f k n = .ok t) :
    (refs k n).map f = (refs k t).map .ok := by
  have answered := refs_traverseRefs f k n
  rw [resolved] at answered
  exact map_eq_of_mapM_eq_ok answered.symm

/-- Going on after failures and stopping at the first one agree. What comes of going on is settled
before it is known what stands in for failures: it is the tree of the other if that succeeds, and
otherwise the list of all failures, the first of which is that of the other. On the way every
reference is asked about once and every failure is recovered from once. -/
theorem resolveCollecting_agrees :
    ∃ result : Except (List ε) (Node S k),
      (∀ (σ : Type) (note : R → StateM σ Unit) (recover : ε → StateM σ S),
        resolveCollecting (noted f note) recover k n = do
          forM (refs k n) (visit f note recover)
          return result) ∧
      (∀ t, result = .ok t ↔ traverseRefs f k n = .ok t) ∧
      (∀ es, result = .error es ↔ es = failures f (refs k n) ∧ es ≠ []) ∧
      (∀ e, traverseRefs f k n = .error e ↔ (failures f (refs k n)).head? = some e) ∧
      ∀ t, traverseRefs f k n = .ok t → (refs k n).map f = (refs k t).map .ok := by
  refine ⟨(traverseRefs f k n).mapError fun _ => failures f (refs k n), fun σ note recover => ?_,
    fun t => ?_, fun es => ?_, fun e => traverseRefs_eq_error_iff f k n,
    fun t => refs_of_traverseRefs_eq_ok f k n⟩
  · rw [resolveCollecting_eq, ← bind_pure_comp]
  · rcases traverseRefs f k n with e | t'
    · exact ⟨nofun, nofun⟩
    · simp only [Except.mapError, Except.ok.injEq]
  · rcases ended : traverseRefs f k n with e | t
    · have first := (traverseRefs_eq_error_iff f k n).mp ended
      simp only [Except.mapError, Except.error.injEq]
      refine ⟨fun same => ⟨same.symm, fun empty => ?_⟩, fun same => same.1.symm⟩
      rw [same, empty] at first
      cases first
    · have empty := failures_of_traverseRefs_eq_ok f k n ended
      exact ⟨nofun, fun ⟨same, nonempty⟩ => absurd (same.trans empty) nonempty⟩

end Node

end SurfaceTree
