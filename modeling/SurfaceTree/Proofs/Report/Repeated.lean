import SurfaceTree.Proofs.Report.Queue

namespace SurfaceTree

namespace DiagnosticQueue

/-- A call of a queue. -/
inductive Call where
  | add (d : Diagnostic)
  | addAll (ds : List Diagnostic)
  | flush

/-- The queue after a call. -/
def after (q : DiagnosticQueue) : Call → DiagnosticQueue
  | .add d => (q.add d).2
  | .addAll ds => q.addAll ds
  | .flush => q.flush.2

def afterAll (q : DiagnosticQueue) (calls : List Call) : DiagnosticQueue := calls.foldl after q

/-- What a queue hands back each time it is emptied during some calls. -/
def reports (q : DiagnosticQueue) : List Call → List (List Diagnostic)
  | [] => []
  | .flush :: calls => q.flush.1 :: q.flush.2.reports calls
  | call :: calls => (q.after call).reports calls

/-- The queue as if it had refused some more errors. -/
def withRefusals (q : DiagnosticQueue) (n : Nat) : DiagnosticQueue :=
  { q with refused := q.refused + n }

section BetweenReports

variable {q : DiagnosticQueue} {calls : List Call}

theorem reports_append (unflushed : ∀ call ∈ calls, call ≠ .flush) (later : List Call) :
    q.reports (calls ++ later) = (q.afterAll calls).reports later := by
  induction calls generalizing q with
  | nil => rfl
  | cons call calls ih =>
    obtain ⟨first, others⟩ := List.forall_mem_cons.mp unflushed
    cases call with
    | flush => exact absurd rfl first
    | add d => exact ih others
    | addAll ds => exact ih others

/-- Calls that do not empty a queue come to one long offer. -/
theorem exists_afterAll_eq_addAll (unflushed : ∀ call ∈ calls, call ≠ .flush) :
    ∃ ds, ∀ q : DiagnosticQueue, q.afterAll calls = q.addAll ds := by
  induction calls with
  | nil => exact ⟨[], fun q => rfl⟩
  | cons call calls ih =>
    obtain ⟨first, others⟩ := List.forall_mem_cons.mp unflushed
    obtain ⟨ds, same⟩ := ih others
    cases call with
    | flush => exact absurd rfl first
    | add d => exact ⟨d :: ds, fun q => same (q.add d).2⟩
    | addAll es =>
      refine ⟨es ++ ds, fun q => ?_⟩
      rw [addAll, List.foldl_append]
      exact same (q.addAll es)

theorem mem_held_add {d : Diagnostic} (held : d ∈ q.held) (e : Diagnostic) :
    d ∈ (q.add e).2.held := by
  rw [add]
  split
  · exact held
  · split
    · exact held
    · exact List.mem_append_left [e] held

theorem mem_held_addAll {d : Diagnostic} (held : d ∈ q.held) (ds : List Diagnostic) :
    d ∈ (q.addAll ds).held := by
  induction ds generalizing q with
  | nil => exact held
  | cons e ds ih => exact ih (mem_held_add held e)

/-- No verdict depends on how many errors were refused before. -/
theorem add_withRefusals (q : DiagnosticQueue) (n : Nat) (d : Diagnostic) :
    (q.withRefusals n).add d = ((q.add d).1, (q.add d).2.withRefusals n) := by
  have limit : (q.withRefusals n).limitReached = q.limitReached := rfl
  have config : (q.withRefusals n).config = q.config := rfl
  have held : (q.withRefusals n).held = q.held := rfl
  rw [add, add, limit, config, held]
  split
  · have count : q.refused + n + 1 = q.refused + 1 + n := Nat.add_right_comm ..
    simp only [withRefusals, count]
  · split <;> rfl

theorem addAll_withRefusals (q : DiagnosticQueue) (n : Nat) (ds : List Diagnostic) :
    (q.withRefusals n).addAll ds = (q.addAll ds).withRefusals n := by
  induction ds generalizing q with
  | nil => rfl
  | cons d ds ih =>
    have first : ((q.withRefusals n).add d).2 = (q.add d).2.withRefusals n := by
      rw [add_withRefusals]
    exact (congrArg (·.addAll ds) first).trans (ih (q.add d).2)

/-- What is held is in the next report, whose note counts what was refused. -/
theorem exists_report (unflushed : ∀ call ∈ calls, call ≠ .flush) (later : List Call) :
    ∃ shown errors refused rest, (∀ d ∈ q.held, d ∈ shown) ∧
      ∀ n, (q.withRefusals n).reports (calls ++ .flush :: later)
        = (shown ++ if 0 < refused + n then [closingNote errors (refused + n)] else [])
          :: rest := by
  obtain ⟨ds, same⟩ := exists_afterAll_eq_addAll unflushed
  let last := q.addAll ds
  refine ⟨last.held.mergeSort notAfter, last.errorCount, last.refused,
    (DiagnosticQueue.empty last.config).reports later, fun d held => ?_, fun n => ?_⟩
  · exact List.mem_mergeSort.mpr (mem_held_addAll held ds)
  · rw [reports_append unflushed, same, addAll_withRefusals]
    rfl

end BetweenReports

/-- A queue that leaves out repeated diagnostics never takes one that it holds. The offer changes
nothing, and no later report, unless it is an error and the queue is full. Then the error is counted
as refused: the next report shows it, as it does without the offer, and its note counts one more
that is not shown. Reports after that are the same. -/
theorem Reached.add_held {config : QueueConfig} {log : List Offer} {q : DiagnosticQueue}
    (reached : Reached config log q) (deduplicate : config.deduplicate) {d : Diagnostic}
    (held : d ∈ q.held) :
    (q.add d).1 = false ∧
    ((q.add d).2 = q ↔ ¬ (⟨q, d⟩ : Offer).refused) ∧
    (¬ (⟨q, d⟩ : Offer).refused → ∀ calls, (q.add d).2.reports calls = q.reports calls) ∧
    ((⟨q, d⟩ : Offer).refused → ∀ calls, (∀ call ∈ calls, call ≠ .flush) → ∀ later,
      ∃ shown errors refused rest, d ∈ shown ∧
        q.reports (calls ++ .flush :: later)
          = (shown ++ if 0 < refused then [closingNote errors refused] else []) :: rest ∧
        (q.add d).2.reports (calls ++ .flush :: later)
          = (shown ++ [closingNote errors (refused + 1)]) :: rest) := by
  have sound := reached.sound
  have repeated : (⟨q, d⟩ : Offer).repeated := by
    rw [Offer.repeated, sound.config_eq, deduplicate, List.contains_iff_mem.mpr held]
    rfl
  rw [add_eq sound.counted, if_pos repeated]
  by_cases full : (⟨q, d⟩ : Offer).refused
  · rw [if_pos full]
    have counted : q.withRefusals 1 ≠ q := fun same => by
      have more : q.refused + 1 = q.refused := congrArg (·.refused) same
      omega
    refine ⟨rfl, iff_of_false counted (not_not_intro full), absurd full,
      fun _ calls unflushed later => ?_⟩
    obtain ⟨shown, errors, refused, rest, stays, report⟩ :=
      exists_report (q := q) unflushed later
    exact ⟨shown, errors, refused, rest, stays d held, report 0, report 1⟩
  · rw [if_neg full]
    exact ⟨rfl, iff_of_true rfl full, fun _ _ => rfl, fun refused => absurd refused full⟩

/-- A queue for one error that is offered this error twice. -/
theorem Reached.add_held_full :
    let problem : Diagnostic := ⟨.e2001, .error, "unbound", [], []⟩
    let start := DiagnosticQueue.empty ⟨1, true⟩
    let q := (start.add problem).2
    Reached ⟨1, true⟩ [⟨start, problem⟩] q ∧ problem ∈ q.held ∧ (⟨q, problem⟩ : Offer).refused ∧
      ∃ shown errors refused rest, problem ∈ shown ∧
        [[problem]] = (shown ++ if 0 < refused then [closingNote errors refused] else []) :: rest ∧
        [[problem, closingNote 1 1]] = (shown ++ [closingNote errors (refused + 1)]) :: rest := by
  intro problem start q
  have reached : Reached ⟨1, true⟩ [⟨start, problem⟩] q := Reached.empty.add problem
  have held : problem ∈ q.held := by decide
  have full : (⟨q, problem⟩ : Offer).refused := by decide
  have shown : q.reports ([] ++ .flush :: []) = [[problem]] := by decide +kernel
  have counted : (q.add problem).2.reports ([] ++ .flush :: []) = [[problem, closingNote 1 1]] := by
    decide +kernel
  obtain ⟨-, -, -, next⟩ := reached.add_held rfl held
  have reports := next full [] nofun []
  rw [shown, counted] at reports
  exact ⟨reached, held, full, reports⟩

/-- Offering what is held does not always go unnoticed. -/
theorem not_add_held_unnoticed :
    ¬ ∀ (config : QueueConfig) (log : List Offer) (q : DiagnosticQueue) (d : Diagnostic),
      config.deduplicate → Reached config log q → d ∈ q.held →
        (q.add d).1 = false ∧ (q.add d).2 = q ∧
          ∀ calls, (q.add d).2.reports calls = q.reports calls := by
  intro unnoticed
  let problem : Diagnostic := ⟨.e2001, .error, "unbound", [], []⟩
  let start := empty ⟨1, true⟩
  let q := (start.add problem).2
  have reached : Reached ⟨1, true⟩ [⟨start, problem⟩] q := Reached.empty.add problem
  obtain ⟨-, -, same⟩ := unnoticed _ _ q problem rfl reached (by decide)
  have shown : q.reports [.flush] = [[problem]] := by decide +kernel
  have counted : (q.add problem).2.reports [.flush] = [[problem, closingNote 1 1]] := by
    decide +kernel
  have both := counted.symm.trans ((same [.flush]).trans shown)
  exact absurd both (by decide)

end DiagnosticQueue

end SurfaceTree
