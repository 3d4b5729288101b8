import Mathlib.Data.List.Induction
import SurfaceTree.Proofs.Report.Queue
import SurfaceTree.Proofs.Traversal.Resolve
import SurfaceTree.Report.Failure

namespace SurfaceTree

section EraseDups

variable {α β : Type} [DecidableEq α] [DecidableEq β]

/-- Of equal items, the first one stays. -/
theorem eraseDups_concat (as : List α) (a : α) :
    (as ++ [a]).eraseDups = if a ∈ as then as.eraseDups else as.eraseDups ++ [a] := by
  rw [List.eraseDups_append]
  split
  · next old =>
    have none : [a].removeAll as = [] := by simp [List.removeAll, old]
    rw [none, List.eraseDups_nil, List.append_nil]
  · next new =>
    have one : [a].removeAll as = [a] := by simp [List.removeAll, new]
    rw [one]
    rfl

theorem length_eraseDups_le_concat (as : List α) (a : α) :
    as.eraseDups.length ≤ (as ++ [a]).eraseDups.length := by
  rw [eraseDups_concat]
  split
  · exact le_rfl
  · rw [List.length_append]
    exact Nat.le_add_right ..

theorem eraseDups_map {f : α → β} (injective : Function.Injective f) (as : List α) :
    (as.map f).eraseDups = as.eraseDups.map f := by
  induction as using List.reverseRecOn with
  | nil => rfl
  | append_singleton as a ih =>
    rw [List.map_append, List.map_singleton, eraseDups_concat, eraseDups_concat, ih]
    by_cases old : a ∈ as
    · rw [if_pos (List.mem_map_of_mem old), if_pos old]
    · have new : f a ∉ as.map f := mt (List.mem_map_of_injective injective).mp old
      rw [if_neg new, if_neg old, List.map_append, List.map_singleton]

theorem eraseDups_eq_nil_iff {as : List α} : as.eraseDups = [] ↔ as = [] := by
  simp only [List.eq_nil_iff_forall_not_mem, List.mem_eraseDups]

end EraseDups

namespace DiagnosticQueue

theorem addAll_concat (q : DiagnosticQueue) (ds : List Diagnostic) (d : Diagnostic) :
    q.addAll (ds ++ [d]) = ((q.addAll ds).add d).2 := by
  rw [addAll, List.foldl_append]
  rfl

/-- If there are fewer different diagnostics than the limit allows errors, each is kept when it
first comes, and none is refused. -/
theorem addAll_of_few {config : QueueConfig} (deduplicate : config.deduplicate)
    {ds : List Diagnostic} (few : ds.eraseDups.length < config.errorLimit) :
    (empty config).addAll ds
      = ⟨config, ds.eraseDups, ds.eraseDups.countP (·.isError), 0⟩ := by
  induction ds using List.reverseRecOn with
  | nil => rfl
  | append_singleton ds d ih =>
    have fewer := (length_eraseDups_le_concat ds d).trans_lt few
    have open' : ds.eraseDups.countP (·.isError) < config.errorLimit :=
      List.countP_le_length.trans_lt fewer
    let o : Offer := ⟨⟨config, ds.eraseDups, ds.eraseDups.countP (·.isError), 0⟩, d⟩
    have taken : ¬ o.refused := by
      rw [Offer.refused_eq, Bool.and_eq_true, Bool.and_eq_true, decide_eq_true_iff, decide_eq_true_iff]
      exact fun full => open'.not_ge full.2.2
    have repeated : o.repeated ↔ d ∈ ds := by
      rw [Offer.repeated, Bool.and_eq_true, List.contains_iff_mem, List.mem_eraseDups]
      exact and_iff_right deduplicate
    rw [addAll_concat, ih fewer, add_eq rfl, eraseDups_concat, if_neg taken]
    by_cases old : d ∈ ds
    · rw [if_pos (repeated.mpr old), if_pos old]
    · rw [if_neg (mt repeated.mp old), if_neg old]

/-- Diagnostics without labels stay in their order. -/
theorem mergeSort_of_unlabelled {ds : List Diagnostic} (unlabelled : ∀ d ∈ ds, d.labels = []) :
    ds.mergeSort notAfter = ds := by
  have nowhere (d : Diagnostic) (member : d ∈ ds) : d.position = ⊥ := by
    rw [Diagnostic.position, unlabelled d member, Label.firstStart]
  refine List.mergeSort_of_pairwise (List.pairwise_of_forall_mem_list fun a memberA b memberB => ?_)
  rw [notAfter_iff, nowhere a memberA, nowhere b memberB]

theorem flush_of_few {config : QueueConfig} (deduplicate : config.deduplicate)
    {ds : List Diagnostic} (few : ds.eraseDups.length < config.errorLimit)
    (unlabelled : ∀ d ∈ ds, d.labels = []) : ((empty config).addAll ds).flush.1 = ds.eraseDups := by
  have unlabelled' : ∀ d ∈ ds.eraseDups, d.labels = [] := fun d member =>
    unlabelled d (List.mem_eraseDups.mp member)
  rw [addAll_of_few deduplicate few, flush, mergeSort_of_unlabelled unlabelled',
    if_neg (Nat.lt_irrefl 0), List.append_nil]

end DiagnosticQueue

/-- The failures of an outcome. -/
def failuresOf {ε α : Type} : Except (List ε) α → List ε
  | .ok _ => []
  | .error es => es

namespace Unresolved

/-- The report of a text that nothing is found under. -/
def missing (text : String) : Diagnostic :=
  { code := .e2001
    severity := .error
    message := "cannot find `" ++ text ++ "` in any enclosing scope"
    labels := []
    notes := [] }

theorem missing_injective : Function.Injective missing := by
  intro text text' same
  have sameMessage := congrArg Diagnostic.message same
  exact (String.append_right_inj _).mp ((String.append_left_inj _).mp sameMessage)

/-- What a new queue gives back after it was given the diagnostics of some failures. -/
def report (spell : Name → String) (es : List Unresolved) : List Diagnostic :=
  ((DiagnosticQueue.empty .standard).addAll (es.map (·.toDiagnostic spell))).flush.1

end Unresolved

namespace Node

variable {S : Type} {f : Name → Except Unresolved S} {k : Kind} {n : Node Name k}

/-- The different texts of the names that fail, in the order in which they first fail. -/
def missingTexts (spell : Name → String) (f : Name → Except Unresolved S) (k : Kind)
    (n : Node Name k) : List String :=
  (((refs k n).filter fun r => !(f r).isOk).map spell).eraseDups

theorem failures_eq_map_filter (own : ∀ r e, f r = .error e → e = ⟨r⟩) (rs : List Name) :
    failures f rs = (rs.filter fun r => !(f r).isOk).map Unresolved.mk := by
  induction rs with
  | nil => rfl
  | cons r rest ih =>
    rw [List.filter_cons]
    rcases asked : f r with e | a
    · rw [failures_cons_of_error asked, ih, own r e asked]
      rfl
    · rw [failures_cons_of_ok asked, ih]
      rfl

theorem missingTexts_eq_nil_iff (spell : Name → String) (own : ∀ r e, f r = .error e → e = ⟨r⟩) :
    missingTexts spell f k n = [] ↔ failures f (refs k n) = [] := by
  rw [missingTexts, eraseDups_eq_nil_iff, failures_eq_map_filter own, List.map_eq_nil_iff,
    List.map_eq_nil_iff]

theorem report_failures (spell : Name → String) (own : ∀ r e, f r = .error e → e = ⟨r⟩)
    (few : (missingTexts spell f k n).length < 20) :
    Unresolved.report spell (failures f (refs k n))
      = (missingTexts spell f k n).map Unresolved.missing := by
  have diagnostics : (failures f (refs k n)).map (·.toDiagnostic spell)
      = (((refs k n).filter fun r => !(f r).isOk).map spell).map Unresolved.missing := by
    rw [failures_eq_map_filter own, List.map_map, List.map_map]
    rfl
  have distinct : ((failures f (refs k n)).map (·.toDiagnostic spell)).eraseDups
      = (missingTexts spell f k n).map Unresolved.missing := by
    rw [diagnostics, eraseDups_map Unresolved.missing_injective, missingTexts]
  have unlabelled : ∀ d ∈ (failures f (refs k n)).map (·.toDiagnostic spell), d.labels = [] := by
    intro d member
    obtain ⟨e, _, rfl⟩ := List.mem_map.mp member
    rfl
  have few' : ((failures f (refs k n)).map (·.toDiagnostic spell)).eraseDups.length < 20 := by
    rw [distinct, List.length_map]
    exact few
  rw [← distinct]
  exact DiagnosticQueue.flush_of_few rfl few' unlabelled

/-- Whatever stands in for failed names, the failures are those of all names of the tree, and
resolution succeeds if there are none. -/
theorem outcome_resolveCollecting {σ : Type} (recover : Unresolved → StateM σ S) (s : σ) :
    let outcome := ((resolveCollecting (fun r => pure (f r)) recover k n).run s).1
    failuresOf outcome = failures f (refs k n) ∧
      ((∃ t, outcome = .ok t) ↔ failures f (refs k n) = []) := by
  intro outcome
  have settled : outcome = (traverseRefs f k n).mapError fun _ => failures f (refs k n) := by
    have silent : (fun r => pure (f r) : Name → StateM σ (Except Unresolved S))
        = noted f fun _ => pure () := by
      funext r
      rw [noted, pure_bind]
    have run := resolveCollecting_eq (m := StateM σ) f k n (fun _ => pure ()) recover
    rw [← silent] at run
    exact congrArg (fun x => (x.run s).1) run
  rcases ended : traverseRefs f k n with e | t
  · have first := (traverseRefs_eq_error_iff f k n).mp ended
    have failed : failures f (refs k n) ≠ [] := List.ne_nil_of_mem (List.mem_of_head? first)
    rw [settled, ended]
    refine ⟨rfl, iff_of_false ?_ failed⟩
    rintro ⟨t, resolved⟩
    cases resolved
  · have none := failures_of_traverseRefs_eq_ok f k n ended
    rw [settled, ended, none]
    exact ⟨rfl, iff_of_true ⟨t, rfl⟩ rfl⟩

/-- If the names that fail have fewer than twenty different texts, each of these texts is reported
once, in the order in which the texts first fail, and nothing else is. Nothing is reported if and
only if resolution succeeds. What stands in for failed names does not matter. -/
theorem report_resolveCollecting {σ : Type} (spell : Name → String)
    (own : ∀ r e, f r = .error e → e = ⟨r⟩) (recover : Unresolved → StateM σ S) (s : σ)
    (few : (missingTexts spell f k n).length < 20) :
    let outcome := ((resolveCollecting (fun r => pure (f r)) recover k n).run s).1
    let report := Unresolved.report spell (failuresOf outcome)
    report = (missingTexts spell f k n).map Unresolved.missing ∧
      (report = [] ↔ ∃ t, outcome = .ok t) := by
  intro outcome report
  obtain ⟨collected, succeeded⟩ := outcome_resolveCollecting (f := f) (k := k) (n := n) recover s
  have reported : report = (missingTexts spell f k n).map Unresolved.missing :=
    (congrArg (Unresolved.report spell) collected).trans (report_failures spell own few)
  refine ⟨reported, ?_⟩
  rw [reported, List.map_eq_nil_iff, missingTexts_eq_nil_iff spell own]
  exact succeeded.symm

/-- Three names fail, one of them twice and two with the same text. -/
theorem report_resolveCollecting_repeated :
    let lookUp (r : Name) : Except Unresolved Symbol :=
      if r = ⟨9⟩ then .ok ⟨⟨1⟩, r⟩ else .error ⟨r⟩
    let recover (e : Unresolved) : StateM Unit Symbol := pure ⟨⟨0⟩, e.name⟩
    let spell (r : Name) : String :=
      if r = ⟨9⟩ then "known" else if r = ⟨4⟩ then "phantom" else "ghost"
    let tree : Node Name .expr :=
      .tuple .dummy ([⟨2⟩, ⟨9⟩, ⟨4⟩, ⟨3⟩, ⟨2⟩].map fun r => .mk (.reference .dummy r))
    let outcome := ((resolveCollecting (fun r => pure (lookUp r)) recover .expr tree).run ()).1
    missingTexts spell lookUp .expr tree = ["ghost", "phantom"] ∧
      Unresolved.report spell (failuresOf outcome)
        = [Unresolved.missing "ghost", Unresolved.missing "phantom"] := by
  intro lookUp recover spell tree outcome
  have own (r : Name) (e : Unresolved) (failed : lookUp r = .error e) : e = ⟨r⟩ := by
    simp only [lookUp] at failed
    split at failed
    · cases failed
    · exact (Except.error.inj failed).symm
  have texts : missingTexts spell lookUp .expr tree = ["ghost", "phantom"] := by decide +kernel
  have few : (missingTexts spell lookUp .expr tree).length < 20 := by
    rw [texts]
    decide
  have reported := (report_resolveCollecting spell own recover () few).1
  rw [texts] at reported
  exact ⟨texts, reported⟩

end Node

end SurfaceTree
