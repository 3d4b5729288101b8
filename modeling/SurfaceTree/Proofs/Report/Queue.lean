import Mathlib.Data.List.Nodup
import Mathlib.Order.WithBot
import SurfaceTree.Report.Queue

namespace SurfaceTree

/-- Where the first primary of some labels starts. Without a primary label this is before all
starts. -/
def Label.firstStart : List Label → WithBot Nat
  | [] => ⊥
  | l :: rest => if l.isPrimary then WithBot.some l.span.start.toNat else firstStart rest

theorem Label.firstStart_eq (labels : List Label) :
    firstStart labels = ((labels.find? (·.isPrimary)).map (·.span)).map (·.start.toNat) := by
  induction labels with
  | nil => rfl
  | cons l rest ih =>
    rw [firstStart, List.find?_cons, ih]
    cases l.isPrimary <;> rfl

/-- The start of the first primary label. A diagnostic without one stands before all others. -/
def Diagnostic.position (d : Diagnostic) : WithBot Nat := Label.firstStart d.labels

theorem Diagnostic.position_eq (d : Diagnostic) :
    d.position = d.primarySpan?.map (·.start.toNat) := Label.firstStart_eq d.labels

namespace DiagnosticQueue

/-- A diagnostic that is offered to a queue. -/
structure Offer where
  queue : DiagnosticQueue
  diagnostic : Diagnostic

namespace Offer

def kept (o : Offer) : Bool := (o.queue.add o.diagnostic).1

/-- An error is refused if the queue holds as many errors as its limit allows. -/
def refused (o : Offer) : Bool :=
  o.diagnostic.severity = .error && (0 < o.queue.config.errorLimit &&
    o.queue.config.errorLimit ≤ o.queue.held.countP (·.severity = .error))

/-- A diagnostic that is held already is left out if the queue is asked to. -/
def repeated (o : Offer) : Bool :=
  o.queue.config.deduplicate && o.queue.held.contains o.diagnostic

variable {o : Offer}

theorem refused_eq : o.refused = (o.diagnostic.isError && (0 < o.queue.config.errorLimit &&
    o.queue.config.errorLimit ≤ o.queue.held.countP (·.isError))) := rfl

theorem lt_of_not_refused (taken : ¬ o.refused) (isError : o.diagnostic.isError)
    (limit : 0 < o.queue.config.errorLimit) :
    o.queue.held.countP (·.isError) < o.queue.config.errorLimit := by
  by_contra full
  have reached := Nat.le_of_not_lt full
  have refused : o.refused := by
    rw [Offer.refused_eq, isError, decide_eq_true limit, decide_eq_true reached]
    rfl
  exact taken refused

theorem notMem_of_not_repeated (fresh : ¬ o.repeated) (deduplicate : o.queue.config.deduplicate) :
    o.diagnostic ∉ o.queue.held := by
  intro member
  have repeated : o.repeated := by
    rw [Offer.repeated, deduplicate, List.contains_iff_mem.mpr member]
    rfl
  exact fresh repeated

end Offer

/-- The offers to a queue, one after another. -/
def offers (q : DiagnosticQueue) : List Diagnostic → List Offer
  | [] => []
  | d :: ds => ⟨q, d⟩ :: (q.add d).2.offers ds

/-- The diagnostics that were kept, in the order of the offers. -/
def keptOf (log : List Offer) : List Diagnostic := (log.filter (·.kept)).map (·.diagnostic)

/-- The queues that calls lead to from an empty one, each with what was offered since the last
time the queue was emptied. -/
inductive Reached (config : QueueConfig) : List Offer → DiagnosticQueue → Prop
  | empty : Reached config [] (.empty config)
  | add {log : List Offer} {q : DiagnosticQueue} (reached : Reached config log q)
      (d : Diagnostic) : Reached config (log ++ [⟨q, d⟩]) (q.add d).2
  | addAll {log : List Offer} {q : DiagnosticQueue} (reached : Reached config log q)
      (ds : List Diagnostic) : Reached config (log ++ q.offers ds) (q.addAll ds)
  | flush {log : List Offer} {q : DiagnosticQueue} (reached : Reached config log q) :
      Reached config [] q.flush.2

theorem countP_concat {α : Type} (p : α → Bool) (as : List α) (a : α) :
    (as ++ [a]).countP p = if p a then as.countP p + 1 else as.countP p := by
  rw [List.countP_append, List.countP_singleton]
  split <;> rfl

section Add

variable {q : DiagnosticQueue} (counted : q.errorCount = q.held.countP (·.isError))
  (d : Diagnostic)

include counted

/-- An offer is refused, or left out as repeated, or kept behind what is held. -/
theorem add_eq :
    q.add d = if (⟨q, d⟩ : Offer).refused then (false, { q with refused := q.refused + 1 })
      else if (⟨q, d⟩ : Offer).repeated then (false, q)
      else (true, { q with
        held := q.held ++ [d]
        errorCount := (q.held ++ [d]).countP (·.isError) }) := by
  have count : (q.held ++ [d]).countP (·.isError)
      = if d.isError then q.errorCount + 1 else q.errorCount := by
    rw [countP_concat, counted]
  have limit : (⟨q, d⟩ : Offer).refused = (d.isError && q.limitReached) := by
    rw [Offer.refused_eq, limitReached, counted]
  rw [count, limit]
  rfl

theorem kept_eq : (⟨q, d⟩ : Offer).kept
    = (!(⟨q, d⟩ : Offer).refused && !(⟨q, d⟩ : Offer).repeated) := by
  rw [Offer.kept, add_eq counted]
  split
  · next refused => rw [refused, Bool.not_true, Bool.false_and]
  · split
    · next repeated => rw [repeated, Bool.not_true, Bool.and_false]
    · next refused repeated =>
      rw [Bool.eq_false_of_not_eq_true refused, Bool.eq_false_of_not_eq_true repeated]
      rfl

end Add

theorem keptOf_concat (log : List Offer) (o : Offer) :
    keptOf (log ++ [o]) = if o.kept then keptOf log ++ [o.diagnostic] else keptOf log := by
  rw [keptOf, List.filter_append, List.map_append]
  split
  · next kept =>
    rw [List.filter_cons_of_pos kept]
    rfl
  · next left =>
    rw [List.filter_cons_of_neg left]
    exact List.append_nil _

/-- What is true of a queue after any calls. -/
structure Sound (config : QueueConfig) (log : List Offer) (q : DiagnosticQueue) : Prop where
  config_eq : q.config = config
  counted : q.errorCount = q.held.countP (·.isError)
  limited : 0 < config.errorLimit → q.errorCount ≤ config.errorLimit
  held_eq : q.held = keptOf log
  distinct : config.deduplicate → q.held.Nodup
  refused_eq : q.refused = log.countP (·.refused)
  kept_eq : ∀ o ∈ log, o.kept = (!o.refused && !o.repeated)

namespace Sound

variable {config : QueueConfig} {log : List Offer} {q : DiagnosticQueue}

theorem empty : Sound config [] (.empty config) :=
  ⟨rfl, rfl, fun _ => Nat.zero_le _, rfl, fun _ => .nil, rfl, nofun⟩

theorem add (sound : Sound config log q) (d : Diagnostic) :
    Sound config (log ++ [⟨q, d⟩]) (q.add d).2 := by
  have verdict := DiagnosticQueue.kept_eq sound.counted d
  have verdicts : ∀ o ∈ log ++ [⟨q, d⟩], o.kept = (!o.refused && !o.repeated) := by
    intro o member
    rcases List.mem_append.mp member with old | new
    · exact sound.kept_eq o old
    · rw [List.mem_singleton.mp new]
      exact verdict
  rw [add_eq sound.counted]
  split
  · next refused =>
    have left : ¬ (⟨q, d⟩ : Offer).kept := by
      rw [verdict, refused, Bool.not_true, Bool.false_and]
      exact Bool.false_ne_true
    refine ⟨sound.config_eq, sound.counted, sound.limited, ?_, sound.distinct, ?_, verdicts⟩
    · rw [keptOf_concat, if_neg left, sound.held_eq]
    · rw [countP_concat, if_pos refused, sound.refused_eq]
  · next taken =>
    have count : q.refused = (log ++ [⟨q, d⟩] : List Offer).countP (·.refused) := by
      rw [countP_concat, if_neg taken, sound.refused_eq]
    split
    · next repeated =>
      have left : ¬ (⟨q, d⟩ : Offer).kept := by
        rw [verdict, repeated, Bool.not_true, Bool.and_false]
        exact Bool.false_ne_true
      refine ⟨sound.config_eq, sound.counted, sound.limited, ?_, sound.distinct, count, verdicts⟩
      rw [keptOf_concat, if_neg left, sound.held_eq]
    · next fresh =>
      have kept : (⟨q, d⟩ : Offer).kept := by
        rw [verdict, Bool.eq_false_of_not_eq_true taken, Bool.eq_false_of_not_eq_true fresh]
        rfl
      refine ⟨sound.config_eq, rfl, fun limit => ?_, ?_, fun deduplicate => ?_, count, verdicts⟩
      · have before := sound.limited limit
        rw [sound.counted] at before
        rw [← sound.config_eq] at limit before ⊢
        rw [countP_concat]
        split
        · next isError => exact Offer.lt_of_not_refused taken isError limit
        · exact before
      · rw [keptOf_concat, if_pos kept, sound.held_eq]
      · have held := sound.distinct deduplicate
        rw [← sound.config_eq] at deduplicate
        have longer := held.concat (Offer.notMem_of_not_repeated fresh deduplicate)
        rwa [List.concat_eq_append] at longer

theorem addAll (sound : Sound config log q) (ds : List Diagnostic) :
    Sound config (log ++ q.offers ds) (q.addAll ds) := by
  induction ds generalizing log q with
  | nil => rwa [offers, List.append_nil]
  | cons d ds ih =>
    have later := ih (sound.add d)
    rwa [List.append_assoc, List.singleton_append] at later

theorem flush (sound : Sound config log q) : Sound config [] q.flush.2 := by
  have fresh : q.flush.2 = .empty config := congrArg DiagnosticQueue.empty sound.config_eq
  rw [fresh]
  exact .empty

end Sound

theorem Reached.sound {config : QueueConfig} {log : List Offer} {q : DiagnosticQueue}
    (reached : Reached config log q) : Sound config log q := by
  induction reached with
  | empty => exact .empty
  | add _ d sound => exact sound.add d
  | addAll _ ds sound => exact sound.addAll ds
  | flush _ sound => exact sound.flush

theorem notAfter_iff {a b : Diagnostic} : notAfter a b ↔ a.position ≤ b.position := by
  rw [notAfter, Diagnostic.position_eq, Diagnostic.position_eq]
  rcases a.primarySpan? with _ | s <;> rcases b.primarySpan? with _ | t
  · exact iff_of_true rfl le_rfl
  · exact iff_of_true rfl bot_le
  · exact iff_of_false nofun (WithBot.not_coe_le_bot _)
  · have starts : ((s.start.toNat : WithBot Nat) ≤ t.start.toNat) ↔ s.start ≤ t.start :=
      WithBot.coe_le_coe
    exact decide_eq_true_iff.trans starts.symm

theorem notAfter_trans (a b c : Diagnostic) (ab : notAfter a b) (bc : notAfter b c) :
    notAfter a c :=
  notAfter_iff.mpr ((notAfter_iff.mp ab).trans (notAfter_iff.mp bc))

theorem notAfter_total (a b : Diagnostic) : notAfter a b || notAfter b a := by
  rw [Bool.or_eq_true, notAfter_iff, notAfter_iff]
  exact le_total _ _

/-- Diagnostics of one position stay in their order. -/
theorem filter_mergeSort (ds : List Diagnostic) (p : WithBot Nat) :
    (ds.mergeSort notAfter).filter (·.position = p) = ds.filter (·.position = p) := by
  have level : (ds.filter (·.position = p)).Pairwise fun a b => notAfter a b := by
    refine List.pairwise_of_forall_mem_list fun a memberA b memberB => ?_
    have samePosition := (of_decide_eq_true (List.mem_filter.mp memberA).2).trans
      (of_decide_eq_true (List.mem_filter.mp memberB).2).symm
    exact notAfter_iff.mpr samePosition.le
  have sublist : (ds.filter (·.position = p)).Sublist (ds.mergeSort notAfter) :=
    List.sublist_mergeSort notAfter_trans notAfter_total level List.filter_sublist
  have filtered := sublist.filter (·.position = p)
  rw [List.filter_filter] at filtered
  simp only [Bool.and_self] at filtered
  refine (filtered.eq_of_length ?_).symm
  exact ((List.mergeSort_perm ds notAfter).filter _).length_eq.symm

/-- After any calls, a queue has counted the errors that it holds, and they are not more than its
limit allows; it holds what was kept since the last time it was emptied, and nothing twice if it
leaves repeated diagnostics out. Emptying it gives what it holds, in the order of positions and
without changing the order within a position, then a note with both counts if errors were refused,
and leaves nothing behind. -/
theorem Reached.accounts {config : QueueConfig} {log : List Offer} {q : DiagnosticQueue}
    (reached : Reached config log q) :
    (q.errorCount = q.held.countP (·.severity = .error) ∧
      (0 < config.errorLimit → q.errorCount ≤ config.errorLimit)) ∧
    (q.held = keptOf log ∧ (config.deduplicate → q.held.Nodup)) ∧
    (∀ o ∈ log, o.kept = (!o.refused && !o.repeated)) ∧
    (∃ sorted, q.flush.1 = sorted ++ (if ∃ o ∈ log, o.refused then
          [{ code := .e9002
             severity := .note
             message := "stopped after " ++ toString (q.held.countP (·.severity = .error))
               ++ " errors; " ++ toString (log.countP (·.refused)) ++ " more not shown"
             labels := []
             notes := [] }] else []) ∧
      sorted.Perm q.held ∧ sorted.Pairwise (·.position ≤ ·.position) ∧
      ∀ p, sorted.filter (·.position = p) = q.held.filter (·.position = p)) ∧
    q.flush.2 = .empty config := by
  have sound := reached.sound
  refine ⟨⟨sound.counted, sound.limited⟩, ⟨sound.held_eq, sound.distinct⟩, sound.kept_eq,
    ⟨q.held.mergeSort notAfter, ?_, List.mergeSort_perm .., ?_, filter_mergeSort q.held⟩,
    congrArg DiagnosticQueue.empty sound.config_eq⟩
  · have any : 0 < q.refused ↔ ∃ o ∈ log, o.refused := by
      rw [sound.refused_eq, List.countP_pos_iff]
    rw [DiagnosticQueue.flush, sound.counted, ← sound.refused_eq]
    simp only [any]
    rfl
  · have sorted := List.pairwise_mergeSort notAfter_trans notAfter_total q.held
    exact sorted.imp notAfter_iff.mp

/-- A queue for one error, asked for two errors and twice for a warning that starts before them. -/
theorem Reached.accounts_limit_one :
    let problem (severity : Severity) (message : String) (labels : List Label) : Diagnostic :=
      ⟨.e4001, severity, message, labels, []⟩
    let first := problem .error "first" [⟨⟨8, 9⟩, "here", true⟩]
    let second := problem .error "second" []
    let warning := problem .warning "warning" [⟨⟨20, 21⟩, "see", false⟩, ⟨⟨3, 4⟩, "here", true⟩]
    let start := DiagnosticQueue.empty ⟨1, true⟩
    let log : List Offer :=
      [⟨start, first⟩] ++ (start.add first).2.offers [warning, second, warning]
    let q := (start.add first).2.addAll [warning, second, warning]
    Reached ⟨1, true⟩ log q ∧ q.held = [first, warning] ∧ q.held = keptOf log ∧
      q.flush.1 = [warning, first,
        ⟨.e9002, .note, "stopped after 1 errors; 1 more not shown", [], []⟩] ∧
      q.flush.2 = start := by
  intro problem first second warning start log q
  have reached : Reached ⟨1, true⟩ log q := (Reached.empty.add first).addAll _
  obtain ⟨-, ⟨kept, -⟩, -, ⟨sorted, flushed, perm, pairwise, -⟩, emptied⟩ := reached.accounts
  have held : q.held = [first, warning] := by decide +kernel
  have refused : ∃ o ∈ log, o.refused := List.countP_pos_iff.mp (by decide +kernel)
  have before : warning.position < first.position := by decide +kernel
  have shown : sorted = [warning, first] := by
    rw [held] at perm
    have order : sorted.Perm [warning, first] := perm.trans (.swap ..)
    refine order.eq_of_pairwise (fun a b memberA memberB ab ba => ?_) pairwise
      (List.pairwise_pair.mpr before.le)
    have same := le_antisymm ab ba
    rcases List.mem_pair.mp (order.mem_iff.mp memberA) with rfl | rfl <;>
      rcases List.mem_pair.mp memberB with rfl | rfl
    · rfl
    · exact absurd same before.ne
    · exact absurd same before.ne'
    · rfl
  refine ⟨reached, held, kept, ?_, emptied⟩
  rw [flushed, if_pos refused, shown]
  decide +kernel

end DiagnosticQueue

end SurfaceTree
