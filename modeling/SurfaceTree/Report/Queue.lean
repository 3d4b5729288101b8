import SurfaceTree.Report.Diagnostic

namespace SurfaceTree

/-- How many errors a queue takes, zero standing for any number, and whether it leaves out a
diagnostic that it holds already. -/
structure QueueConfig where
  errorLimit : Nat
  deduplicate : Bool

namespace QueueConfig

/-- Twenty errors, and nothing twice. -/
def standard : QueueConfig := ⟨20, true⟩

/-- Any number of errors, and repeated diagnostics too. -/
def unlimited : QueueConfig := ⟨0, false⟩

end QueueConfig

/-- The diagnostics held, in the order in which they came; how many of them are errors; and how
many errors were refused because the limit was reached. -/
structure DiagnosticQueue where
  config : QueueConfig
  held : List Diagnostic
  errorCount : Nat
  refused : Nat

namespace DiagnosticQueue

/-- A queue that has been given nothing yet. -/
def empty (config : QueueConfig) : DiagnosticQueue := ⟨config, [], 0, 0⟩

def isEmpty (q : DiagnosticQueue) : Bool := q.held.isEmpty

/-- Whether there is a limit and as many errors are held as it allows. -/
def limitReached (q : DiagnosticQueue) : Bool :=
  0 < q.config.errorLimit && q.config.errorLimit ≤ q.errorCount

/-- Offers a diagnostic to the queue and tells whether it was kept. An error past the limit is
counted as refused, also if the queue holds it already. -/
def add (q : DiagnosticQueue) (d : Diagnostic) : Bool × DiagnosticQueue :=
  if d.isError && q.limitReached then (false, { q with refused := q.refused + 1 })
  else if q.config.deduplicate && q.held.contains d then (false, q)
  else
    (true, { q with
      held := q.held ++ [d]
      errorCount := if d.isError then q.errorCount + 1 else q.errorCount })

/-- Offers diagnostics one after another. -/
def addAll (q : DiagnosticQueue) (ds : List Diagnostic) : DiagnosticQueue :=
  ds.foldl (fun q d => (q.add d).2) q

/-- Diagnostics without a primary label come first, the others by the start of it. -/
def notAfter (a b : Diagnostic) : Bool :=
  match a.primarySpan?, b.primarySpan? with
  | none, _ => true
  | some _, none => false
  | some s, some t => s.start ≤ t.start

/-- What a queue says of the errors it refused. -/
def closingNote (errorCount refused : Nat) : Diagnostic :=
  { code := .e9002
    severity := .note
    message :=
      "stopped after " ++ toString errorCount ++ " errors; " ++ toString refused
        ++ " more not shown"
    labels := []
    notes := [] }

/-- Empties the queue. Diagnostics come in the order of their positions, those of one position in
the order in which they were added. -/
def flush (q : DiagnosticQueue) : List Diagnostic × DiagnosticQueue :=
  (q.held.mergeSort notAfter ++ if 0 < q.refused then [closingNote q.errorCount q.refused] else [],
    empty q.config)

end DiagnosticQueue

end SurfaceTree
