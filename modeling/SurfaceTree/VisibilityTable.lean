import SurfaceTree.Keyword

namespace SurfaceTree

/-- One value for each visibility. None can be missing. -/
structure VisibilityTable (α : Type) where
  hidden : α
  priv : α
  prot : α
  pub : α

/-- Why a list of buckets is no table. -/
inductive TableError where
  | missingBucket (visibility : Visibility)
  | duplicateBucket (visibility : Visibility)
deriving DecidableEq

/-- What is wrong, in words. -/
def TableError.message : TableError → String
  | .missingBucket v => "definition table is missing the `" ++ Keyword.spelling v ++ "` bucket"
  | .duplicateBucket v => "definition table lists the `" ++ Keyword.spelling v ++ "` bucket twice"

namespace VisibilityTable

variable {α β : Type}

def ofFn (f : Visibility → α) : VisibilityTable α := ⟨f .hidden, f .priv, f .prot, f .pub⟩

def get (t : VisibilityTable α) : Visibility → α
  | .hidden => t.hidden
  | .priv => t.priv
  | .prot => t.prot
  | .pub => t.pub

/-- The table with another value for one visibility. -/
def set (t : VisibilityTable α) (v : Visibility) (value : α) : VisibilityTable α :=
  ofFn fun u => if u = v then value else t.get u

/-- The buckets in canonical order. -/
def toList (t : VisibilityTable α) : List (Visibility × α) :=
  [(.hidden, t.hidden), (.priv, t.priv), (.prot, t.prot), (.pub, t.pub)]

/-- The values in canonical order. -/
def values (t : VisibilityTable α) : List α := [t.hidden, t.priv, t.prot, t.pub]

/-- Replaces the values in canonical order. -/
def traverse {m : Type → Type} [Monad m] (f : Visibility → α → m β) (t : VisibilityTable α) :
    m (VisibilityTable β) := do
  return ⟨← f .hidden t.hidden, ← f .priv t.priv, ← f .prot t.prot, ← f .pub t.pub⟩

/-- The table with all its values replaced. -/
def map (f : α → β) (t : VisibilityTable α) : VisibilityTable β :=
  ⟨f t.hidden, f t.priv, f t.prot, f t.pub⟩

/-- Fills the buckets one after another, refusing to fill one twice. -/
def fill (slots : VisibilityTable (Option α)) :
    List (Visibility × α) → Except TableError (VisibilityTable (Option α))
  | [] => .ok slots
  | (v, value) :: rest =>
    match slots.get v with
    | some _ => .error (.duplicateBucket v)
    | none => (slots.set v (some value)).fill rest

/-- A table in which every bucket is filled, or the first that is not. -/
def complete (slots : VisibilityTable (Option α)) : Except TableError (VisibilityTable α) :=
  slots.traverse fun v slot =>
    match slot with
    | some value => .ok value
    | none => .error (.missingBucket v)

/-- The table of a list of buckets, which may come in any order. A bucket listed twice is reported
before one that is missing. -/
def ofList (buckets : List (Visibility × α)) : Except TableError (VisibilityTable α) := do
  (← (ofFn fun _ => none).fill buckets).complete

end VisibilityTable

end SurfaceTree
