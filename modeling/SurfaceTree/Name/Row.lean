import SurfaceTree.Name.Basic

namespace SurfaceTree

/-- One value for each name of a list. -/
inductive Row (V : Type) : List Name → Type where
  | nil : Row V []
  | cons (key : Name) {keys : List Name} (value : V) (rest : Row V keys) : Row V (key :: keys)

namespace Row

variable {V W : Type}

/-- The labelled values, in order. -/
def toList : {keys : List Name} → Row V keys → List (Name × V)
  | _, .nil => []
  | _, .cons key value rest => (key, value) :: rest.toList

/-- The row of some entries, given the list of their names. -/
def ofEntries : (keys : List Name) → (entries : List (Name × V)) →
    entries.map Prod.fst = keys → Row V keys
  | [], _, _ => .nil
  | _ :: _, [], same => nomatch same
  | key :: _, (_, value) :: rest, same => .cons key value (ofEntries _ rest (List.cons.inj same).2)

def ofList (entries : List (Name × V)) : Row V (entries.map Prod.fst) := ofEntries _ entries rfl

/-- Replaces the values from left to right; the labels stay. -/
def traverse {m : Type → Type} [Monad m] (f : V → m W) :
    {keys : List Name} → Row V keys → m (Row W keys)
  | _, .nil => pure .nil
  | _, .cons key value rest => do return .cons key (← f value) (← rest.traverse f)

/-- Replaces the values; the labels stay. -/
def map (f : V → W) : {keys : List Name} → Row V keys → Row W keys
  | _, .nil => .nil
  | _, .cons key value rest => .cons key (f value) (rest.map f)

/-- A row lists what it was made from. -/
@[simp] theorem toList_ofList (entries : List (Name × V)) : (ofList entries).toList = entries := by
  induction entries with
  | nil => rfl
  | cons entry rest ih => exact congrArg (entry :: ·) ih

@[simp] theorem map_fst_toList {keys : List Name} (row : Row V keys) :
    row.toList.map Prod.fst = keys := by
  induction row with
  | nil => rfl
  | cons key value rest ih => simp [toList, ih]

/-- Over the same labels, a row is determined by its listing. -/
theorem toList_inj {keys : List Name} {a b : Row V keys} (same : a.toList = b.toList) : a = b := by
  induction a with
  | nil => cases b; rfl
  | cons key value rest ih =>
    cases b with
    | cons _ value' rest' =>
      simp only [toList, List.cons.injEq, Prod.mk.injEq, true_and] at same
      rw [same.1, ih same.2]

end Row

end SurfaceTree
