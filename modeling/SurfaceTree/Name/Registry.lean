import SurfaceTree.Name.Basic

namespace SurfaceTree

/-- The strings registered so far, in order of registration. A string keeps the shard that its
first bytes select and the slot that counts the strings registered before it in that shard. -/
structure Registry where
  strings : List String
  distinct : strings.Nodup

/-- A shard has no slot left. -/
structure ShardOverflow where
  shard : Nat
  count : Nat
deriving DecidableEq

/-- What is wrong, in words. -/
def ShardOverflow.message (e : ShardOverflow) : String :=
  "interner shard " ++ toString e.shard ++ " exceeded capacity: " ++ toString e.count ++ " strings"

namespace Registry

/-- The shard of a string is a polynomial hash of its first eight bytes. -/
def shardOf (s : String) : Nat :=
  let hash := (s.toUTF8.toList.take 8).foldl (fun (h : UInt32) b => h * 31 + b.toUInt32) 0
  hash.toNat % Name.shardCount

/-- How many of these strings share the shard of `s` and come before it. -/
def slotIn (strings : List String) (s : String) : Nat :=
  (strings.takeWhile (· ≠ s)).countP (fun t => shardOf t == shardOf s)

/-- The name of a string that is among the registered ones. -/
def nameIn (strings : List String) (s : String) : Name := .ofParts (shardOf s) (slotIn strings s)

/-- The words of the surface language. They are registered from the start, after the empty string,
so their names do not depend on the program. -/
def keywords : List String :=
  ["hidden", "private", "protected", "public",
    "axiom", "theorem", "invariant", "proof",
    "module", "class", "signature",
    "fun", "forall", "exists", "match", "with", "where", "import", "let", "syntax"]

/-- A new registry: the empty string, and the words of the surface language. -/
def initial : Registry := ⟨"" :: keywords, by decide⟩

/-- How many strings are registered. -/
def size (r : Registry) : Nat := r.strings.length

/-- Whether at most the empty string is registered. -/
def isEmpty (r : Registry) : Bool := r.size ≤ 1

/-- The name of a string, registering it if it is new and its shard has a slot left. -/
def intern (r : Registry) (s : String) : Except ShardOverflow (Name × Registry) :=
  if known : s ∈ r.strings then .ok (nameIn r.strings s, r)
  else
    let count := r.strings.countP (fun t => shardOf t == shardOf s)
    if count ≤ Name.maxSlot then
      .ok (.ofParts (shardOf s) count, ⟨r.strings ++ [s], List.nodup_append.mpr
        ⟨r.distinct, by simp, fun t mem u last =>
          fun same => known (by simp_all)⟩⟩)
    else .error ⟨shardOf s, count⟩

/-- The string of a name. A name that nothing was registered under reads `<unknown>`. -/
def lookup (r : Registry) (n : Name) : String :=
  ((r.strings.filter (fun s => shardOf s == n.shard))[n.slot]?).getD "<unknown>"

/-- Registers strings one after another, leaving out any that finds its shard full. -/
def internAll (r : Registry) (strings : List String) : Registry :=
  strings.foldl (fun r s => match r.intern s with | .ok (_, r) => r | .error _ => r) r

end Registry

end SurfaceTree
