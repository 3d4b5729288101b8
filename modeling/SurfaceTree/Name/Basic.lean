namespace SurfaceTree

/-- A registered identifier. The upper four bits of the number select a shard of the registry, the
lower 28 a slot of that shard. Names are compared by the whole number, so their order depends only
on the order of registration. -/
structure Name where
  raw : UInt32
deriving DecidableEq

namespace Name

/-- How many shards a name can select. -/
def shardCount : Nat := 16

/-- The largest slot of a shard. -/
def maxSlot : Nat := 0x0FFFFFFF

/-- The name of the empty string. -/
def empty : Name := ⟨0⟩

/-- The shard that a name belongs to. -/
def shard (n : Name) : Nat := n.raw.toNat / (maxSlot + 1)

/-- The place of a name within its shard. -/
def slot (n : Name) : Nat := n.raw.toNat % (maxSlot + 1)

/-- The name at a slot of a shard. Shards and slots out of range are cut to the width of their
bits; `ofParts?` refuses them. -/
def ofParts (shard slot : Nat) : Name := ⟨UInt32.ofNat (shard * (maxSlot + 1) + slot)⟩

/-- The name at a slot of a shard, if both fit into their bits. -/
def ofParts? (shard slot : Nat) : Option Name :=
  if shard < shardCount ∧ slot ≤ maxSlot then some (ofParts shard slot) else none

/-- The text of a name where no registry is at hand. -/
def label (n : Name) : String := "Name(" ++ toString n.raw ++ ")"

instance : LT Name := ⟨fun a b => a.raw < b.raw⟩

instance (a b : Name) : Decidable (a < b) := inferInstanceAs (Decidable (a.raw < b.raw))

/-- The order of names is that of their numbers. -/
theorem lt_iff_toNat_lt {a b : Name} : a < b ↔ a.raw.toNat < b.raw.toNat := Iff.rfl

theorem toNat_inj {a b : Name} (same : a.raw.toNat = b.raw.toNat) : a = b := by
  cases a; cases b
  exact congrArg Name.mk (UInt32.toNat_inj.mp same)

theorem lt_trans {a b c : Name} (hab : a < b) (hbc : b < c) : a < c := by
  simp only [lt_iff_toNat_lt] at *
  omega

theorem lt_irrefl (a : Name) : ¬ a < a := by simp [lt_iff_toNat_lt]

theorem lt_of_not_lt_of_ne {a b : Name} (notLt : ¬ a < b) (ne : a ≠ b) : b < a := by
  have other : a.raw.toNat ≠ b.raw.toNat := fun same => ne (toNat_inj same)
  simp only [lt_iff_toNat_lt] at *
  omega

end Name

end SurfaceTree
