import Mathlib.Data.List.Nodup
import SurfaceTree.Keyword

namespace SurfaceTree

/-- Every member is listed, no two are spelled alike, and there are few enough to number them. -/
class LawfulKeyword (α : Type) [Keyword α] : Prop where
  mem_all : ∀ a : α, a ∈ Keyword.all
  distinct : ((Keyword.all (α := α)).map Keyword.spelling).Nodup
  length_all_lt : (Keyword.all (α := α)).length < UInt64.size

instance : LawfulKeyword Visibility := ⟨fun a => by cases a <;> decide, by decide, by decide⟩

instance : LawfulKeyword TruthKind := ⟨fun a => by cases a <;> decide, by decide, by decide⟩

instance : LawfulKeyword BuilderKind := ⟨fun a => by cases a <;> decide, by decide, by decide⟩

instance : LawfulKeyword Binder := ⟨fun a => by cases a <;> decide, by decide, by decide⟩

instance : LawfulKeyword Associativity := ⟨fun a => by cases a <;> decide, by decide, by decide⟩

instance : LawfulKeyword Relation := ⟨fun a => by cases a <;> decide, by decide, by decide⟩

instance : LawfulKeyword Fixity :=
  ⟨fun a => by rcases a with _ | (_ | _ | _) | _ <;> decide, by decide, by decide⟩

namespace Keyword

variable {α : Type} [Keyword α] [LawfulKeyword α]

/-- Members of a vocabulary are spelled differently. -/
theorem spelling_inj {a b : α} (same : spelling a = spelling b) : a = b :=
  List.inj_on_of_nodup_map LawfulKeyword.distinct (LawfulKeyword.mem_all a)
    (LawfulKeyword.mem_all b) same

/-- A member is found by its spelling. -/
@[simp] theorem ofSpelling?_spelling (a : α) : ofSpelling? (spelling a) = some a := by
  have found : (all.find? fun b : α => spelling b == spelling a).isSome :=
    List.find?_isSome.mpr ⟨a, LawfulKeyword.mem_all a, beq_self_eq_true _⟩
  obtain ⟨b, atB⟩ := Option.isSome_iff_exists.mp found
  have same : spelling b = spelling a := by simpa using List.find?_some atB
  cases spelling_inj same
  exact atB

variable [DecidableEq α]

/-- Members of a vocabulary have different ranks. -/
theorem index_inj {a b : α} (same : index a = index b) : a = b :=
  (List.idxOf_inj (LawfulKeyword.mem_all a)).mp same

/-- A vocabulary is small, so a word can hold the rank of a member. -/
theorem index_lt (a : α) : index a < UInt64.size :=
  Nat.lt_trans (List.idxOf_lt_length_of_mem (LawfulKeyword.mem_all a)) LawfulKeyword.length_all_lt

end Keyword

end SurfaceTree
