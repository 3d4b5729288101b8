import Mathlib.Data.List.Basic
import Mathlib.Logic.ExistsUnique
import SurfaceTree.Canonical.Fingerprint

namespace SurfaceTree

/-- Two lists are the same but for one item, which is changed. -/
inductive ChangedOnce {α : Type} (change : α → α → Prop) : List α → List α → Prop
  | mk (before after : List α) {x y : α} (changed : change x y) :
      ChangedOnce change (before ++ x :: after) (before ++ y :: after)

namespace ChangedOnce

variable {α β : Type} {change : α → α → Prop} {change' : β → β → Prop} {xs ys : List α}

theorem single {x y : α} (changed : change x y) : ChangedOnce change [x] [y] := .mk [] [] changed

theorem prepend (front : List α) (once : ChangedOnce change xs ys) :
    ChangedOnce change (front ++ xs) (front ++ ys) := by
  obtain ⟨before, after, changed⟩ := once
  rw [← List.append_assoc, ← List.append_assoc]
  exact .mk _ after changed

/-- A change in front stays one change whatever follows. -/
theorem append (once : ChangedOnce change xs ys) (back : List α) :
    ChangedOnce change (xs ++ back) (ys ++ back) := by
  obtain ⟨before, after, changed⟩ := once
  rw [List.append_assoc, List.append_assoc, List.cons_append, List.cons_append]
  exact .mk before _ changed

theorem cons (x : α) (once : ChangedOnce change xs ys) : ChangedOnce change (x :: xs) (x :: ys) :=
  once.prepend [x]

theorem length_eq (once : ChangedOnce change xs ys) : xs.length = ys.length := by
  obtain ⟨before, after, -⟩ := once
  rw [List.length_append, List.length_append, List.length_cons, List.length_cons]

/-- If what is made of two values differs in one place, so does what is made of lists that differ in
one value. -/
theorem flatMap {f : α → List β} (once : ChangedOnce change xs ys)
    (inner : ∀ x y, change x y → ChangedOnce change' (f x) (f y)) :
    ChangedOnce change' (xs.flatMap f) (ys.flatMap f) := by
  obtain ⟨before, after, changed⟩ := once
  rw [List.flatMap_append, List.flatMap_append, List.flatMap_cons, List.flatMap_cons]
  exact ((inner _ _ changed).append _).prepend _

/-- Lists with one change are as long as each other and differ at exactly one position. -/
theorem differ (once : ChangedOnce (· ≠ ·) xs ys) :
    xs.length = ys.length ∧ ∃! position : Nat, xs[position]? ≠ ys[position]? := by
  refine ⟨once.length_eq, ?_⟩
  obtain ⟨before, after, different⟩ := once
  refine ⟨before.length, ?_, fun position apart => ?_⟩
  · simpa using different
  · by_contra elsewhere
    apply apart
    rcases Nat.lt_or_gt_of_ne elsewhere with earlier | later
    · rw [List.getElem?_append_left earlier, List.getElem?_append_left earlier]
    · obtain ⟨n, rfl⟩ := Nat.exists_eq_add_of_lt later
      have past : before.length ≤ before.length + n + 1 := by omega
      have reached : before.length + n + 1 - before.length = n + 1 := by omega
      rw [List.getElem?_append_right past, List.getElem?_append_right past, reached,
        List.getElem?_cons_succ, List.getElem?_cons_succ]

/-- Lists of one length that differ at exactly one position have one change. -/
theorem of_differ (length : xs.length = ys.length)
    (once : ∃! position : Nat, xs[position]? ≠ ys[position]?) : ChangedOnce (· ≠ ·) xs ys := by
  induction xs generalizing ys with
  | nil =>
    obtain ⟨position, apart, -⟩ := once
    rw [List.length_eq_zero_iff.mp length.symm] at apart
    exact absurd rfl apart
  | cons x xs ih =>
    cases ys with
    | nil => cases length
    | cons y ys =>
      obtain ⟨position, apart, only⟩ := once
      have lengths : xs.length = ys.length := Nat.succ.inj length
      by_cases first : x = y
      · subst first
        cases position with
        | zero => exact absurd rfl apart
        | succ position =>
          refine (ih lengths ⟨position, by simpa using apart, fun other different => ?_⟩).cons x
          have place := only (other + 1) (by simpa using different)
          omega
      · have here := only 0 (by simpa using first)
        have rest : xs = ys := by
          apply List.ext_getElem?
          intro other
          by_contra different
          have place := only (other + 1) (by simpa using different)
          omega
        subst rest
        exact .mk [] xs first

end ChangedOnce

namespace Fingerprint

/-- What undoes a multiplication by the multiplier, which is odd. -/
def divisor : UInt64 := 0x781494a55daaed0d

/-- The multiplier is odd, so multiplying by it loses nothing. -/
theorem mul_multiplier_injective {s t : UInt64} (same : s * multiplier = t * multiplier) :
    s = t := by
  have unit : multiplier * divisor = 1 := by decide
  have undone := congrArg (· * divisor) same
  simpa only [UInt64.mul_assoc, unit, UInt64.mul_one] using undone

/-- Mixing a word in keeps different states apart. -/
theorem mix_state_injective {s t w : UInt64} (same : mix s w = mix t w) : s = t := by
  rw [mix, mix] at same
  exact (UInt64.add_left_inj w).mp (mul_multiplier_injective same)

/-- Mixing into a state keeps different words apart. -/
theorem mix_word_injective {s w v : UInt64} (same : mix s w = mix s v) : w = v := by
  rw [mix, mix] at same
  exact (UInt64.add_right_inj s).mp (mul_multiplier_injective same)

/-- Different states stay different, whatever words follow. -/
theorem foldl_mix_injective {words : List UInt64} {s t : UInt64}
    (same : words.foldl mix s = words.foldl mix t) : s = t := by
  induction words generalizing s t with
  | nil => exact same
  | cons w rest ih => exact mix_state_injective (ih same)

/-- The bits of the last step: 26 places up or, from the top, 38 places down. -/
theorem getLsbD_finish (s : UInt64) (place : Nat) :
    (finish s).toBitVec.getLsbD place
      = (decide (place < 64) && !decide (place < 26) && s.toBitVec.getLsbD (place - 26)
        || s.toBitVec.getLsbD (38 + place)) := by
  simp [finish]

/-- Finishing keeps different states apart. -/
theorem finish_injective {s t : UInt64} (same : finish s = finish t) : s = t := by
  apply UInt64.toBitVec_inj.mp
  apply BitVec.eq_of_getLsbD_eq
  intro i within
  have bit (place : Nat) : (finish s).toBitVec.getLsbD place = (finish t).toBitVec.getLsbD place := by
    rw [same]
  simp only [getLsbD_finish] at bit
  by_cases low : i < 38
  · have moved := bit (i + 26)
    have inside : i + 26 < 64 := by omega
    have above : ¬ i + 26 < 26 := by omega
    have outside (w : UInt64) : w.toBitVec.getLsbD (38 + (i + 26)) = false :=
      BitVec.getLsbD_of_ge _ _ (by omega)
    simpa [inside, above, outside] using moved
  · have moved := bit (i - 38)
    have below : i - 38 < 26 := by omega
    have back : 38 + (i - 38) = i := by omega
    simpa [below, back] using moved

/-- Words that differ in one place only have different fingerprints, however many words follow. -/
theorem ofWords_ne {words words' : List UInt64} (once : ChangedOnce (· ≠ ·) words words') :
    ofWords words ≠ ofWords words' := by
  obtain ⟨before, after, different⟩ := once
  intro same
  have ended := finish_injective same
  rw [List.foldl_append, List.foldl_append] at ended
  exact different (mix_word_injective (foldl_mix_injective ended))

end Fingerprint

end SurfaceTree
