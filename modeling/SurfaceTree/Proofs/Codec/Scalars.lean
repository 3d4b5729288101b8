import SurfaceTree.Codec.Decode
import SurfaceTree.Codec.Encode

namespace SurfaceTree

namespace Digits

/-- The digits of a number are read as that number. -/
theorem run?_toDigits (n : Nat) : run? (Nat.toDigits 10 n) = some n := by
  have digits : (Nat.toDigits 10 n).all Char.isDigit :=
    List.all_eq_true.mpr fun c member =>
      Nat.isDigit_of_mem_toDigits (by decide) (by decide) member
  rw [run?, if_pos ⟨Nat.toDigits_ne_nil, digits⟩, Nat.ofDigitChars_ten_toDigits]

/-- Digits begin with no sign. -/
theorem head_toDigits_ne {n : Nat} {c : Char} (sign : c.isDigit = false) (cs : List Char) :
    Nat.toDigits 10 n ≠ c :: cs := by
  intro same
  have digit := Nat.isDigit_of_mem_toDigits (b := 10) (n := n) (c := c) (by decide) (by decide)
    (by rw [same]; exact List.mem_cons_self ..)
  rw [sign] at digit
  cases digit

theorem natural?_toDigits (n : Nat) : natural? (Nat.toDigits 10 n) = some n := by
  unfold natural?
  split
  · next cs same => exact absurd same (head_toDigits_ne (by decide) cs)
  · exact run?_toDigits n

theorem integer?_toDigits (n : Nat) : integer? (Nat.toDigits 10 n) = some (n : Int) := by
  unfold integer?
  split
  · next cs same => exact absurd same (head_toDigits_ne (by decide) cs)
  · rw [natural?_toDigits]
    rfl

/-- A minus in front of digits negates the number. -/
theorem integer?_minus_toDigits (n : Nat) :
    integer? ('-' :: Nat.toDigits 10 n) = some (-(n : Int)) := by
  rw [integer?, run?_toDigits]
  rfl

/-- A word is read back from its digits, since it is small enough. -/
theorem word32?_toString (n : UInt32) : word32? (toString n) = some n := by
  have digits : (toString n).toList = Nat.toDigits 10 n.toNat := Nat.toList_repr
  rw [word32?, digits, natural?_toDigits]
  exact dif_pos n.toNat_lt

theorem word64?_toString (n : UInt64) : word64? (toString n) = some n := by
  have digits : (toString n).toList = Nat.toDigits 10 n.toNat := Nat.toList_repr
  rw [word64?, digits, natural?_toDigits]
  exact dif_pos n.toNat_lt

theorem integer?_ofInt (i : Int) : integer? (ofInt i).toList = some i := by
  unfold ofInt
  split
  · next negative =>
    have digits : ("-" ++ toString i.natAbs).toList = '-' :: Nat.toDigits 10 i.natAbs := by
      rw [String.toList_append, show toString i.natAbs = i.natAbs.repr from rfl, Nat.toList_repr]
      rfl
    rw [digits, integer?_minus_toDigits]
    exact congrArg some (by omega)
  · next natural =>
    have digits : (toString i.natAbs).toList = Nat.toDigits 10 i.natAbs := Nat.toList_repr
    rw [digits, integer?_toDigits]
    exact congrArg some (by omega)

/-- A number with a sign is read back from its digits. -/
theorem int64?_ofInt (i : Int64) : int64? (ofInt i.toInt) = some i := by
  rw [int64?, integer?_ofInt]
  have inRange : Int64.minValue.toInt ≤ i.toInt ∧ i.toInt ≤ Int64.maxValue.toInt :=
    ⟨i.minValue_le_toInt, i.toInt_le⟩
  exact (if_pos inRange).trans (congrArg some i.ofInt_toInt)

end Digits

/-- A character is read back from its code. -/
theorem charOfCode?_val (c : Char) : charOfCode? c.val = some c := by
  rw [charOfCode?, dif_pos c.valid]

/-- A value of a literal is read back from its numeral and the name of its kind. -/
theorem LiteralValue.read?_numeral (v : LiteralValue) : read? v.numeral v.kindName = some (some v) := by
  cases v with
  | int value => simp only [read?, kindName, numeral, Digits.int64?_ofInt, Option.map_some]
  | float bits => simp only [read?, kindName, numeral, Digits.word64?_toString, Option.map_some]
  | str name => simp only [read?, kindName, numeral, Digits.word32?_toString, Option.map_some]
  | char value =>
    have code : Digits.word32? (toString value.toNat) = some value.val :=
      Digits.word32?_toString value.val
    simp only [read?, kindName, numeral, code, Option.bind_some, charOfCode?_val, Option.map_some,
      bind]

end SurfaceTree
