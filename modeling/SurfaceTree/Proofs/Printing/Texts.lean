import SurfaceTree.Printing.Tree
import SurfaceTree.Proofs.Keyword
import SurfaceTree.Proofs.Layout.OneLine

namespace SurfaceTree

/-- No name is spelled with a line break, and no place is described with one. -/
structure Lookups.Plain (look : Lookups) : Prop where
  spell : ∀ n, '\n' ∉ (look.spell n).toList
  locate : ∀ s, '\n' ∉ (look.locate s).toList

theorem notMem_append {s t : String} (first : '\n' ∉ s.toList) (second : '\n' ∉ t.toList) :
    '\n' ∉ (s ++ t).toList := by
  rw [String.toList_append, List.mem_append, not_or]
  exact ⟨first, second⟩

namespace Digits

/-- No digit is a line break. -/
theorem digitChar_ne (n : Nat) : n.digitChar ≠ '\n' := by
  have few : ∀ n < 16, n.digitChar ≠ '\n' := by decide
  by_cases small : n < 16
  · exact few n small
  · have other : n.digitChar = '*' := by
      unfold Nat.digitChar
      repeat rw [if_neg (by omega)]
    rw [other]
    decide

theorem notMem_toDigits (base n : Nat) : '\n' ∉ Nat.toDigits base n := by
  have core (fuel n : Nat) (later : List Char) (plain : '\n' ∉ later) :
      '\n' ∉ Nat.toDigitsCore base fuel n later := by
    induction fuel generalizing n later with
    | zero => exact plain
    | succ fuel ih =>
      have digit : '\n' ∉ (n % base).digitChar :: later := by
        rw [List.mem_cons, not_or]
        exact ⟨(digitChar_ne _).symm, plain⟩
      rw [Nat.toDigitsCore]
      split
      · exact digit
      · exact ih _ _ digit
  exact core _ _ _ List.not_mem_nil

theorem notMem_toString (n : Nat) : '\n' ∉ (toString n).toList := by
  rw [Nat.toString_eq_ofList_toDigits, String.toList_ofList]
  exact notMem_toDigits 10 n

theorem notMem_ofInt (i : Int) : '\n' ∉ (ofInt i).toList := by
  unfold ofInt
  split
  · exact notMem_append (by decide) (notMem_toString _)
  · exact notMem_toString _

end Digits

namespace Shortest

theorem notMem_normal (d : Decimal) : '\n' ∉ d.normal.1 := by
  intro feed
  have inside := (List.dropWhile_suffix _).subset (List.mem_reverse.mp feed)
  exact Digits.notMem_toDigits 10 d.digits (List.mem_reverse.mp inside)

variable {digits : List Char}

theorem notMem_positional (plain : '\n' ∉ digits) (point : Int) :
    '\n' ∉ positional digits point := by
  have front (n : Nat) : '\n' ∉ digits.take n := mt List.mem_of_mem_take plain
  have back (n : Nat) : '\n' ∉ digits.drop n := mt List.mem_of_mem_drop plain
  unfold positional
  split_ifs
  · simp [plain]
  · simp [front, back]
  · simp [plain]

theorem notMem_scientific (plain : '\n' ∉ digits) (point : Int) :
    '\n' ∉ scientific digits point := by
  have front (n : Nat) : '\n' ∉ digits.take n := mt List.mem_of_mem_take plain
  have back : '\n' ∉ digits.tail := mt List.mem_of_mem_tail plain
  unfold scientific
  split_ifs
  · simp [front, Digits.notMem_ofInt]
  · simp [front, back, Digits.notMem_ofInt]

/-- No number with a point is printed with a line break. -/
theorem notMem_double (bits : UInt64) : '\n' ∉ (double bits).toList := by
  unfold double
  extract_lets sign biased fraction interval
  have signed {s : String} (plain : '\n' ∉ s.toList) : '\n' ∉ (sign ++ s).toList := by
    refine notMem_append ?_ plain
    unfold sign
    split <;> decide
  split
  · split
    · exact signed (by decide)
    · decide
  · split
    · exact signed (by decide)
    · refine signed ?_
      rw [String.toList_ofList]
      split
      · exact notMem_positional (notMem_normal _) _
      · exact notMem_scientific (notMem_normal _) _

end Shortest

namespace Quoted

theorem notMem_codePoint (c : Char) : '\n' ∉ (codePoint c).toList := by
  unfold codePoint Digits.lowerHex
  simp [Digits.notMem_toDigits]

/-- A line break in quoted text is escaped. -/
theorem notMem_char (quote c : Char) : '\n' ∉ (char quote c).toList := by
  unfold char
  split
  · decide
  · decide
  · decide
  · decide
  · decide
  · next _ _ _ other _ =>
    have single : '\n' ∉ (String.singleton c).toList := by
      rw [String.toList_singleton, List.mem_singleton]
      exact fun feed => other feed.symm
    split
    · exact notMem_append (by decide) single
    · split
      · exact single
      · exact notMem_codePoint c

theorem notMem_string (s : String) : '\n' ∉ (string s).toList := by
  unfold string
  simp [notMem_char]

theorem notMem_character (c : Char) : '\n' ∉ (character c).toList := by
  unfold character
  simp [notMem_char]

end Quoted

namespace Doc

theorem breaks_text {s : String} (plain : '\n' ∉ s.toList) (grouped : Bool) :
    (text s).breaks grouped = false := by
  rw [breaks, List.contains_eq_mem]
  exact decide_eq_false plain

end Doc

variable {look : Lookups}

/-- A name is printed on one line if what it is looked up as is. -/
theorem Lookups.Plain.breaks_name (plain : look.Plain) (n : Name) (grouped : Bool) :
    (look.name n).breaks grouped = false := Doc.breaks_text (plain.spell n) grouped

theorem Symbol.breaks_doc (plain : look.Plain) (s : Symbol) (grouped : Bool) :
    (s.doc look).breaks grouped = false := by
  have number : '\n' ∉ ("#" ++ toString s.scope.number).toList :=
    notMem_append (by decide) (Digits.notMem_toString _)
  simp [Symbol.doc, Doc.breaks_concat, plain.breaks_name, Doc.breaks_text number]

theorem Span.breaks_doc (plain : look.Plain) (s : Span) (grouped : Bool) :
    (s.doc look).breaks grouped = false := Doc.breaks_text (plain.locate s) grouped

/-- A literal is printed on one line. -/
theorem Literal.breaks_doc (l : Literal) (grouped : Bool) :
    (l.doc look).breaks grouped = false := by
  unfold Literal.doc
  split
  · exact Doc.breaks_text (Digits.notMem_ofInt _) grouped
  · exact Doc.breaks_text (Shortest.notMem_double _) grouped
  · exact Doc.breaks_text (Quoted.notMem_string _) grouped
  · exact Doc.breaks_text (Quoted.notMem_character _) grouped

theorem Keyword.breaks_doc {α : Type} [Keyword α] [LawfulKeyword α]
    (plain : ∀ a ∈ all (α := α), '\n' ∉ (spelling a).toList) (a : α) (grouped : Bool) :
    (Keyword.doc a).breaks grouped = false :=
  Doc.breaks_text (plain a (LawfulKeyword.mem_all a)) grouped

end SurfaceTree
