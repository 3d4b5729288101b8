import Mathlib.Data.Prod.Lex
import SurfaceTree.Proofs.Codec.Bytes
import SurfaceTree.Proofs.Source.Lines

namespace SurfaceTree

namespace Source

open String (utf8Len)

/-- An offset between two characters of a text, or at one of its ends. -/
abbrev IsBoundary (text : String) (offset : Nat) : Prop :=
  String.Pos.Raw.IsValid text ⟨offset⟩

/-- How many line feeds are among the first bytes of a text. -/
def feedsBefore (text : String) (offset : Nat) : Nat :=
  (text.toUTF8.toList.take offset).count '\n'.toUInt8

/-- The line and column after some characters. -/
def positionAfter (front : List Char) : Nat × Nat :=
  (front.count '\n' + 1, (lastLine front).length + 1)

section Bytes

variable {text : String} {offset : Nat}

theorem isBoundary_iff :
    IsBoundary text offset ↔ utf8Len (charsUpTo offset text.toList) = offset := by
  constructor
  · intro between
    obtain ⟨i, there⟩ := String.Pos.Raw.isValid_iff_exists_take_toList.mp between
    have size : offset = utf8Len (text.toList.take i) := by
      rw [← String.utf8Len_toList, String.toList_ofList] at there
      exact there
    have whole := charsUpTo_of_append (text.toList.take i) (text.toList.drop i)
    rw [List.take_append_drop, ← size] at whole
    rw [whole, size]
  · intro there
    obtain ⟨back, split⟩ := charsUpTo_prefix offset text.toList
    refine String.Pos.Raw.isValid_iff_exists_append.mpr
      ⟨String.ofList (charsUpTo offset text.toList), String.ofList back, ?_, ?_⟩
    · rw [← String.ofList_append, split, String.ofList_toList]
    · ext
      rw [String.byteIdx_rawEndPos, ← String.utf8Len_toList, String.toList_ofList, there]

theorem toList_toUTF8 (text : String) :
    text.toUTF8.toList = text.toList.flatMap String.utf8EncodeChar := by
  rw [Bytes.toList_eq, String.toUTF8_eq_toByteArray, ← String.utf8Encode_toList, List.utf8Encode,
    List.data_toByteArray]

/-- The byte of a line feed is in no other character. -/
theorem count_feed_utf8EncodeChar (c : Char) :
    (String.utf8EncodeChar c).count '\n'.toUInt8 = if c = '\n' then 1 else 0 := by
  by_cases feed : c = '\n'
  · rw [feed]
    rfl
  · have other : c.val.toNat ≠ 10 := fun eq => feed (Char.toNat_inj.mp eq)
    rw [if_neg feed, List.count_eq_zero]
    intro mem
    have byte : ∀ n : Nat, '\n'.toUInt8 = UInt8.ofNat n → n % 256 = 10 := by
      intro n eq
      have values := congrArg UInt8.toNat eq
      rw [UInt8.toNat_ofNat'] at values
      exact values.symm
    simp only [String.utf8EncodeChar] at mem
    split_ifs at mem with one two three
    all_goals simp only [List.mem_cons, List.not_mem_nil, or_false] at mem
    · have value := byte _ mem
      omega
    · rcases mem with here | here <;> have value := byte _ here <;> omega
    · rcases mem with here | here | here <;> have value := byte _ here <;> omega
    · rcases mem with here | here | here | here <;> have value := byte _ here <;> omega

theorem count_feed_take (n : Nat) (cs : List Char) :
    ((cs.flatMap String.utf8EncodeChar).take n).count '\n'.toUInt8
      = (charsUpTo n cs).count '\n' := by
  induction cs generalizing n with
  | nil =>
    rw [List.flatMap_nil, List.take_nil]
    rfl
  | cons c rest ih =>
    rw [List.flatMap_cons, List.take_append, List.count_append, ih, String.length_utf8EncodeChar,
      charsUpTo]
    by_cases whole : c.utf8Size ≤ n
    · rw [if_pos whole, List.take_of_length_le (by rwa [String.length_utf8EncodeChar]),
        count_feed_utf8EncodeChar, List.count_cons, Nat.add_comm]
      simp only [beq_iff_eq]
    · have nothing : n - c.utf8Size = 0 := by omega
      rw [if_neg whole, nothing, charsUpTo_zero, List.count_nil, Nat.add_zero]
      by_cases feed : c = '\n'
      · have before : n = 0 := by
          have one : '\n'.utf8Size = 1 := rfl
          rw [feed, one] at whole
          omega
        rw [before, List.take_zero, List.count_nil]
      · have none := count_feed_utf8EncodeChar c
        rw [if_neg feed, List.count_eq_zero] at none
        exact List.count_eq_zero.mpr fun mem => none (List.mem_of_mem_take mem)

theorem feedsBefore_eq (text : String) (offset : Nat) :
    feedsBefore text offset = (charsUpTo offset text.toList).count '\n' := by
  rw [feedsBefore, toList_toUTF8, count_feed_take]

end Bytes

section Order

variable {front more : List Char}

/-- Every further character is at a later position. -/
theorem positionAfter_lt (further : more ≠ []) :
    toLex (positionAfter front) < toLex (positionAfter (front ++ more)) := by
  rw [Prod.Lex.toLex_lt_toLex]
  unfold positionAfter
  by_cases feed : '\n' ∈ more
  · have some := List.count_pos_iff.mpr feed
    left
    rw [List.count_append]
    omega
  · have some := List.length_pos_iff.mpr further
    right
    rw [List.count_append, List.count_eq_zero.mpr feed, lastLine_append_of_notMem feed,
      List.length_append]
    omega

theorem positionAfter_le (front more : List Char) :
    toLex (positionAfter front) ≤ toLex (positionAfter (front ++ more)) := by
  by_cases further : more = []
  · rw [further, List.append_nil]
  · exact le_of_lt (positionAfter_lt further)

end Order

section Position

variable {path text : String}

theorem lineIndex_eq (short : text.utf8ByteSize < UInt32.size) (offset : Nat) :
    (ofText path text).lineIndex offset = (charsUpTo offset text.toList).count '\n' := by
  rw [← String.utf8Len_toList] at short
  have fits : 0 + utf8Len text.toList < UInt32.size := by omega
  have ascending : (0 :: startsAfter 0 text.toList).Pairwise (· ≤ ·) :=
    List.pairwise_cons.mpr ⟨fun _ _ => Nat.zero_le _, ascending_startsAfter fits⟩
  have begun : (0 :: startsAfter 0 text.toList).countP (· ≤ offset)
      = (charsUpTo offset text.toList).count '\n' + 1 := by
    have behind := countP_startsAfter fits offset
    rw [Nat.zero_add] at behind
    rw [List.countP_cons, if_pos (decide_eq_true (Nat.zero_le offset)), behind]
  have found : countUpTo (ofText path text).lineStarts offset 0 (ofText path text).lineStarts.size
      = (charsUpTo offset text.toList).count '\n' + 1 := by
    rw [← begun]
    exact countUpTo_eq ascending (Nat.zero_le _) List.countP_le_length (Nat.le_refl _)
  simp only [lineIndex, search, found, Nat.add_sub_cancel]
  split
  · rename_i index at_index
    split at at_index
    · exact (Found.at.inj at_index).symm
    · cases at_index
  · rename_i index before_index
    split at before_index
    · cases before_index
    · rw [← Found.before.inj before_index, Nat.add_sub_cancel]

theorem lineStart_eq (path : String) {front back : List Char} (split : text.toList = front ++ back)
    (short : text.utf8ByteSize < UInt32.size) :
    (ofText path text).lineStarts.getD (front.count '\n') 0 + utf8Len (lastLine front)
      = utf8Len front := by
  have begins : (ofText path text).lineStarts.getD (front.count '\n') 0
      = (startsAfter 0 front).getLastD 0 := by
    have table : (ofText path text).lineStarts
        = (0 :: (startsAfter 0 front ++ startsAfter (0 + utf8Len front) back)).toArray := by
      rw [← startsAfter_append, ← split]
      rfl
    rw [table, ← length_startsAfter 0 front, Array.getD_eq_getD_getElem?, List.getElem?_toArray]
    rcases (startsAfter 0 front).eq_nil_or_concat' with none | ⟨before, last, some⟩
    · rw [none]
      rfl
    · rw [some, List.getLastD_concat]
      simp
  rw [begins]
  refine getLastD_startsAfter front ?_
  rw [← String.utf8Len_toList, split, String.utf8Len_append] at short
  omega

/-- The characters of the last line are counted if they take up all bytes from its start on. -/
theorem countBetween_eq {front back : List Char} {stop : Nat} (split : text.toList = front ++ back)
    (upTo : charsUpTo stop text.toList = front) (short : text.utf8ByteSize < UInt32.size) :
    (ofText path text).countBetween ((ofText path text).lineStarts.getD (front.count '\n') 0) stop
      = if utf8Len front = stop then some (lastLine front).length else none := by
  obtain ⟨begun, cut⟩ := exists_begun front
  have starts := lineStart_eq path split short
  have size : utf8Len begun + utf8Len (lastLine front) = utf8Len front := by
    rw [← String.utf8Len_append, ← cut]
  have within : utf8Len front ≤ stop := upTo ▸ utf8Len_charsUpTo_le stop text.toList
  have chars : text.toList = begun ++ (lastLine front ++ back) := by
    rw [← List.append_assoc, ← cut, split]
  have line : charsUpTo (stop - utf8Len begun) (lastLine front ++ back) = lastLine front := by
    have passed := charsUpTo_append begun (stop - utf8Len begun) (lastLine front ++ back)
    rw [← chars, Nat.add_sub_cancel' (by omega), upTo] at passed
    exact List.append_cancel_left (passed.symm.trans cut)
  have start : (ofText path text).lineStarts.getD (front.count '\n') 0 = utf8Len begun := by omega
  have from_start : charsFrom? (utf8Len begun) (ofText path text).chars
      = some (lastLine front ++ back) := by
    rw [← charsFrom?_append begun (lastLine front ++ back), ← chars]
    rfl
  rw [countBetween, start, from_start, Option.bind_some, countWithin_eq, line]
  by_cases whole : utf8Len front = stop
  · rw [if_pos whole, if_pos (by omega)]
  · rw [if_neg whole, if_neg (by omega)]

/-- What the search, the clamp and the count between two offsets come to. -/
theorem lineColumn_eq (short : text.utf8ByteSize < UInt32.size - 1) (offset : UInt32) :
    (ofText path text).lineColumn offset =
      ((charsUpTo offset.toNat text.toList).count '\n' + 1,
        if utf8Len (charsUpTo offset.toNat text.toList) = min offset.toNat text.utf8ByteSize
          then (lastLine (charsUpTo offset.toNat text.toList)).length + 1 else 1) := by
  have short' : text.utf8ByteSize < UInt32.size := by omega
  obtain ⟨back, split⟩ := charsUpTo_prefix offset.toNat text.toList
  have upTo := charsUpTo_min offset.toNat text.toList
  rw [String.utf8Len_toList] at upTo
  simp only [lineColumn, lineIndex_eq short']
  generalize charsUpTo offset.toNat text.toList = front at *
  have starts := lineStart_eq path split.symm short'
  have within : utf8Len front ≤ min offset.toNat text.utf8ByteSize :=
    upTo ▸ utf8Len_charsUpTo_le _ _
  have stop : max ((ofText path text).lineStarts.getD (front.count '\n') 0)
      (min offset.toNat (ofText path text).size) = min offset.toNat text.utf8ByteSize :=
    Nat.max_eq_right (Nat.le_trans (by omega) within)
  obtain ⟨begun, cut⟩ := exists_begun front
  have lines : front.count '\n' ≤ front.length := List.count_le_length
  have columns : (lastLine front).length ≤ front.length := by
    have lengths := congrArg List.length cut
    rw [List.length_append] at lengths
    omega
  have few := length_le_utf8Len front
  rw [stop, countBetween_eq split.symm upTo short']
  rw [capped_eq (by omega)]
  by_cases whole : utf8Len front = min offset.toNat text.utf8ByteSize
  · rw [if_pos whole, if_pos whole, Option.getD_some, capped_eq (by omega)]
  · rw [if_neg whole, if_neg whole, Option.getD_none, capped_eq (by omega)]

/-- The last character that ends at an offset or before it ends there or is the last of the text. -/
theorem whole_iff (text : String) (offset : Nat) :
    utf8Len (charsUpTo offset text.toList) = min offset text.utf8ByteSize ↔
      IsBoundary text offset ∨ text.utf8ByteSize ≤ offset := by
  rw [isBoundary_iff]
  by_cases past : text.utf8ByteSize ≤ offset
  · have all : charsUpTo offset text.toList = text.toList :=
      charsUpTo_of_le (by rwa [String.utf8Len_toList])
    rw [Nat.min_eq_right past, all, String.utf8Len_toList]
    exact iff_of_true rfl (.inr past)
  · rw [Nat.min_eq_left (by omega), or_iff_left past]

theorem lineColumn_of_whole (short : text.utf8ByteSize < UInt32.size - 1) {offset : UInt32}
    (whole : IsBoundary text offset.toNat ∨ text.utf8ByteSize ≤ offset.toNat) :
    (ofText path text).lineColumn offset = positionAfter (charsUpTo offset.toNat text.toList) := by
  rw [lineColumn_eq short, if_pos ((whole_iff text _).mpr whole)]
  rfl

theorem lineColumn_of_inside (short : text.utf8ByteSize < UInt32.size - 1) {offset : UInt32}
    (inside : ¬ (IsBoundary text offset.toNat ∨ text.utf8ByteSize ≤ offset.toNat)) :
    (ofText path text).lineColumn offset
      = ((charsUpTo offset.toNat text.toList).count '\n' + 1, 1) := by
  rw [lineColumn_eq short, if_neg (mt (whole_iff text _).mp inside)]

theorem lineColumn_le (short : text.utf8ByteSize < UInt32.size - 1) (offset : UInt32) :
    toLex ((ofText path text).lineColumn offset)
      ≤ toLex (positionAfter (charsUpTo offset.toNat text.toList)) := by
  by_cases whole : IsBoundary text offset.toNat ∨ text.utf8ByteSize ≤ offset.toNat
  · rw [lineColumn_of_whole short whole]
  · rw [lineColumn_of_inside short whole, Prod.Lex.toLex_le_toLex]
    exact .inr ⟨rfl, Nat.le_add_left _ _⟩

end Position

/-- Between characters and past the end, the line and column of a byte are those that a scan from
left to right counts. They grow from each end of a character to the next and stay the same from the
end of the text on. -/
theorem lineColumn_scans (path text : String) (short : text.utf8ByteSize < UInt32.size - 1) :
    (∀ offset : UInt32, IsBoundary text offset.toNat ∨ text.utf8ByteSize ≤ offset.toNat →
      (ofText path text).lineColumn offset =
        (1 + feedsBefore text offset.toNat,
          1 + (lastLine (charsUpTo offset.toNat text.toList)).length)) ∧
    (∀ a b : UInt32, IsBoundary text a.toNat → IsBoundary text b.toNat → a < b →
      toLex ((ofText path text).lineColumn a) < toLex ((ofText path text).lineColumn b)) ∧
    (∀ a b : UInt32, text.utf8ByteSize ≤ a.toNat → text.utf8ByteSize ≤ b.toNat →
      (ofText path text).lineColumn a = (ofText path text).lineColumn b) := by
  refine ⟨fun offset whole => ?_, fun a b atA atB before => ?_, fun a b pastA pastB => ?_⟩
  · rw [lineColumn_of_whole short whole, feedsBefore_eq, positionAfter, Nat.add_comm 1,
      Nat.add_comm 1]
  · rw [lineColumn_of_whole short (.inl atA), lineColumn_of_whole short (.inl atB)]
    obtain ⟨more, split⟩ := charsUpTo_mono (UInt32.le_iff_toNat_le.mp (UInt32.le_of_lt before))
      text.toList
    rw [← split]
    refine positionAfter_lt fun none => ?_
    have same := congrArg utf8Len split
    rw [none, List.append_nil, isBoundary_iff.mp atA, isBoundary_iff.mp atB] at same
    exact Nat.ne_of_lt (UInt32.lt_iff_toNat_lt.mp before) same
  · have all (offset : UInt32) (past : text.utf8ByteSize ≤ offset.toNat) :
        charsUpTo offset.toNat text.toList = text.toList :=
      charsUpTo_of_le (by rwa [String.utf8Len_toList])
    rw [lineColumn_of_whole short (.inr pastA), lineColumn_of_whole short (.inr pastB),
      all a pastA, all b pastB]

theorem lineColumn_scans_lambda :
    (ofText "a.lm" "λx\nab").lineColumn 2 = (1, 2) ∧
    toLex ((ofText "a.lm" "λx\nab").lineColumn 2) < toLex ((ofText "a.lm" "λx\nab").lineColumn 4) ∧
    (ofText "a.lm" "λx\nab").lineColumn 6 = (ofText "a.lm" "λx\nab").lineColumn 99 := by
  obtain ⟨scans, grows, stays⟩ := lineColumn_scans "a.lm" "λx\nab" (by decide)
  have two : IsBoundary "λx\nab" (2 : UInt32).toNat := isBoundary_iff.mpr (by decide)
  have four : IsBoundary "λx\nab" (4 : UInt32).toNat := isBoundary_iff.mpr (by decide)
  exact ⟨(scans 2 (.inl two)).trans (by decide +kernel), grows 2 4 two four (by decide),
    stays 6 99 (by decide) (by decide)⟩

/-- A later byte is never on an earlier line. Its position is before that of an earlier byte exactly
if it is inside a character, and the earlier byte is where a character begins that is not the first
one of the same line. -/
theorem lineColumn_lt_iff (path text : String) (short : text.utf8ByteSize < UInt32.size - 1)
    {a b : UInt32} (before : a ≤ b) :
    ((ofText path text).lineColumn a).1 ≤ ((ofText path text).lineColumn b).1 ∧
    (toLex ((ofText path text).lineColumn b) < toLex ((ofText path text).lineColumn a) ↔
      b.toNat < text.utf8ByteSize ∧ ¬ IsBoundary text b.toNat ∧ IsBoundary text a.toNat ∧
        feedsBefore text a.toNat = feedsBefore text b.toNat ∧
        lastLine (charsUpTo a.toNat text.toList) ≠ []) := by
  have sorted := UInt32.le_iff_toNat_le.mp before
  obtain ⟨more, split⟩ := charsUpTo_mono sorted text.toList
  have feeds : (charsUpTo a.toNat text.toList).count '\n'
      ≤ (charsUpTo b.toNat text.toList).count '\n' := by
    rw [← split, List.count_append]
    exact Nat.le_add_right _ _
  constructor
  · rw [lineColumn_eq short, lineColumn_eq short]
    exact Nat.add_le_add_right feeds 1
  by_cases wholeB : IsBoundary text b.toNat ∨ text.utf8ByteSize ≤ b.toNat
  · have forwards : toLex ((ofText path text).lineColumn a)
        ≤ toLex ((ofText path text).lineColumn b) := by
      rw [lineColumn_of_whole short wholeB, ← split]
      exact le_trans (lineColumn_le short a) (positionAfter_le _ more)
    refine iff_of_false (not_lt_of_ge forwards) ?_
    rintro ⟨within, inside, _⟩
    exact wholeB.elim inside (by omega)
  rw [lineColumn_of_inside short wholeB, feedsBefore_eq, feedsBefore_eq, Prod.Lex.toLex_lt_toLex]
  by_cases wholeA : IsBoundary text a.toNat ∨ text.utf8ByteSize ≤ a.toNat
  · have endsA : IsBoundary text a.toNat :=
      wholeA.resolve_right fun past => wholeB (.inr (by omega))
    have insideB : b.toNat < text.utf8ByteSize ∧ ¬ IsBoundary text b.toNat :=
      ⟨Nat.lt_of_not_le fun past => wholeB (.inr past), fun between => wholeB (.inl between)⟩
    rw [lineColumn_of_whole short wholeA, ← List.length_pos_iff]
    simp only [positionAfter, endsA, insideB, not_false_eq_true, true_and]
    omega
  · rw [lineColumn_of_inside short wholeA]
    refine iff_of_false ?_ fun reason => wholeA (.inl reason.2.2.1)
    simp only
    omega

theorem lineColumn_lt_inside_lambda :
    (1 : UInt32) ≤ 2 ∧
    toLex ((ofText "a.lm" "aλ").lineColumn 2) < toLex ((ofText "a.lm" "aλ").lineColumn 1) := by
  have one : IsBoundary "aλ" (1 : UInt32).toNat := isBoundary_iff.mpr (by decide)
  have two : ¬ IsBoundary "aλ" (2 : UInt32).toNat := mt isBoundary_iff.mp (by decide)
  exact ⟨by decide, (lineColumn_lt_iff "a.lm" "aλ" (by decide) (by decide)).2.mpr
    ⟨by decide, two, one, by decide +kernel, by decide⟩⟩

/-- The second byte of `λ` is on column 1, although the first one is on column 2. -/
theorem not_lineColumn_monotone :
    ¬ ∀ path text : String, text.utf8ByteSize < UInt32.size - 1 → ∀ a b : UInt32, a ≤ b →
      toLex ((ofText path text).lineColumn a) ≤ toLex ((ofText path text).lineColumn b) := by
  intro monotone
  have forwards := monotone "a.lm" "aλ" (by decide) 1 2 (by decide)
  have one : (ofText "a.lm" "aλ").lineColumn 1 = (1, 2) :=
    (lineColumn_eq (by decide) 1).trans (by decide)
  have two : (ofText "a.lm" "aλ").lineColumn 2 = (1, 1) :=
    (lineColumn_eq (by decide) 2).trans (by decide)
  rw [one, two] at forwards
  exact absurd forwards (by decide)

end Source

end SurfaceTree
