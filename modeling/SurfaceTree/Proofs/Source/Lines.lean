import Mathlib.Data.List.Induction
import Mathlib.Data.List.TakeWhile
import Mathlib.Data.String.Basic
import SurfaceTree.Source

namespace SurfaceTree

namespace Source

open String (utf8Len)

/-- The characters that end at an offset or before it. -/
def charsUpTo : (offset : Nat) → List Char → List Char
  | _, [] => []
  | offset, c :: rest =>
    if c.utf8Size ≤ offset then c :: charsUpTo (offset - c.utf8Size) rest else []

/-- The characters after the last line feed. -/
def lastLine (cs : List Char) : List Char := (cs.reverse.takeWhile (· ≠ '\n')).reverse

theorem capped_eq {n : Nat} (small : n < UInt32.size) : capped n = n := Nat.min_eq_left (by omega)

theorem length_le_utf8Len (cs : List Char) : cs.length ≤ utf8Len cs := by
  induction cs with
  | nil => exact Nat.le_refl _
  | cons c rest ih =>
    have some := c.utf8Size_pos
    rw [List.length_cons, String.utf8Len_cons]
    omega

section UpTo

variable {offset : Nat} {cs : List Char}

theorem charsUpTo_zero (cs : List Char) : charsUpTo 0 cs = [] := by
  cases cs with
  | nil => rfl
  | cons c rest =>
    have size := c.utf8Size_pos
    rw [charsUpTo, if_neg (by omega)]

/-- The characters up to an offset are those that the text begins with. -/
theorem charsUpTo_prefix (offset : Nat) (cs : List Char) : charsUpTo offset cs <+: cs := by
  induction cs generalizing offset with
  | nil => exact List.prefix_rfl
  | cons c rest ih =>
    unfold charsUpTo
    split
    · exact List.cons_prefix_cons.mpr ⟨rfl, ih _⟩
    · exact List.nil_prefix

theorem utf8Len_charsUpTo_le (offset : Nat) (cs : List Char) :
    utf8Len (charsUpTo offset cs) ≤ offset := by
  induction cs generalizing offset with
  | nil => exact Nat.zero_le _
  | cons c rest ih =>
    unfold charsUpTo
    split
    · have later := ih (offset - c.utf8Size)
      rw [String.utf8Len_cons]
      omega
    · exact Nat.zero_le _

/-- What comes before an offset is passed over. -/
theorem charsUpTo_append (front : List Char) (offset : Nat) (cs : List Char) :
    charsUpTo (utf8Len front + offset) (front ++ cs) = front ++ charsUpTo offset cs := by
  induction front with
  | nil => rw [String.utf8Len_nil, Nat.zero_add, List.nil_append, List.nil_append]
  | cons c rest ih =>
    have left : utf8Len (c :: rest) + offset - c.utf8Size = utf8Len rest + offset := by
      rw [String.utf8Len_cons]
      omega
    rw [List.cons_append, charsUpTo, if_pos (by rw [String.utf8Len_cons]; omega), left, ih,
      List.cons_append]

theorem charsUpTo_of_append (front back : List Char) :
    charsUpTo (utf8Len front) (front ++ back) = front := by
  have exactly := charsUpTo_append front 0 back
  rwa [charsUpTo_zero, Nat.add_zero, List.append_nil] at exactly

theorem charsUpTo_of_le (past : utf8Len cs ≤ offset) : charsUpTo offset cs = cs := by
  have all := charsUpTo_append cs (offset - utf8Len cs) []
  rwa [charsUpTo, List.append_nil, Nat.add_sub_cancel' past] at all

/-- Past the end there is nothing more. -/
theorem charsUpTo_min (offset : Nat) (cs : List Char) :
    charsUpTo (min offset (utf8Len cs)) cs = charsUpTo offset cs := by
  by_cases past : utf8Len cs ≤ offset
  · rw [Nat.min_eq_right past, charsUpTo_of_le past, charsUpTo_of_le (Nat.le_refl _)]
  · rw [Nat.min_eq_left (by omega)]

theorem charsUpTo_mono {offset' : Nat} (before : offset ≤ offset') (cs : List Char) :
    charsUpTo offset cs <+: charsUpTo offset' cs := by
  induction cs generalizing offset offset' with
  | nil => exact List.prefix_rfl
  | cons c rest ih =>
    unfold charsUpTo
    by_cases whole : c.utf8Size ≤ offset
    · rw [if_pos whole, if_pos (whole.trans before)]
      exact List.cons_prefix_cons.mpr ⟨rfl, ih (by omega)⟩
    · rw [if_neg whole]
      exact List.nil_prefix

theorem countWithin_eq (size : Nat) (cs : List Char) :
    countWithin size cs = if utf8Len (charsUpTo size cs) = size
      then some (charsUpTo size cs).length else none := by
  induction cs generalizing size with
  | nil =>
    cases size with
    | zero => rfl
    | succ size => rfl
  | cons c rest ih =>
    have some := c.utf8Size_pos
    by_cases whole : c.utf8Size ≤ size
    · have passed : size ≠ 0 := by omega
      rw [countWithin, if_pos whole, ih, charsUpTo, if_pos whole, String.utf8Len_cons]
      · by_cases exactly : utf8Len (charsUpTo (size - c.utf8Size) rest) = size - c.utf8Size
        · rw [if_pos exactly, if_pos (by omega)]
          rfl
        · rw [if_neg exactly, if_neg (by omega)]
          rfl
      · exact passed
    · cases size with
      | zero => rw [charsUpTo_zero]; rfl
      | succ size =>
        rw [countWithin, if_neg whole, charsUpTo, if_neg whole, if_neg (by simp)]
        exact Nat.succ_ne_zero _

theorem charsFrom?_append (front back : List Char) :
    charsFrom? (utf8Len front) (front ++ back) = some back := by
  induction front with
  | nil => rw [String.utf8Len_nil, List.nil_append, charsFrom?]
  | cons c rest ih =>
    have some := c.utf8Size_pos
    have left : utf8Len (c :: rest) - c.utf8Size = utf8Len rest := by
      rw [String.utf8Len_cons]
      omega
    have passed : utf8Len (c :: rest) ≠ 0 := by
      rw [String.utf8Len_cons]
      omega
    rw [List.cons_append, charsFrom?, if_pos (by rw [String.utf8Len_cons]; omega), left, ih]
    exact passed

end UpTo

section LastLine

variable {front more : List Char}

theorem exists_begun (front : List Char) : ∃ begun, front = begun ++ lastLine front := by
  have split := congrArg List.reverse
    (List.takeWhile_append_dropWhile (p := (· ≠ '\n')) (l := front.reverse))
  rw [List.reverse_append, List.reverse_reverse] at split
  exact ⟨_, split.symm⟩

/-- A line goes on until a line feed. -/
theorem lastLine_append_of_notMem (within : '\n' ∉ more) :
    lastLine (front ++ more) = lastLine front ++ more := by
  have plain : ∀ c ∈ more.reverse, decide (c ≠ '\n') = true := by
    intro c mem
    have here := List.mem_reverse.mp mem
    exact decide_eq_true fun feed => within (feed ▸ here)
  rw [lastLine, List.reverse_append, List.takeWhile_append_of_pos plain, List.reverse_append,
    List.reverse_reverse, lastLine]

theorem lastLine_feed (front : List Char) : lastLine (front ++ ['\n']) = [] := by
  simp [lastLine]

theorem lastLine_concat (front : List Char) (c : Char) :
    lastLine (front ++ [c]) = if c = '\n' then [] else lastLine front ++ [c] := by
  by_cases feed : c = '\n'
  · rw [if_pos feed, feed, lastLine_feed]
  · rw [if_neg feed, lastLine_append_of_notMem (by simpa using Ne.symm feed)]

end LastLine

section Starts

variable {base : Nat} {cs : List Char}

theorem startsAfter_append (front back : List Char) (base : Nat) :
    startsAfter base (front ++ back)
      = startsAfter base front ++ startsAfter (base + utf8Len front) back := by
  induction front generalizing base with
  | nil => rfl
  | cons c rest ih =>
    have next : base + c.utf8Size + utf8Len rest = base + utf8Len (c :: rest) := by
      rw [String.utf8Len_cons]
      omega
    simp only [List.cons_append, startsAfter, ih, next]
    split
    · rfl
    · rfl

/-- There is one further line for each line feed. -/
theorem length_startsAfter (base : Nat) (cs : List Char) :
    (startsAfter base cs).length = cs.count '\n' := by
  induction cs generalizing base with
  | nil => rfl
  | cons c rest ih =>
    simp only [startsAfter]
    split
    · rename_i feed
      rw [List.length_cons, ih, feed, List.count_cons_self]
    · rename_i plain
      rw [ih, List.count_cons_of_ne plain]

theorem mem_startsAfter_cons {t : Nat} {c : Char} {rest : List Char} :
    t ∈ startsAfter base (c :: rest) ↔
      c = '\n' ∧ t = capped (base + c.utf8Size) ∨ t ∈ startsAfter (base + c.utf8Size) rest := by
  by_cases feed : c = '\n'
  · simp [startsAfter, feed]
  · simp [startsAfter, feed]

theorem lt_of_mem_startsAfter (short : base + utf8Len cs < UInt32.size) :
    ∀ t ∈ startsAfter base cs, base < t := by
  induction cs generalizing base with
  | nil => intro t mem; cases mem
  | cons c rest ih =>
    have some := c.utf8Size_pos
    rw [String.utf8Len_cons] at short
    intro t mem
    rcases mem_startsAfter_cons.mp mem with ⟨_, rfl⟩ | mem
    · rw [capped_eq (by omega)]
      omega
    · exact Nat.lt_trans (by omega) (ih (by omega) t mem)

theorem next_le_of_mem_startsAfter {c : Char} {rest : List Char}
    (short : base + utf8Len (c :: rest) < UInt32.size) :
    ∀ t ∈ startsAfter base (c :: rest), base + c.utf8Size ≤ t := by
  rw [String.utf8Len_cons] at short
  intro t mem
  rcases mem_startsAfter_cons.mp mem with ⟨_, rfl⟩ | mem
  · rw [capped_eq (by omega)]
  · exact Nat.le_of_lt (lt_of_mem_startsAfter (by omega) t mem)

/-- Lines begin one behind the other. -/
theorem ascending_startsAfter (short : base + utf8Len cs < UInt32.size) :
    (startsAfter base cs).Pairwise (· ≤ ·) := by
  induction cs generalizing base with
  | nil => exact List.Pairwise.nil
  | cons c rest ih =>
    rw [String.utf8Len_cons] at short
    have rests : (startsAfter (base + c.utf8Size) rest).Pairwise (· ≤ ·) := ih (by omega)
    simp only [startsAfter]
    split
    · refine List.pairwise_cons.mpr ⟨fun t mem => ?_, rests⟩
      rw [capped_eq (by omega)]
      exact Nat.le_of_lt (lt_of_mem_startsAfter (by omega) t mem)
    · exact rests

/-- As many lines start behind an offset as line feeds end there or before. -/
theorem countP_startsAfter (short : base + utf8Len cs < UInt32.size) (offset : Nat) :
    (startsAfter base cs).countP (· ≤ base + offset) = (charsUpTo offset cs).count '\n' := by
  induction cs generalizing base offset with
  | nil => rfl
  | cons c rest ih =>
    by_cases whole : c.utf8Size ≤ offset
    · rw [String.utf8Len_cons] at short
      have there : base + c.utf8Size + (offset - c.utf8Size) = base + offset := by omega
      have short' : base + c.utf8Size + utf8Len rest < UInt32.size := by omega
      have rests := ih short' (offset - c.utf8Size)
      rw [there] at rests
      rw [charsUpTo, if_pos whole]
      by_cases feed : c = '\n'
      · have started : capped (base + c.utf8Size) ≤ base + offset := by
          rw [capped_eq (by omega)]
          omega
        rw [startsAfter, if_pos feed, List.countP_cons, if_pos (decide_eq_true started), rests,
          feed, List.count_cons_self]
      · rw [startsAfter, if_neg feed, rests, List.count_cons_of_ne feed]
    · rw [charsUpTo, if_neg whole, List.count_nil, List.countP_eq_zero]
      intro t mem
      have behind := next_le_of_mem_startsAfter short t mem
      simp only [decide_eq_true_eq]
      omega

/-- The last line of some characters starts where the last of their line feeds ends. -/
theorem getLastD_startsAfter (front : List Char) (short : utf8Len front < UInt32.size) :
    (startsAfter 0 front).getLastD 0 + utf8Len (lastLine front) = utf8Len front := by
  induction front using List.reverseRecOn with
  | nil => rfl
  | append_singleton front c ih =>
    rw [String.utf8Len_append] at short
    rw [startsAfter_append, lastLine_concat, String.utf8Len_append, Nat.zero_add]
    by_cases feed : c = '\n'
    · have size : utf8Len [c] = c.utf8Size := Nat.zero_add _
      simp only [startsAfter, if_pos feed, List.getLastD_concat, String.utf8Len_nil]
      rw [capped_eq (by omega), Nat.add_zero, size]
    · have rests := ih (by omega)
      simp only [startsAfter, if_neg feed, List.append_nil, String.utf8Len_append]
      omega

end Starts

section Search

variable {starts : List Nat} {target : Nat}

/-- Of ascending numbers, those that are at most some number come first. -/
theorem le_iff_lt_countP (ascending : starts.Pairwise (· ≤ ·)) {i : Nat}
    (inside : i < starts.length) : starts[i] ≤ target ↔ i < starts.countP (· ≤ target) := by
  induction starts generalizing i with
  | nil => exact absurd inside (Nat.not_lt_zero _)
  | cons first rest ih =>
    obtain ⟨least, ascends⟩ := List.pairwise_cons.mp ascending
    by_cases small : first ≤ target
    · rw [List.countP_cons, if_pos (decide_eq_true small)]
      cases i with
      | zero => exact iff_of_true small (Nat.succ_pos _)
      | succ i =>
        rw [List.getElem_cons_succ, ih ascends (Nat.lt_of_succ_lt_succ inside),
          Nat.add_lt_add_iff_right]
    · have none : (first :: rest).countP (· ≤ target) = 0 := by
        rw [List.countP_eq_zero]
        intro t mem
        have above : first ≤ t := by
          rcases List.mem_cons.mp mem with rfl | mem
          · exact Nat.le_refl _
          · exact least t mem
        simp only [decide_eq_true_eq]
        omega
      have above : first ≤ (first :: rest)[i] := by
        rcases List.mem_cons.mp (List.getElem_mem inside) with here | mem
        · exact Nat.le_of_eq here.symm
        · exact least _ mem
      rw [none]
      omega

/-- The search counts the line starts that are not behind an offset. -/
theorem countUpTo_eq (ascending : starts.Pairwise (· ≤ ·)) {low high : Nat}
    (from_low : low ≤ starts.countP (· ≤ target)) (to_high : starts.countP (· ≤ target) ≤ high)
    (inside : high ≤ starts.length) :
    countUpTo starts.toArray target low high = starts.countP (· ≤ target) := by
  fun_induction countUpTo starts.toArray target low high with
  | case1 low high open_ middle small ih =>
    have within : middle < starts.length := by omega
    have at_middle : starts[middle] ≤ target := by simpa [within] using small
    exact ih ((le_iff_lt_countP ascending within).mp at_middle) to_high inside
  | case2 low high open_ middle large ih =>
    have within : middle < starts.length := by omega
    have at_middle : ¬ starts[middle] ≤ target := by simpa [within] using large
    rw [le_iff_lt_countP ascending within] at at_middle
    exact ih from_low (by omega) (by omega)
  | case3 low high closed => omega

end Search

end Source

end SurfaceTree
