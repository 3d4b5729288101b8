import Mathlib.Data.List.Chain
import Mathlib.Data.List.TakeWhile
import SurfaceTree.Proofs.Layout.Group

namespace SurfaceTree

namespace Page

/-- What is after the last line break. -/
def lastLine (p : Page) : List Char := (p.reversed.takeWhile (· ≠ '\n')).reverse

/-- How many line breaks there are on a page. -/
def lineBreaks (p : Page) : Nat := p.chars.count '\n'

/-- No line break comes after a space. -/
def Tidy (p : Page) : Prop := p.chars.IsChain fun a b => a = ' ' → b ≠ '\n'

theorem tidy_iff {p : Page} : p.Tidy ↔ p.reversed.IsChain fun b a => a = ' ' → b ≠ '\n' := by
  rw [Tidy, chars, List.isChain_reverse]

section OnLine

variable {p p' : Page} {cs : List Char} (written : p'.chars = p.chars ++ cs) (plain : '\n' ∉ cs)

include written

theorem reversed_of_written : p'.reversed = cs.reverse ++ p.reversed := by
  have both : p'.reversed.reverse = p.reversed.reverse ++ cs := written
  rw [← List.reverse_reverse p'.reversed, both, List.reverse_append, List.reverse_reverse]

include plain

theorem lastLine_of_written : p'.lastLine = p.lastLine ++ cs := by
  have inside : ∀ c ∈ cs.reverse, decide (c ≠ '\n') := by
    intro c member
    have other : c ≠ '\n' := ne_of_mem_of_not_mem (List.mem_reverse.mp member) plain
    exact decide_eq_true other
  rw [lastLine, reversed_of_written written, List.takeWhile_append_of_pos inside,
    List.reverse_append, List.reverse_reverse, lastLine]

theorem lineBreaks_of_written : p'.lineBreaks = p.lineBreaks := by
  rw [lineBreaks, written, List.count_append, List.count_eq_zero_of_not_mem plain, lineBreaks,
    Nat.add_zero]

theorem tidy_of_written (tidy : p.Tidy) : p'.Tidy := by
  rw [tidy_iff] at tidy ⊢
  rw [reversed_of_written written]
  have inside : ∀ c ∈ cs.reverse, c ≠ '\n' := fun c member =>
    ne_of_mem_of_not_mem (List.mem_reverse.mp member) plain
  generalize cs.reverse = front at inside
  induction front with
  | nil => exact tidy
  | cons c rest ih =>
    obtain ⟨first, others⟩ := List.forall_mem_cons.mp inside
    exact List.isChain_cons.mpr ⟨fun _ _ _ => first, ih others⟩

end OnLine

theorem chars_indent (p : Page) (spaces : Nat) :
    (p.indent spaces).chars = p.chars ++ List.replicate spaces ' ' := by
  rw [indent, chars, List.reverse_append, List.reverse_replicate, chars]

theorem not_mem_indent (spaces : Nat) : '\n' ∉ List.replicate spaces ' ' := fun member =>
  absurd (List.eq_of_mem_replicate member) (by decide)

/-- A new line is empty. -/
theorem lastLine_newline (p : Page) : p.newline.lastLine = [] := rfl

theorem lineBreaks_newline (p : Page) : p.newline.lineBreaks = p.lineBreaks + 1 := by
  have spaces : (p.reversed.takeWhile (· == ' ')).count '\n' = 0 := by
    refine List.count_eq_zero_of_not_mem fun member => ?_
    cases List.mem_takeWhile_imp member
  have parts : p.reversed.takeWhile (· == ' ') ++ p.reversed.dropWhile (· == ' ') = p.reversed :=
    List.takeWhile_append_dropWhile
  have counts := congrArg (List.count '\n') parts
  rw [List.count_append, spaces, Nat.zero_add] at counts
  rw [lineBreaks, lineBreaks, chars, chars, List.count_reverse, List.count_reverse, newline,
    List.count_cons_self, counts]

/-- Spaces at the end of a line are taken away when the next one begins. -/
theorem tidy_newline {p : Page} (tidy : p.Tidy) : p.newline.Tidy := by
  rw [tidy_iff] at tidy ⊢
  rw [newline, List.isChain_cons]
  refine ⟨fun c first space => ?_, tidy.suffix (List.dropWhile_suffix _)⟩
  have stops := List.head?_dropWhile_not (· == ' ') p.reversed
  rw [Option.mem_def.mp first, space] at stops
  cases stops

end Page

namespace Layout

/-- What is true of the column at each step, on a page that may have something on it before. As long
as no line is begun, the column leaves out what was on the last line before. -/
structure Aligned (page : Page) (s : State) : Prop where
  counted : s.column ≤ Doc.unbounded
  grown : page.lineBreaks ≤ s.page.lineBreaks
  length : s.page.lastLine.length
    = s.column + if s.page.lineBreaks = page.lineBreaks then page.lastLine.length else 0
  tidy : page.Tidy → s.page.Tidy

namespace Aligned

variable {page : Page} {s s' : State}

theorem start (page : Page) : Aligned page ⟨page, 0⟩ := by
  refine ⟨Nat.zero_le _, le_rfl, ?_, id⟩
  rw [if_pos rfl, Nat.zero_add]

theorem write (aligned : Aligned page s) {t : String} (plain : '\n' ∉ t.toList)
    (written : s.write t = .ok s') : Aligned page s' := by
  obtain ⟨room, rfl⟩ := State.write_eq_ok.mp written
  have chars := Page.chars_write s.page t
  have breaks := Page.lineBreaks_of_written chars plain
  refine ⟨room, ?_, ?_, fun tidy => Page.tidy_of_written chars plain (aligned.tidy tidy)⟩
  · rw [breaks]
    exact aligned.grown
  · rw [Page.lastLine_of_written chars plain, breaks, List.length_append, aligned.length,
      String.length_toList, Nat.add_right_comm]

theorem newline (aligned : Aligned page s) {indent : Nat} (begun : s.newline indent = .ok s') :
    Aligned page s' := by
  obtain ⟨short, rfl⟩ := State.newline_eq_ok.mp begun
  have chars := Page.chars_indent s.page.newline indent
  have plain := Page.not_mem_indent indent
  have breaks := Page.lineBreaks_of_written chars plain
  rw [Page.lineBreaks_newline] at breaks
  have grown := aligned.grown
  have later : page.lineBreaks < (s.page.newline.indent indent).lineBreaks := by omega
  have runs : maxRun ≤ Doc.unbounded := by decide
  refine ⟨short.trans runs, later.le, ?_, fun tidy =>
    Page.tidy_of_written chars plain (Page.tidy_newline (aligned.tidy tidy))⟩
  rw [if_neg later.ne', Page.lastLine_of_written chars plain, Page.lastLine_newline,
    List.nil_append, List.length_replicate, Nat.add_zero]

end Aligned

section

variable {config : LayoutConfig} {page : Page} {d : Doc} (plain : ∀ t ∈ d.texts, '\n' ∉ t.toList)

include plain

theorem aligned_write (t : String) (inside : t = " " ∨ t ∈ d.texts) (s s' : State)
    (aligned : Aligned page s) (written : s.write t = .ok s') : Aligned page s' := by
  have noBreak : '\n' ∉ t.toList := by
    rcases inside with rfl | member
    · decide
    · exact plain t member
  exact aligned.write noBreak written

variable {path : List Nat} {levels : Nat} {t : Task} (reached : Reached config page d path levels t)

include reached

/-- The column counts the last line wherever a layout comes to. -/
theorem Reached.aligned : Aligned page t.start :=
  reached.preserves (aligned_write plain) (fun _ _ _ aligned => aligned.newline) (.start page)

end

end Layout

end SurfaceTree
