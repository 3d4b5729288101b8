import SurfaceTree.Proofs.Layout.Reach

namespace SurfaceTree

namespace Doc

mutual
/-- The text of a document when everything is laid out flat. -/
def flatText : Doc → String
  | nil | softLine | hardLine => ""
  | text s => s
  | line => " "
  | concat docs => flatTextOfAll docs
  | nest _ doc => flatText doc
  | group doc => flatText doc

def flatTextOfAll : List Doc → String
  | [] => ""
  | doc :: rest => flatText doc ++ flatTextOfAll rest
end

theorem unbounded_le_flatWidthFrom {width : Nat} (wide : unbounded ≤ width) (docs : List Doc) :
    unbounded ≤ flatWidthFrom width docs := by
  induction docs generalizing width with
  | nil => exact wide
  | cons doc rest ih =>
    rw [flatWidthFrom]
    refine ih ?_
    unfold addWidth
    omega

/-- A hard line makes a document as wide as can be. -/
theorem unbounded_le_flatWidth {doc : Doc} (hard : doc.hasHardLine) :
    unbounded ≤ doc.flatWidth := by
  induction doc using Doc.induction with
  | nil | text _ | line | softLine => cases hard
  | hardLine => exact Nat.le_refl _
  | concat docs ih =>
    have wide (width : Nat) : unbounded ≤ flatWidthFrom width docs := by
      rw [hasHardLine] at hard
      induction docs generalizing width with
      | nil => cases hard
      | cons doc rest later =>
        obtain ⟨first, others⟩ := List.forall_mem_cons.mp ih
        rw [anyHasHardLine, Bool.or_eq_true] at hard
        rw [flatWidthFrom]
        rcases hard with here | there
        · refine unbounded_le_flatWidthFrom ?_ rest
          have widest := first here
          unfold addWidth
          omega
        · exact later others there _
    exact wide 0
  | nest levels doc ih => exact ih hard
  | group doc ih => exact ih hard

/-- Without hard lines the width is the number of characters, as far as it can be counted. -/
theorem min_flatWidth {doc : Doc} (free : ¬ doc.hasHardLine) :
    min doc.flatWidth unbounded = min doc.extent unbounded := by
  induction doc using Doc.induction with
  | nil | text _ | line | softLine => rfl
  | hardLine => exact absurd rfl free
  | concat docs ih =>
    have sums (width : Nat) : min (flatWidthFrom width docs) unbounded
        = min (width + extentOfAll docs) unbounded := by
      rw [hasHardLine] at free
      induction docs generalizing width with
      | nil => rfl
      | cons doc rest later =>
        obtain ⟨first, others⟩ := List.forall_mem_cons.mp ih
        rw [anyHasHardLine, Bool.or_eq_true, not_or] at free
        have here := first free.1
        rw [flatWidthFrom, extentOfAll, later others free.2]
        unfold addWidth
        omega
    have whole := sums 0
    rwa [Nat.zero_add] at whole
  | nest levels doc ih => exact ih free
  | group doc ih => exact ih free

end Doc

namespace Page

theorem write_append (p : Page) (s t : String) : p.write (s ++ t) = (p.write s).write t := by
  simp [write, List.reverseAux_eq, List.append_assoc]

end Page

namespace Layout

variable {config : LayoutConfig}

section GroupMode

variable {s : State} {doc : Doc}

theorem groupMode_eq_flat_of_unbounded (wide : Doc.unbounded ≤ config.maxWidth) :
    groupMode config s doc = .flat := by
  have narrower : Doc.addWidth s.column doc.flatWidth ≤ config.maxWidth :=
    Nat.le_trans (Nat.min_le_right ..) wide
  exact if_pos narrower

theorem groupMode_eq_broken (narrow : config.maxWidth < Doc.unbounded)
    (wider : doc.hasHardLine ∨ config.maxWidth < s.column + doc.flatWidth) :
    groupMode config s doc = .broken := by
  have tooWide : config.maxWidth < s.column + doc.flatWidth := by
    rcases wider with hard | wider
    · have wide := Doc.unbounded_le_flatWidth hard
      omega
    · exact wider
  have widest : config.maxWidth < Doc.addWidth s.column doc.flatWidth :=
    Nat.lt_min.mpr ⟨tooWide, narrow⟩
  exact if_neg (Nat.not_le.mpr widest)

end GroupMode

/-- A broken line begins a new one at its indentation; a flat one is a space, or nothing. -/
def State.afterLine (s : State) (part : Doc) (indent : Nat) : Mode → State
  | .broken => ⟨s.page.newline.indent indent, indent⟩
  | .flat => ⟨s.page.write part.flatText, s.column + part.flatWidth⟩

theorem run_line {part : Doc} (isLine : part = .line ∨ part = .softLine) {indent : Nat}
    {mode : Mode} {s s' : State} (done : layout config part indent mode s = .ok s') :
    s' = s.afterLine part indent mode := by
  cases mode with
  | broken =>
    rcases isLine with rfl | rfl
    · exact (State.newline_eq_ok.mp done).2
    · exact (State.newline_eq_ok.mp done).2
  | flat =>
    rcases isLine with rfl | rfl
    · exact (State.write_eq_ok.mp done).2
    · cases done
      rfl

namespace Reached

variable {page ended : Page} {d : Doc} {path : List Nat} {levels : Nat} {g : Doc} {indent : Nat}
  {mode : Mode} {s : State}

/-- The layout comes to each line of a group that is in no inner group, in the mode of the group. -/
theorem exists_line (done : d.renderOn config page = .ok ended)
    (reached : Reached config page d path levels ⟨.group g, indent, mode, s⟩) {inner : List Nat}
    {n : Nat} {part : Doc} (own : g.Own inner n part) (isLine : part = .line ∨ part = .softLine) :
    ∃ between, Reached config page d (inner ++ 0 :: path) (levels + n)
        ⟨part, (levels + n) * config.indentSize, groupMode config s g, between⟩ ∧
      layout config part ((levels + n) * config.indentSize) (groupMode config s g) between
        = .ok (between.afterLine part ((levels + n) * config.indentSize)
            (groupMode config s g)) := by
  obtain ⟨between, there⟩ := (reached.part .grouped).own done own
  have depth : indent + n * config.indentSize = (levels + n) * config.indentSize := there.indent_eq
  rw [depth] at there
  obtain ⟨s', ran⟩ := there.exists_run done
  have same := run_line isLine ran
  exact ⟨between, there, same ▸ ran⟩

/-- Within a limited width each line of a group with a hard line begins a new line, if it is in no
inner group. Under the largest width none of them does. -/
theorem hardLine_breaks (done : d.renderOn config page = .ok ended)
    (reached : Reached config page d path levels ⟨.group g, indent, mode, s⟩)
    (hard : g.hasHardLine) {inner : List Nat} {n : Nat} {part : Doc} (own : g.Own inner n part)
    (isLine : part = .line ∨ part = .softLine) :
    let depth := (levels + n) * config.indentSize
    ∃ between,
      (config.maxWidth < Doc.unbounded →
        Reached config page d (inner ++ 0 :: path) (levels + n) ⟨part, depth, .broken, between⟩ ∧
        layout config part depth .broken between
          = .ok ⟨between.page.newline.indent depth, depth⟩) ∧
      (Doc.unbounded ≤ config.maxWidth →
        Reached config page d (inner ++ 0 :: path) (levels + n) ⟨part, depth, .flat, between⟩ ∧
        layout config part depth .flat between
          = .ok ⟨between.page.write part.flatText, between.column + part.flatWidth⟩) := by
  obtain ⟨between, line⟩ := reached.exists_line done own isLine
  refine ⟨between, fun narrow => ?_, fun wide => ?_⟩
  · rwa [groupMode_eq_broken narrow (.inl hard)] at line
  · rwa [groupMode_eq_flat_of_unbounded wide] at line

/-- A line before a hard line, within a hundred characters and under the largest width. -/
theorem hardLine_breaks_widest :
    let g : Doc := .concat [.text "a", .line, .text "b", .hardLine, .text "c"]
    g.hasHardLine ∧ g.Own [1] 0 .line ∧
      (Doc.group g).render ⟨100, 4⟩ = .ok "a\nb\nc" ∧
      (Doc.group g).render ⟨Doc.unbounded, 4⟩ = .ok "a b\nc" ∧
      (∃ between, Reached ⟨100, 4⟩ .blank (.group g) [1, 0] 0 ⟨.line, 0, .broken, between⟩ ∧
        layout ⟨100, 4⟩ .line 0 .broken between = .ok ⟨between.page.newline.indent 0, 0⟩) ∧
      ∃ between, Reached ⟨Doc.unbounded, 4⟩ .blank (.group g) [1, 0] 0 ⟨.line, 0, .flat, between⟩ ∧
        layout ⟨Doc.unbounded, 4⟩ .line 0 .flat between
          = .ok ⟨between.page.write " ", between.column + 1⟩ := by
  intro g
  have hard : g.hasHardLine := by decide
  have all : g.Own [] 0 (.concat ([.text "a"] ++ .line :: [.text "b", .hardLine, .text "c"])) :=
    .whole
  have own : g.Own [1] 0 .line := all.item
  have narrow : (Doc.group g).renderOn ⟨100, 4⟩ .blank = .ok ⟨['c', '\n', 'b', '\n', 'a']⟩ := rfl
  have wide : (Doc.group g).renderOn ⟨Doc.unbounded, 4⟩ .blank
      = .ok ⟨['c', '\n', 'b', ' ', 'a']⟩ := rfl
  obtain ⟨between, broken, -⟩ := Reached.whole.hardLine_breaks narrow hard own (.inl rfl)
  obtain ⟨between', -, flat⟩ := Reached.whole.hardLine_breaks wide hard own (.inl rfl)
  exact ⟨hard, own, rfl, rfl, ⟨between, broken (by decide)⟩, ⟨between', flat (Nat.le_refl _)⟩⟩

/-- A hard line does not break the group around it under every width that can be asked for. -/
theorem not_hardLine_breaks_always :
    ¬ ∀ (config : LayoutConfig) (page ended : Page) (d : Doc), config.maxWidth ≤ Doc.unbounded →
      d.renderOn config page = .ok ended →
      ∀ (path : List Nat) (levels : Nat) (g : Doc) (indent : Nat) (mode : Mode) (s : State),
        Reached config page d path levels ⟨.group g, indent, mode, s⟩ → g.hasHardLine →
        ∀ inner n part, g.Own inner n part → (part = .line ∨ part = .softLine) →
          ∃ levels' depth mode' between,
            Reached config page d (inner ++ 0 :: path) levels' ⟨part, depth, mode', between⟩ ∧
            layout config part depth mode' between
              = .ok ⟨between.page.newline.indent depth, depth⟩ := by
  intro always
  let config : LayoutConfig := ⟨Doc.unbounded, 4⟩
  let g : Doc := .concat [.text "a", .line, .text "b", .hardLine, .text "c"]
  have all : g.Own [] 0 (.concat ([.text "a"] ++ .line :: [.text "b", .hardLine, .text "c"])) :=
    .whole
  have done : (Doc.group g).renderOn config .blank = .ok ⟨['c', '\n', 'b', ' ', 'a']⟩ := rfl
  have first : layoutAll config [.text "a"] 0 .flat ⟨.blank, 0⟩ = .ok ⟨⟨['a']⟩, 1⟩ := rfl
  have outer : Reached config .blank (.group g) [] 0 ⟨.group g, 0, .broken, ⟨.blank, 0⟩⟩ := .whole
  have content := outer.part .grouped
  rw [groupMode_eq_flat_of_unbounded (Nat.le_refl _)] at content
  have line : Reached config .blank (.group g) [1, 0] 0 ⟨.line, 0, .flat, ⟨⟨['a']⟩, 1⟩⟩ :=
    content.part (.item first)
  obtain ⟨levels', depth, mode', between, there, broken⟩ :=
    always config .blank _ _ (Nat.le_refl _) done _ _ g _ _ _ outer rfl _ _ _ all.item (.inl rfl)
  obtain ⟨-, same⟩ := line.unique there
  cases same
  have column : (2 : Nat) = 0 := congrArg State.column (Except.ok.inj broken)
  cases column

end Reached

end Layout

end SurfaceTree
