import SurfaceTree.Proofs.Layout.Column
import SurfaceTree.Proofs.Layout.Ink

namespace SurfaceTree

namespace Doc

mutual
/-- Whether a document has a line break although all of its groups are flat. If the document is in a
flat group itself, its lines are flat, too. -/
def breaks (grouped : Bool) : Doc → Bool
  | nil => false
  | text s => s.toList.contains '\n'
  | line | softLine => !grouped
  | hardLine => true
  | concat docs => anyBreaks grouped docs
  | nest _ doc => breaks grouped doc
  | group doc => breaks true doc

def anyBreaks (grouped : Bool) : List Doc → Bool
  | [] => false
  | doc :: rest => breaks grouped doc || anyBreaks grouped rest
end

variable {grouped : Bool} {doc : Doc}

theorem breaks_concat (grouped : Bool) (docs : List Doc) :
    (concat docs).breaks grouped = docs.any (breaks grouped) := by
  rw [breaks]
  induction docs with
  | nil => rfl
  | cons doc rest ih => rw [anyBreaks, ih, List.any_cons]

theorem hasHardLine_concat (docs : List Doc) :
    (concat docs).hasHardLine = docs.any hasHardLine := by
  rw [hasHardLine]
  induction docs with
  | nil => rfl
  | cons doc rest ih => rw [anyHasHardLine, ih, List.any_cons]

theorem flatText_concat (docs : List Doc) :
    (concat docs).flatText.toList = docs.flatMap fun doc => doc.flatText.toList := by
  rw [flatText]
  induction docs with
  | nil => rfl
  | cons doc rest ih => rw [flatTextOfAll, String.toList_append, ih, List.flatMap_cons]

theorem not_hasHardLine_of_not_breaks (quiet : doc.breaks grouped = false) :
    ¬ doc.hasHardLine := by
  induction doc using Doc.induction generalizing grouped with
  | nil | text _ | line | softLine => exact Bool.false_ne_true
  | hardLine => cases quiet
  | concat docs ih =>
    rw [breaks_concat, List.any_eq_false] at quiet
    rw [hasHardLine_concat, List.any_eq_true]
    rintro ⟨doc, member, hard⟩
    exact ih doc member (Bool.eq_false_iff.mpr (quiet doc member)) hard
  | nest levels doc ih => exact ih quiet
  | group doc ih => exact ih quiet

/-- Without a break there is no line break in the flat text. -/
theorem notMem_flatText (quiet : doc.breaks grouped = false) : '\n' ∉ doc.flatText.toList := by
  induction doc using Doc.induction generalizing grouped with
  | nil | line | softLine | hardLine => decide
  | text s =>
    intro feed
    have seen := List.contains_iff_mem.mpr feed
    exact Bool.false_ne_true (quiet.symm.trans seen)
  | concat docs ih =>
    rw [breaks_concat, List.any_eq_false] at quiet
    rw [flatText_concat, List.mem_flatMap]
    rintro ⟨doc, member, feed⟩
    exact ih doc member (Bool.eq_false_iff.mpr (quiet doc member)) feed
  | nest levels doc ih => exact ih quiet
  | group doc ih => exact ih quiet

/-- The flat text of a document is as long as what is in it. -/
theorem length_flatText (doc : Doc) : doc.flatText.length = doc.extent := by
  induction doc using Doc.induction with
  | nil | line | softLine | hardLine => rfl
  | text s => rfl
  | concat docs ih =>
    rw [flatText, extent]
    induction docs with
    | nil => rfl
    | cons doc rest later =>
      obtain ⟨first, others⟩ := List.forall_mem_cons.mp ih
      rw [flatTextOfAll, extentOfAll, String.length_append, first, later others]
  | nest levels doc ih => exact ih
  | group doc ih => exact ih

theorem flatWidthFrom_le (width : Nat) (docs : List Doc) :
    flatWidthFrom width docs ≤ max width unbounded := by
  induction docs generalizing width with
  | nil => exact Nat.le_max_left ..
  | cons doc rest ih =>
    have more := ih (addWidth width doc.flatWidth)
    rw [flatWidthFrom]
    unfold addWidth at more ⊢
    omega

/-- A width that can be counted is the number of characters. -/
theorem flatWidth_eq (free : ¬ doc.hasHardLine) (small : doc.extent ≤ unbounded) :
    doc.flatWidth = doc.extent := by
  induction doc using Doc.induction with
  | nil | text _ | line | softLine => rfl
  | hardLine => exact absurd rfl free
  | concat docs ih =>
    have counted := min_flatWidth free
    have widest := flatWidthFrom_le 0 docs
    rw [flatWidth] at counted ⊢
    omega
  | nest levels doc ih => exact ih free small
  | group doc ih => exact ih free small

end Doc

namespace Layout

variable {config : LayoutConfig} {doc : Doc} {indent : Nat} {mode : Mode} {s s' : State}

theorem stays_iff (indented : indent ≤ Doc.unbounded) (counted : s.column ≤ Doc.unbounded) :
    Except.ok s = (Except.ok s' : Except LayoutOverflow State) ↔
      indent + 0 ≤ Doc.unbounded ∧ s.column + 0 ≤ Doc.unbounded ∧
        s' = ⟨s.page.write "", s.column + 0⟩ := by
  constructor
  · rintro ⟨⟩
    exact ⟨indented, counted, rfl⟩
  · rintro ⟨-, -, rfl⟩
    rfl

theorem writes_iff (indented : indent ≤ Doc.unbounded) (t : String) :
    s.write t = .ok s' ↔ indent + 0 ≤ Doc.unbounded ∧ s.column + t.length ≤ Doc.unbounded ∧
      s' = ⟨s.page.write t, s.column + t.length⟩ := by
  rw [State.write_eq_ok, Nat.add_zero, and_iff_right indented]

/-- A document without line breaks that fits on the rest of the line is written there. Nothing else
can go wrong than that its indentation or a column gets too large to be counted. -/
theorem layout_oneLine (quiet : doc.breaks (mode = .flat) = false)
    (fits : min (s.column + doc.extent) Doc.unbounded ≤ config.maxWidth)
    (indented : indent ≤ Doc.unbounded) (counted : s.column ≤ Doc.unbounded) :
    layout config doc indent mode s = .ok s' ↔
      indent + doc.depth config ≤ Doc.unbounded ∧ s.column + doc.extent ≤ Doc.unbounded ∧
        s' = ⟨s.page.write doc.flatText, s.column + doc.extent⟩ := by
  induction doc using Doc.induction generalizing indent mode s s' with
  | nil => exact stays_iff indented counted
  | text t => exact writes_iff indented t
  | line =>
    cases mode with
    | broken => cases quiet
    | flat => exact writes_iff indented " "
  | softLine =>
    cases mode with
    | broken => cases quiet
    | flat => exact stays_iff indented counted
  | hardLine => cases quiet
  | concat docs ih =>
    rw [layout, Doc.flatText, Doc.depth, Doc.extent]
    rw [Doc.extent] at fits
    rw [Doc.breaks] at quiet
    induction docs generalizing s with
    | nil => exact stays_iff indented counted
    | cons doc rest later =>
      obtain ⟨first, others⟩ := List.forall_mem_cons.mp ih
      rw [Doc.anyBreaks, Bool.or_eq_false_iff] at quiet
      rw [Doc.extentOfAll] at fits
      rw [layoutAll_cons, Doc.depthOfAll, Doc.extentOfAll, Doc.flatTextOfAll, Page.write_append]
      constructor
      · rintro ⟨between, begun, ended⟩
        obtain ⟨deep, room, rfl⟩ := (first quiet.1 (by omega) indented counted).mp begun
        obtain ⟨deep', room', rfl⟩ := (later others quiet.2 (by simp only; omega) room).mp ended
        refine ⟨by omega, by simp only at room'; omega, ?_⟩
        rw [Nat.add_assoc]
      · rintro ⟨deep, room, rfl⟩
        have here : s.column + doc.extent ≤ Doc.unbounded := by omega
        refine ⟨⟨s.page.write doc.flatText, s.column + doc.extent⟩,
          (first quiet.1 (by omega) indented counted).mpr ⟨by omega, here, rfl⟩,
          (later others quiet.2 (by simp only; omega) here).mpr ⟨by omega, ?_, ?_⟩⟩
        · simp only
          omega
        · rw [Nat.add_assoc]
  | nest levels doc ih =>
    rw [layout_nest, Doc.depth, ← Nat.add_assoc]
    constructor
    · rintro ⟨-, stepped, inside⟩
      exact (ih quiet fits stepped counted).mp inside
    · rintro ⟨deep, room⟩
      have stepped : indent + levels * config.indentSize ≤ Doc.unbounded := by omega
      exact ⟨by omega, stepped, (ih quiet fits stepped counted).mpr ⟨deep, room⟩⟩
  | group doc ih =>
    have hidden : doc.breaks (Mode.flat = .flat) = false := quiet
    have narrow : Doc.addWidth s.column doc.flatWidth ≤ config.maxWidth := by
      have widths := Doc.min_flatWidth (Doc.not_hasHardLine_of_not_breaks hidden)
      rw [Doc.extent] at fits
      unfold Doc.addWidth
      omega
    have flat : groupMode config s doc = .flat := if_pos narrow
    have inside : layout config (.group doc) indent mode s
        = layout config doc indent (groupMode config s doc) s := rfl
    rw [inside, flat]
    exact ih hidden fits indented counted

theorem State.feed_write {t : String} (feeds : '\n' ∈ s.page.chars ∨ '\n' ∈ t.toList)
    (done : s.write t = .ok s') : '\n' ∈ s'.page.chars := by
  obtain ⟨-, rfl⟩ := State.write_eq_ok.mp done
  rwa [Page.chars_write, List.mem_append]

theorem State.feed_newline (done : s.newline indent = .ok s') : '\n' ∈ s'.page.chars := by
  obtain ⟨-, rfl⟩ := State.newline_eq_ok.mp done
  have ended : '\n' ∈ s.page.newline.chars := List.mem_reverse.mpr (List.mem_cons_self ..)
  rw [Page.chars_indent]
  exact List.mem_append_left _ ended

/-- A line break that is written stays, and one that is there although all groups are flat is
written. -/
theorem feed_layout (feeds : '\n' ∈ s.page.chars ∨ doc.breaks true = true)
    (done : layout config doc indent mode s = .ok s') : '\n' ∈ s'.page.chars := by
  induction doc using Doc.induction generalizing indent mode s s' with
  | nil =>
    cases done
    exact feeds.resolve_right Bool.false_ne_true
  | text t => exact State.feed_write (feeds.imp_right List.contains_iff_mem.mp) done
  | line =>
    cases mode with
    | broken => exact State.feed_newline done
    | flat => exact State.feed_write (.inl (feeds.resolve_right Bool.false_ne_true)) done
  | softLine =>
    cases mode with
    | broken => exact State.feed_newline done
    | flat =>
      cases done
      exact feeds.resolve_right Bool.false_ne_true
  | hardLine => exact State.feed_newline done
  | concat docs ih =>
    rw [layout] at done
    rw [Doc.breaks] at feeds
    induction docs generalizing s with
    | nil =>
      cases done
      exact feeds.resolve_right Bool.false_ne_true
    | cons doc rest later =>
      obtain ⟨first, others⟩ := List.forall_mem_cons.mp ih
      obtain ⟨between, starts, ends⟩ := layoutAll_cons.mp done
      rw [Doc.anyBreaks, Bool.or_eq_true, ← or_assoc] at feeds
      exact later others (feeds.imp_left fun here => first here starts) ends
  | nest levels doc ih => exact ih feeds (layout_nest.mp done).2.2
  | group doc ih => exact ih feeds done

end Layout

namespace Doc

variable {doc : Doc}

/-- A document that is one and the same line, as long as its width, wherever it is given that width.
It is laid out unless its indentation or its last column is too large to be counted. -/
structure OneLine (d : Doc) (line : String) : Prop where
  plain : '\n' ∉ line.toList
  width : line.length ≤ unbounded → d.flatWidth = line.length
  render : ∀ (config : LayoutConfig) (text : String), d.flatWidth ≤ config.maxWidth →
    (d.render config = .ok text ↔
      d.depth config ≤ unbounded ∧ line.length ≤ unbounded ∧ text = line)

/-- A document that is never on one line, however wide lines may get. It is laid out if its
indentation and its columns are small enough. -/
structure Broken (d : Doc) : Prop where
  feed : ∀ (config : LayoutConfig) (text : String), d.render config = .ok text →
    '\n' ∈ text.toList
  render : ∀ config : LayoutConfig, d.depth config ≤ Layout.maxRun →
    d.depth config + d.extent ≤ unbounded → ∃ text, d.render config = .ok text

theorem render_eq_ok {config : LayoutConfig} {text : String} :
    doc.render config = .ok text ↔
      ∃ s, Layout.layout config doc 0 .broken ⟨.blank, 0⟩ = .ok s ∧ s.page.text = text := by
  rw [Doc.render, bind_eq_ok]
  simp only [renderOn_eq_ok, pure_eq_ok, Except.ok.injEq]
  constructor
  · rintro ⟨page, ⟨s, done, rfl⟩, same⟩
    exact ⟨s, done, same⟩
  · rintro ⟨s, done, same⟩
    exact ⟨_, ⟨s, done, rfl⟩, same⟩

/-- A document without breaks is laid out on one line wherever it fits. -/
theorem oneLine_of_not_breaks (quiet : doc.breaks false = false) : doc.OneLine doc.flatText := by
  have free := not_hasHardLine_of_not_breaks quiet
  refine ⟨notMem_flatText quiet, fun small => ?_, fun config text fits => ?_⟩
  · rw [length_flatText] at small ⊢
    exact flatWidth_eq free small
  have room : min (0 + doc.extent) unbounded ≤ config.maxWidth := by
    have widths := min_flatWidth free
    omega
  have laidOut (s : Layout.State) : Layout.layout config doc 0 .broken ⟨.blank, 0⟩ = .ok s ↔
      0 + doc.depth config ≤ unbounded ∧ 0 + doc.extent ≤ unbounded ∧
        s = ⟨Page.blank.write doc.flatText, 0 + doc.extent⟩ :=
    Layout.layout_oneLine quiet room (Nat.zero_le _) (Nat.zero_le _)
  have written : (Page.blank.write doc.flatText).text = doc.flatText := by
    rw [Page.text, Page.chars_write]
    exact String.ofList_toList
  simp only [render_eq_ok, laidOut, length_flatText, Nat.zero_add]
  constructor
  · rintro ⟨s, ⟨deep, counted, rfl⟩, rfl⟩
    exact ⟨deep, counted, written⟩
  · rintro ⟨deep, counted, rfl⟩
    exact ⟨_, ⟨deep, counted, rfl⟩, written⟩

/-- A document that breaks even inside a group is never laid out on one line. -/
theorem broken_of_breaks (breaking : doc.breaks true = true) : doc.Broken := by
  refine ⟨fun config text done => ?_, fun config short room => ?_⟩
  · obtain ⟨s, laidOut, rfl⟩ := render_eq_ok.mp done
    rw [Page.text, String.toList_ofList]
    exact Layout.feed_layout (.inr breaking) laidOut
  · have fits : max 0 (doc.depth config) + doc.extent ≤ unbounded := by omega
    have ends : ∃ s, Layout.layout config doc 0 .broken ⟨.blank, 0⟩ = .ok s ∧
        max s.column (doc.depth config) ≤ max 0 (doc.depth config) + doc.extent :=
      Layout.exists_layout (by omega) short fits
    obtain ⟨s, laidOut, -⟩ := ends
    exact ⟨_, render_eq_ok.mpr ⟨s, laidOut, rfl⟩⟩

end Doc

end SurfaceTree
