import SurfaceTree.Layout.Render
import SurfaceTree.Proofs.Except

namespace SurfaceTree

namespace Doc

/-- What holds of a document if it holds of its parts holds of all documents. -/
theorem induction {P : Doc → Prop} (nil : P .nil) (text : ∀ s, P (.text s)) (line : P .line)
    (softLine : P .softLine) (hardLine : P .hardLine)
    (concat : ∀ docs, (∀ doc ∈ docs, P doc) → P (.concat docs))
    (nest : ∀ levels doc, P doc → P (.nest levels doc))
    (group : ∀ doc, P doc → P (.group doc)) (doc : Doc) : P doc :=
  @Doc.rec P (fun docs => ∀ doc ∈ docs, P doc) nil text line softLine hardLine concat nest group
    (by simp) (fun _ _ first others => List.forall_mem_cons.mpr ⟨first, others⟩) doc

mutual
/-- The texts of a document, from left to right. -/
def texts : Doc → List String
  | nil | line | softLine | hardLine => []
  | text s => [s]
  | concat docs => textsOfAll docs
  | nest _ doc => texts doc
  | group doc => texts doc

/-- The texts of some documents, one after the other. -/
def textsOfAll : List Doc → List String
  | [] => []
  | doc :: rest => texts doc ++ textsOfAll rest
end

theorem textsOfAll_append (docs rest : List Doc) :
    textsOfAll (docs ++ rest) = textsOfAll docs ++ textsOfAll rest := by
  induction docs with
  | nil => rfl
  | cons doc docs ih => rw [List.cons_append, textsOfAll, textsOfAll, ih, List.append_assoc]

mutual
/-- How many characters a document comes to without its line breaks. -/
def extent : Doc → Nat
  | nil | softLine | hardLine => 0
  | text s => s.length
  | line => 1
  | concat docs => extentOfAll docs
  | nest _ doc => extent doc
  | group doc => extent doc

def extentOfAll : List Doc → Nat
  | [] => 0
  | doc :: rest => extent doc + extentOfAll rest
end

mutual
/-- Whether a hard line is anywhere in a document. -/
def hasHardLine : Doc → Bool
  | hardLine => true
  | nil | text _ | line | softLine => false
  | concat docs => anyHasHardLine docs
  | nest _ doc => hasHardLine doc
  | group doc => hasHardLine doc

def anyHasHardLine : List Doc → Bool
  | [] => false
  | doc :: rest => hasHardLine doc || anyHasHardLine rest
end

end Doc

theorem Page.chars_write (p : Page) (s : String) : (p.write s).chars = p.chars ++ s.toList := by
  simp [write, chars]

namespace Layout

theorem counted_eq_ok {n m : Nat} : counted n = .ok m ↔ n ≤ Doc.unbounded ∧ m = n := by
  unfold counted
  split
  · next fits => simp [fits, eq_comm]
  · next tooLarge => simp [tooLarge]

variable {config : LayoutConfig} {doc : Doc} {docs rest : List Doc} {levels indent : Nat}
  {mode : Mode} {s s' : State}

/-- A text is written if the column can still be counted behind it. -/
theorem State.write_eq_ok {t : String} : s.write t = .ok s' ↔
    s.column + t.length ≤ Doc.unbounded ∧ s' = ⟨s.page.write t, s.column + t.length⟩ := by
  rw [write, bind_eq_ok]
  constructor
  · rintro ⟨column, counts, ⟨⟩⟩
    obtain ⟨room, rfl⟩ := counted_eq_ok.mp counts
    exact ⟨room, rfl⟩
  · rintro ⟨room, rfl⟩
    exact ⟨_, counted_eq_ok.mpr ⟨room, rfl⟩, rfl⟩

/-- A line is begun if it is not indented too far. -/
theorem State.newline_eq_ok : s.newline indent = .ok s' ↔
    indent ≤ maxRun ∧ s' = ⟨s.page.newline.indent indent, indent⟩ := by
  unfold newline
  split
  · next short => simp [short, eq_comm]
  · next long => simp [long]

/-- Documents are laid out one after the other. -/
theorem layoutAll_cons :
    layoutAll config (doc :: rest) indent mode s = .ok s' ↔
      ∃ between, layout config doc indent mode s = .ok between ∧
        layoutAll config rest indent mode between = .ok s' := by
  rw [layoutAll, bind_eq_ok]

theorem layoutAll_append :
    layoutAll config (docs ++ rest) indent mode s = .ok s' ↔
      ∃ between, layoutAll config docs indent mode s = .ok between ∧
        layoutAll config rest indent mode between = .ok s' := by
  induction docs generalizing s with
  | nil => simp [layoutAll]
  | cons doc docs ih =>
    simp only [List.cons_append, layoutAll_cons, ih]
    constructor
    · rintro ⟨first, begun, between, later, ended⟩
      exact ⟨between, ⟨first, begun, later⟩, ended⟩
    · rintro ⟨between, ⟨first, begun, later⟩, ended⟩
      exact ⟨first, begun, between, later, ended⟩

theorem layout_nest :
    layout config (.nest levels doc) indent mode s = .ok s' ↔
      levels * config.indentSize ≤ Doc.unbounded ∧
      indent + levels * config.indentSize ≤ Doc.unbounded ∧
      layout config doc (indent + levels * config.indentSize) mode s = .ok s' := by
  simp only [layout, bind_eq_ok, counted_eq_ok]
  constructor
  · rintro ⟨_, ⟨stepFits, rfl⟩, _, ⟨fits, rfl⟩, done⟩
    exact ⟨stepFits, fits, done⟩
  · rintro ⟨stepFits, fits, done⟩
    exact ⟨_, ⟨stepFits, rfl⟩, _, ⟨fits, rfl⟩, done⟩

end Layout

theorem Doc.renderOn_eq_ok {config : LayoutConfig} {page ended : Page} {d : Doc} :
    d.renderOn config page = .ok ended ↔
      ∃ s, Layout.layout config d 0 .broken ⟨page, 0⟩ = .ok s ∧ s.page = ended := by
  rw [renderOn, bind_eq_ok]
  simp only [pure_eq_ok, Except.ok.injEq]

end SurfaceTree
