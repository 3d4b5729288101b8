import Mathlib.Data.List.TakeWhile
import SurfaceTree.Node
import SurfaceTree.Proofs.Layout.Basic

namespace SurfaceTree

/-- The characters of a text that can be seen: all but spaces and line breaks. -/
def ink (text : List Char) : List Char := text.filter fun c => c ≠ ' ' ∧ c ≠ '\n'

@[simp] theorem ink_append (cs ds : List Char) : ink (cs ++ ds) = ink cs ++ ink ds :=
  List.filter_append ..

theorem ink_eq_nil {cs : List Char} (blank : ∀ c ∈ cs, c = ' ' ∨ c = '\n') : ink cs = [] := by
  refine List.filter_eq_nil_iff.mpr fun c member seen => ?_
  simp only [decide_eq_true_eq] at seen
  exact (blank c member).elim seen.1 seen.2

namespace Page

theorem ink_indent (p : Page) (spaces : Nat) : ink (p.indent spaces).chars = ink p.chars := by
  have blank : ink (List.replicate spaces ' ').reverse = [] :=
    ink_eq_nil fun c member => .inl (List.eq_of_mem_replicate (List.mem_reverse.mp member))
  rw [indent, chars, List.reverse_append, ink_append, blank, List.append_nil, chars]

/-- What is cut off at the end of a line is blank. -/
theorem ink_newline (p : Page) : ink p.newline.chars = ink p.chars := by
  let kept := p.reversed.dropWhile (· == ' ')
  let cut := p.reversed.takeWhile (· == ' ')
  have written : p.chars = kept.reverse ++ cut.reverse := by
    rw [← List.reverse_append, List.takeWhile_append_dropWhile, chars]
  have begun : p.newline.chars = kept.reverse ++ ['\n'] := by
    rw [newline, chars, List.reverse_cons]
  have blank : ink cut.reverse = [] := by
    refine ink_eq_nil fun c member => .inl ?_
    have space := List.mem_takeWhile_imp (List.mem_reverse.mp member)
    exact beq_iff_eq.mp space
  rw [begun, written, ink_append, ink_append, blank]
  rfl

end Page

namespace Layout

theorem State.ink_write {s s' : State} {t : String} (written : s.write t = .ok s') :
    ink s'.page.chars = ink s.page.chars ++ ink t.toList := by
  obtain ⟨-, rfl⟩ := State.write_eq_ok.mp written
  rw [Page.chars_write, ink_append]

theorem State.ink_newline {s s' : State} {indent : Nat} (begun : s.newline indent = .ok s') :
    ink s'.page.chars = ink s.page.chars := by
  obtain ⟨-, rfl⟩ := State.newline_eq_ok.mp begun
  rw [Page.ink_indent, Page.ink_newline]

/-- Laying out a document adds what can be seen of its texts, wherever it begins and however its
lines break. -/
theorem ink_layout {config : LayoutConfig} {doc : Doc} {indent : Nat} {mode : Mode} {s s' : State}
    (done : layout config doc indent mode s = .ok s') :
    ink s'.page.chars = ink s.page.chars ++ ink (String.join doc.texts).toList := by
  induction doc using Doc.induction generalizing indent mode s s' with
  | nil =>
    cases done
    exact (List.append_nil _).symm
  | text t =>
    rw [layout] at done
    rw [State.ink_write done, Doc.texts, String.toList_join, List.flatMap_singleton]
  | line =>
    cases mode with
    | broken => rw [State.ink_newline done, Doc.texts]; simp [ink]
    | flat => rw [State.ink_write done, Doc.texts]; simp [ink]
  | softLine =>
    cases mode with
    | broken => rw [State.ink_newline done, Doc.texts]; simp [ink]
    | flat => cases done; simp [ink, Doc.texts]
  | hardLine =>
    rw [layout] at done
    rw [State.ink_newline done, Doc.texts]
    simp [ink]
  | concat docs ih =>
    rw [layout] at done
    rw [Doc.texts]
    induction docs generalizing s with
    | nil =>
      cases done
      exact (List.append_nil _).symm
    | cons doc rest later =>
      obtain ⟨first, others⟩ := List.forall_mem_cons.mp ih
      obtain ⟨between, begun, ended⟩ := layoutAll_cons.mp done
      rw [later others ended, first begun, Doc.textsOfAll, String.join_append, String.toList_append,
        ink_append, List.append_assoc]
  | nest levels doc ih => exact ih (layout_nest.mp done).2.2
  | group doc ih => exact ih done

end Layout

namespace Doc

mutual
/-- How far the innermost lines of a document are indented. -/
def depth (config : LayoutConfig) : Doc → Nat
  | nil | text _ | line | softLine | hardLine => 0
  | concat docs => depthOfAll config docs
  | nest levels doc => levels * config.indentSize + depth config doc
  | group doc => depth config doc

def depthOfAll (config : LayoutConfig) : List Doc → Nat
  | [] => 0
  | doc :: rest => max (depth config doc) (depthOfAll config rest)
end

end Doc

namespace Layout

theorem State.exists_write {s : State} {t : String} (room : s.column + t.length ≤ Doc.unbounded) :
    ∃ s', s.write t = .ok s' ∧ s'.column = s.column + t.length :=
  ⟨_, State.write_eq_ok.mpr ⟨room, rfl⟩, rfl⟩

theorem State.exists_newline {s : State} {indent : Nat} (short : indent ≤ maxRun) :
    ∃ s', s.newline indent = .ok s' ∧ s'.column = indent :=
  ⟨_, State.newline_eq_ok.mpr ⟨short, rfl⟩, rfl⟩

/-- A column is reached either on the line that a document begins on or from the indentation of a
line inside it. -/
theorem exists_layout {config : LayoutConfig} {doc : Doc} {indent margin : Nat} {mode : Mode}
    {s : State} (deep : indent + doc.depth config ≤ margin) (short : margin ≤ maxRun)
    (room : max s.column margin + doc.extent ≤ Doc.unbounded) :
    ∃ s', layout config doc indent mode s = .ok s' ∧
      max s'.column margin ≤ max s.column margin + doc.extent := by
  have within : indent ≤ margin := by omega
  induction doc using Doc.induction generalizing indent mode s with
  | nil => exact ⟨s, rfl, Nat.le_refl _⟩
  | text t =>
    simp only [Doc.extent] at room ⊢
    obtain ⟨s', written, column⟩ := State.exists_write (s := s) (t := t) (by omega)
    exact ⟨s', written, by omega⟩
  | line =>
    simp only [Doc.extent] at room ⊢
    cases mode with
    | broken =>
      obtain ⟨s', begun, column⟩ := State.exists_newline (s := s) (within.trans short)
      exact ⟨s', begun, by omega⟩
    | flat =>
      have one : " ".length = 1 := rfl
      obtain ⟨s', written, column⟩ := State.exists_write (s := s) (t := " ") (by omega)
      exact ⟨s', written, by omega⟩
  | softLine =>
    cases mode with
    | broken =>
      obtain ⟨s', begun, column⟩ := State.exists_newline (s := s) (within.trans short)
      exact ⟨s', begun, by omega⟩
    | flat => exact ⟨s, rfl, by omega⟩
  | hardLine =>
    obtain ⟨s', begun, column⟩ := State.exists_newline (s := s) (within.trans short)
    exact ⟨s', begun, by omega⟩
  | concat docs ih =>
    simp only [Doc.depth, Doc.extent, layout] at deep room ⊢
    induction docs generalizing s with
    | nil => exact ⟨s, rfl, by omega⟩
    | cons doc rest later =>
      obtain ⟨first, others⟩ := List.forall_mem_cons.mp ih
      simp only [Doc.depthOfAll, Doc.extentOfAll] at deep room ⊢
      have starts : ∃ between, layout config doc indent mode s = .ok between ∧
          max between.column margin ≤ max s.column margin + doc.extent :=
        first (by omega) (by omega) within
      obtain ⟨between, begun, column⟩ := starts
      obtain ⟨s', ended, column'⟩ := later others (s := between) (by omega) (by omega)
      exact ⟨s', layoutAll_cons.mpr ⟨between, begun, ended⟩, by omega⟩
  | nest levels doc ih =>
    simp only [Doc.depth, Doc.extent] at deep room ⊢
    have inside : ∃ s', layout config doc (indent + levels * config.indentSize) mode s = .ok s' ∧
        max s'.column margin ≤ max s.column margin + doc.extent :=
      ih (by omega) (by omega) (by omega)
    obtain ⟨s', done, column⟩ := inside
    exact ⟨s', layout_nest.mpr ⟨by omega, by omega, done⟩, column⟩
  | group doc ih =>
    exact ih deep room within

end Layout

namespace Doc

theorem ink_of_render {d : Doc} {config : LayoutConfig} {s : String}
    (done : d.render config = .ok s) : ink s.toList = ink (String.join d.texts).toList := by
  obtain ⟨page, rendered, same⟩ := bind_eq_ok.mp done
  obtain ⟨ended, laidOut, rfl⟩ := renderOn_eq_ok.mp rendered
  cases same
  have shown := Layout.ink_layout laidOut
  rw [Page.text, String.toList_ofList, shown]
  rfl

theorem exists_render {d : Doc} {config : LayoutConfig}
    (small : d.depth config + d.extent ≤ Layout.maxRun) : ∃ s, d.render config = .ok s := by
  have runs : Layout.maxRun ≤ unbounded := by decide
  have fits : max 0 (d.depth config) + d.extent ≤ unbounded := by omega
  have ends : ∃ s', Layout.layout config d 0 .broken ⟨.blank, 0⟩ = .ok s' ∧
      max s'.column (d.depth config) ≤ max 0 (d.depth config) + d.extent :=
    Layout.exists_layout (by omega) (by omega) fits
  obtain ⟨ended, laidOut, -⟩ := ends
  exact ⟨ended.page.text, by rw [render, renderOn, laidOut]; rfl⟩

/-- What can be seen of a document that is laid out are its texts, one after the other, so it is the
same in all configurations: width and indentation only move spaces and line breaks. A document is
laid out unless it is too large for its columns to be counted. -/
theorem ink_render :
    (∀ (d : Doc) (config : LayoutConfig) (s : String), d.render config = .ok s →
      ink s.toList = ink (String.join d.texts).toList) ∧
    (∀ (d : Doc) (config config' : LayoutConfig) (s s' : String), d.render config = .ok s →
      d.render config' = .ok s' → ink s.toList = ink s'.toList) ∧
    (∀ (d : Doc) (config : LayoutConfig), d.depth config + d.extent ≤ Layout.maxRun →
      ∃ s, d.render config = .ok s) ∧
    ∀ (p : Phase) (k : Kind) (n : Node p.Ref k) (look : Lookups) (config config' : LayoutConfig)
      (s s' : String), Node.format? look config k n = some (.ok s) →
      Node.format? look config' k n = some (.ok s') → ink s.toList = ink s'.toList := by
  have alike (d : Doc) (config config' : LayoutConfig) (s s' : String)
      (done : d.render config = .ok s) (done' : d.render config' = .ok s') :
      ink s.toList = ink s'.toList := by rw [ink_of_render done, ink_of_render done']
  refine ⟨fun d config s => ink_of_render, alike, fun d config => exists_render,
    fun p k n look config config' s s' shown shown' => ?_⟩
  obtain ⟨d, printed, done⟩ := Option.map_eq_some_iff.mp shown
  obtain ⟨d', printed', done'⟩ := Option.map_eq_some_iff.mp shown'
  cases Option.some.inj (printed.symm.trans printed')
  exact alike d config config' s s' done done'

/-- A call that is broken at a width of eight characters and flat at a hundred, and its document. -/
theorem ink_render_broken :
    let symbol (name : UInt32) : Expr Name := .mk (.reference .dummy ⟨name⟩)
    let call : Node Name .expr := .application .dummy (symbol 1) (symbol 2)
    let look : Lookups := ⟨fun name => if name = ⟨1⟩ then "double" else "seven", fun _ => ""⟩
    let d : Doc := .group (.concat [.text "double", .text " with",
      .indented (.concat [.line, .text "seven"])])
    Node.format? look ⟨8, 4⟩ .expr call = some (.ok "double with\n    seven") ∧
    Node.format? look ⟨100, 4⟩ .expr call = some (.ok "double with seven") ∧
    ink "double with\n    seven".toList = ink "double with seven".toList ∧
    ink "double with\n    seven".toList = ink (String.join d.texts).toList ∧
    ∃ s, d.render ⟨30, 2⟩ = .ok s := by
  intro symbol call look d
  have printed : Node.doc? look .expr call = some d := rfl
  have narrow : d.render ⟨8, 4⟩ = .ok "double with\n    seven" := rfl
  have wide : d.render ⟨100, 4⟩ = .ok "double with seven" := rfl
  have broken : Node.format? look ⟨8, 4⟩ .expr call = some (.ok "double with\n    seven") := by
    rw [Node.format?, printed, Option.map_some, narrow]
  have flat : Node.format? look ⟨100, 4⟩ .expr call = some (.ok "double with seven") := by
    rw [Node.format?, printed, Option.map_some, wide]
  have small : d.depth ⟨30, 2⟩ + d.extent ≤ Layout.maxRun := by decide
  obtain ⟨shown, -, rendered, alike⟩ := ink_render
  exact ⟨broken, flat, alike .parsed .expr call look _ _ _ _ broken flat, shown d _ _ narrow,
    rendered d _ small⟩

end Doc

end SurfaceTree
