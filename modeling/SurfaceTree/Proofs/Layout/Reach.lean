import SurfaceTree.Proofs.Layout.Basic

namespace SurfaceTree

namespace Layout

/-- How a group is laid out that begins in a state. -/
def groupMode (config : LayoutConfig) (s : State) (doc : Doc) : Mode :=
  if Doc.addWidth s.column doc.flatWidth ≤ config.maxWidth then .flat else .broken

/-- A part of a document that is about to be laid out. -/
structure Task where
  doc : Doc
  indent : Nat
  mode : Mode
  start : State

def Task.run (config : LayoutConfig) (t : Task) : Except LayoutOverflow State :=
  layout config t.doc t.indent t.mode t.start

/-- A part that the layout of another goes on to, with its place in it and how many levels deeper it
is nested. -/
inductive Task.Part (config : LayoutConfig) : Task → (place levels : Nat) → Task → Prop
  | item {before after : List Doc} {doc : Doc} {indent : Nat} {mode : Mode} {s s' : State}
      (begun : layoutAll config before indent mode s = .ok s') :
      Part config ⟨.concat (before ++ doc :: after), indent, mode, s⟩ before.length 0
        ⟨doc, indent, mode, s'⟩
  | nested {levels : Nat} {doc : Doc} {indent : Nat} {mode : Mode} {s : State}
      (counts : indent + levels * config.indentSize ≤ Doc.unbounded) :
      Part config ⟨.nest levels doc, indent, mode, s⟩ 0 levels
        ⟨doc, indent + levels * config.indentSize, mode, s⟩
  | grouped {doc : Doc} {indent : Nat} {mode : Mode} {s : State} :
      Part config ⟨.group doc, indent, mode, s⟩ 0 0 ⟨doc, indent, groupMode config s doc, s⟩

/-- The parts that the layout of a document comes to. Beside each stand the places on the way to it,
the innermost first, and how many levels of nesting are around it. -/
inductive Reached (config : LayoutConfig) (page : Page) (d : Doc) :
    (path : List Nat) → (levels : Nat) → Task → Prop
  | whole : Reached config page d [] 0 ⟨d, 0, .broken, ⟨page, 0⟩⟩
  | part {path : List Nat} {levels place n : Nat} {t u : Task}
      (reached : Reached config page d path levels t) (part : t.Part config place n u) :
      Reached config page d (place :: path) (levels + n) u

end Layout

/-- The parts of a document that are in none of its groups, with the places on the way and the
levels of nesting around them. -/
inductive Doc.Own (d : Doc) : (path : List Nat) → (levels : Nat) → Doc → Prop
  | whole : Own d [] 0 d
  | item {path : List Nat} {levels : Nat} {before after : List Doc} {doc : Doc}
      (own : Own d path levels (.concat (before ++ doc :: after))) :
      Own d (before.length :: path) levels doc
  | nested {path : List Nat} {levels n : Nat} {doc : Doc} (own : Own d path levels (.nest n doc)) :
      Own d (0 :: path) (levels + n) doc

namespace Layout

variable {config : LayoutConfig} {page : Page} {d : Doc}

section Preserves

variable {P : State → Prop}
  (written : ∀ t, t = " " ∨ t ∈ d.texts → ∀ s s', P s → s.write t = .ok s' → P s')
  (begun : ∀ indent s s', P s → s.newline indent = .ok s' → P s')

include written begun

/-- What is kept by each text of a document, by a space and by a new line is kept by its layout. -/
theorem layout_preserves {doc : Doc} (inside : ∀ t ∈ doc.texts, t ∈ d.texts) {indent : Nat}
    {mode : Mode} {s s' : State} (holds : P s) (done : layout config doc indent mode s = .ok s') :
    P s' := by
  induction doc using Doc.induction generalizing indent mode s s' with
  | nil =>
    cases done
    exact holds
  | text t => exact written t (.inr (inside t (by simp [Doc.texts]))) s s' holds done
  | line =>
    cases mode with
    | broken => exact begun indent s s' holds done
    | flat => exact written " " (.inl rfl) s s' holds done
  | softLine =>
    cases mode with
    | broken => exact begun indent s s' holds done
    | flat =>
      cases done
      exact holds
  | hardLine => exact begun indent s s' holds done
  | concat docs ih =>
    rw [layout] at done
    rw [Doc.texts] at inside
    induction docs generalizing s with
    | nil =>
      cases done
      exact holds
    | cons doc rest later =>
      obtain ⟨first, others⟩ := List.forall_mem_cons.mp ih
      obtain ⟨ofFirst, ofOthers⟩ := List.forall_mem_append.mp inside
      obtain ⟨between, here, there⟩ := layoutAll_cons.mp done
      exact later others ofOthers (first ofFirst holds here) there
  | nest levels doc ih => exact ih inside holds (layout_nest.mp done).2.2
  | group doc ih => exact ih inside holds done

theorem layoutAll_preserves {docs : List Doc} (inside : ∀ t ∈ Doc.textsOfAll docs, t ∈ d.texts)
    {indent : Nat} {mode : Mode} {s s' : State} (holds : P s)
    (done : layoutAll config docs indent mode s = .ok s') : P s' := by
  have whole : ∀ t ∈ (Doc.concat docs).texts, t ∈ d.texts := inside
  exact layout_preserves written begun whole holds done

end Preserves

theorem Task.Part.unique {t u u' : Task} {place n n' : Nat} (part : t.Part config place n u)
    (part' : t.Part config place n' u') : n' = n ∧ u' = u := by
  cases part with
  | @item before after doc indent mode s s' here =>
    generalize same : (⟨.concat (before ++ doc :: after), indent, mode, s⟩ : Task) = t,
      length : before.length = place at part'
    cases part' with
    | item here' =>
      obtain ⟨docs, rfl, rfl, rfl⟩ := Task.mk.inj same
      obtain ⟨rfl, rest⟩ := List.append_inj (Doc.concat.inj docs) length
      obtain ⟨rfl, -⟩ := List.cons.inj rest
      cases here'.symm.trans here
      exact ⟨rfl, rfl⟩
    | nested => cases (Task.mk.inj same).1
    | grouped => cases (Task.mk.inj same).1
  | nested =>
    cases part'
    exact ⟨rfl, rfl⟩
  | grouped =>
    cases part'
    exact ⟨rfl, rfl⟩

namespace Reached

variable {path : List Nat} {levels : Nat} {t : Task}

theorem indent_eq (reached : Reached config page d path levels t) :
    t.indent = levels * config.indentSize := by
  induction reached with
  | whole => exact (Nat.zero_mul _).symm
  | part _ part ih =>
    cases part with
    | item => exact ih
    | nested => rw [Nat.add_mul, ← ih]
    | grouped => exact ih

theorem texts_subset (reached : Reached config page d path levels t) :
    ∀ s ∈ t.doc.texts, s ∈ d.texts := by
  induction reached with
  | whole => exact fun _ member => member
  | part _ part ih =>
    cases part with
    | item =>
      rw [Doc.texts, Doc.textsOfAll_append, Doc.textsOfAll, List.forall_mem_append,
        List.forall_mem_append] at ih
      exact ih.2.1
    | nested => exact ih
    | grouped => exact ih

/-- What each step keeps is true wherever a layout comes to. -/
theorem preserves {P : State → Prop}
    (written : ∀ t, t = " " ∨ t ∈ d.texts → ∀ s s', P s → s.write t = .ok s' → P s')
    (begun : ∀ indent s s', P s → s.newline indent = .ok s' → P s') (holds : P ⟨page, 0⟩)
    (reached : Reached config page d path levels t) : P t.start := by
  induction reached with
  | whole => exact holds
  | part reached part ih =>
    cases part with
    | item here =>
      have inside := reached.texts_subset
      rw [Doc.texts, Doc.textsOfAll_append, List.forall_mem_append] at inside
      exact layoutAll_preserves written begun inside.1 ih here
    | nested => exact ih
    | grouped => exact ih

/-- A layout comes to each place once. -/
theorem unique {levels' : Nat} {t' : Task} (reached : Reached config page d path levels t)
    (again : Reached config page d path levels' t') : levels' = levels ∧ t' = t := by
  induction reached generalizing levels' t' with
  | whole =>
    cases again
    exact ⟨rfl, rfl⟩
  | part _ part ih =>
    cases again with
    | part reached' part' =>
      obtain ⟨rfl, rfl⟩ := ih reached'
      obtain ⟨rfl, rfl⟩ := part.unique part'
      exact ⟨rfl, rfl⟩

section

variable {ended : Page} (done : d.renderOn config page = .ok ended)

include done

theorem exists_run (reached : Reached config page d path levels t) :
    ∃ s', t.run config = .ok s' := by
  induction reached with
  | whole =>
    obtain ⟨s', laidOut, -⟩ := Doc.renderOn_eq_ok.mp done
    exact ⟨s', laidOut⟩
  | part _ part ih =>
    obtain ⟨s', all⟩ := ih
    cases part with
    | item here =>
      obtain ⟨between, here', rest⟩ := layoutAll_append.mp all
      obtain ⟨next, first, -⟩ := layoutAll_cons.mp rest
      cases here'.symm.trans here
      exact ⟨next, first⟩
    | nested => exact ⟨s', (layout_nest.mp all).2.2⟩
    | grouped => exact ⟨s', all⟩

/-- The layout comes to each part that is in no inner group, and in the same mode. -/
theorem own {doc : Doc} {indent : Nat} {mode : Mode} {s : State} {inner : List Nat} {n : Nat}
    {part : Doc} (reached : Reached config page d path levels ⟨doc, indent, mode, s⟩)
    (own : doc.Own inner n part) :
    ∃ between, Reached config page d (inner ++ path) (levels + n)
      ⟨part, indent + n * config.indentSize, mode, between⟩ := by
  induction own with
  | whole =>
    rw [Nat.zero_mul]
    exact ⟨s, reached⟩
  | item _ ih =>
    obtain ⟨between, there⟩ := ih
    obtain ⟨s', all⟩ := there.exists_run done
    obtain ⟨next, here, -⟩ := layoutAll_append.mp all
    exact ⟨next, there.part (.item here)⟩
  | nested _ ih =>
    obtain ⟨between, there⟩ := ih
    obtain ⟨s', all⟩ := there.exists_run done
    rw [Nat.add_mul, ← Nat.add_assoc, ← Nat.add_assoc]
    exact ⟨between, there.part (.nested (layout_nest.mp all).2.1)⟩

end

end Reached

end Layout

end SurfaceTree
