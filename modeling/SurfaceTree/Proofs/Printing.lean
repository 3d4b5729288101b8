import SurfaceTree.Proofs.Canonical.Bare
import SurfaceTree.Proofs.HashTable

namespace SurfaceTree

variable {look : Lookups}

namespace Pattern

@[simp] theorem docs_eq (ps : List (Pattern Doc Doc)) : docs look ps = ps.map (doc look) := by
  induction ps with
  | nil => rfl
  | cons p rest ih => simp only [docs, ih, List.map_cons]

@[simp] theorem docsOfRow_eq {names : List Name} (row : Row (Pattern Doc Doc) names) :
    docsOfRow look row = row.toList.map fun entry => look.binding " = " entry.1 (entry.2.doc look) := by
  induction row with
  | nil => rfl
  | cons name p rest ih => simp only [docsOfRow, ih, Row.toList, List.map_cons]

theorem atomic_bare (p : Pattern Doc Doc) (d : Doc) : p.bare.atomic d = p.atomic d := by
  cases p <;> rfl

theorem doc_bare (p : Pattern Doc Doc) : p.bare.doc look = p.doc look := by
  induction p using Pattern.induction with
  | alternatives pos choices ih =>
    simp only [bare, bareAll_eq, doc, docs_eq, List.map_map, Function.comp_def]
    rw [List.map_congr_left ih]
  | construct pos head argument ih => simp only [bare, doc, atomic_bare, ih]
  | split pos fields strict ih =>
    have parts : ((fields.map bare).toList.map fun entry =>
          look.binding " = " entry.1 (entry.2.doc look))
        = fields.toList.map fun entry => look.binding " = " entry.1 (entry.2.doc look) := by
      rw [NameMap.toList_map, List.map_map]
      exact List.map_congr_left fun entry member =>
        congrArg (look.binding " = " entry.1) (ih entry member)
    simp only [bare_split, doc, docsOfRow_eq]
    exact congrArg (fun items => Doc.bracket _ (items ++ _) _ _) parts
  | typed pos pattern type ih => simp only [bare, doc, atomic_bare, ih]
  | named pos name pattern ih => simp only [bare, doc, atomic_bare, ih]
  | bind pos name => rfl
  | literal l => rfl

end Pattern

theorem Entry.doc_bare (n : Entry Doc Doc) : n.bare.doc look = n.doc look := by
  simp only [bare, doc, Pattern.doc_bare]

theorem Field.doc_bare (n : Field Doc Doc) : n.bare.doc look = n.doc look := by
  simp only [bare, doc, Entry.doc_bare]

theorem Fields.docs_bare (n : Fields Doc Doc) (sep : String) :
    n.bare.docs look sep = n.docs look sep := by
  simp only [docs, toList, bare, Row.toList_map, List.map_map, Function.comp_def, Field.doc_bare]

theorem Fields.doc_bare (n : Fields Doc Doc) : n.bare.doc look = n.doc look := by
  rw [doc, docs_bare, doc]

theorem Case.doc_bare (n : Case Doc Doc) : n.bare.doc look = n.doc look := by
  simp only [bare, doc, Pattern.doc_bare]

theorem Definition.doc_bare (n : Definition Doc Doc) : n.bare.doc look = n.doc look := by
  simp only [bare, doc, Pattern.doc_bare]

theorem Builder.doc_bare (n : Builder Doc Doc) (name : Name) :
    n.bare.doc look name = n.doc look name := by
  simp only [bare, doc, Fields.doc_bare]

theorem Item.doc_bare (n : Item Doc Doc) : n.bare.doc look = n.doc look := by
  cases n with
  | statement e => rfl
  | declaration d => exact d.doc_bare

theorem Scope.itemDocs_bare (n : Scope Doc Doc) : n.bare.itemDocs look = n.itemDocs look := by
  have definitions : n.bare.allDefinitions = n.allDefinitions.map fun entry =>
      (entry.1, entry.2.bare) := by
    simp [allDefinitions, bare, VisibilityTable.toList, VisibilityTable.map, Function.comp_def]
  simp only [itemDocs, definitions]
  simp only [bare, NameMap.toList_map, List.map_map, Function.comp_def, Builder.doc_bare,
    Definition.doc_bare]
  rfl

theorem Scope.doc_bare (n : Scope Doc Doc) : n.bare.doc look = n.doc look := by
  rw [doc, itemDocs_bare]
  rfl

theorem Component.doc_bare (n : Component Doc Doc) : n.bare.doc look = n.doc look := by
  simp only [bare, doc, Scope.doc_bare]

theorem Form.doc_bare (n : Form Doc Doc) : n.bare.doc look = n.doc look := by
  cases n with
  | block pos items =>
    simp only [bare, doc, List.map_map, Function.comp_def, Item.doc_bare]
  | abstraction pos binder cases =>
    simp only [bare, doc, List.map_map, Function.comp_def, Case.doc_bare]
  | matching pos scrutinee cases =>
    simp only [bare, doc, List.map_map, Function.comp_def, Case.doc_bare]
  | recordType pos fields => simp only [bare, doc, Fields.docs_bare]
  | anonymous pos kind supers params body =>
    simp only [bare, doc, Fields.doc_bare, Scope.doc_bare]
  | _ => rfl

/-- A span prints as the place it describes, so it has to be told apart from all other kinds. -/
theorem Kind.doc?_bare {k : Kind} (other : k ≠ .span) (n : k.Tree Doc Doc) :
    k.doc? look (k.bare n) = k.doc? look n := by
  cases k with
  | span => exact absurd rfl other
  | ref | literal | imported | proof | truth | builder | precedence | operator => rfl
  | entry => exact congrArg some n.doc_bare
  | field => exact congrArg some n.doc_bare
  | fields => exact congrArg some n.doc_bare
  | case => exact congrArg some n.doc_bare
  | definition => exact congrArg some n.doc_bare
  | scope => exact congrArg some n.doc_bare
  | component => exact congrArg some n.doc_bare
  | pattern => exact congrArg some n.doc_bare
  | item => exact congrArg some n.doc_bare
  | expr => exact congrArg some n.doc_bare

/-- What is made of the values of a table, by ascending name. -/
def HashTable.listed {V W : Type} (f : V → W) (t : HashTable V) : List (Name × W) :=
  t.sorted.map fun entry => (entry.1, f entry.2)

theorem HashTable.listed_eq {V W : Type} {f : V → W} {t t' : HashTable V}
    (alike : ∀ name, (t.get? name).map f = (t'.get? name).map f) : t.listed f = t'.listed f := by
  have mapped : (NameMap.ofList t.bindings).map f = (NameMap.ofList t'.bindings).map f :=
    NameMap.ext_get? fun name => by
      rw [NameMap.get?_map, NameMap.get?_map, ← t.holds_ofList.get?_eq, ← t'.holds_ofList.get?_eq,
        alike]
  rw [listed, listed, t.holds_ofList.sorted_eq, t'.holds_ofList.sorted_eq, ← NameMap.toList_map,
    ← NameMap.toList_map, mapped]

variable {R : Type} [Reference R]

namespace Expr

/-- The document of an expression is that of its form with documents in place of its parts. -/
theorem doc_mk (form : Form (Expr R) R) :
    (mk form).doc look = (form.map (doc look) (Reference.doc look)).doc look := by
  rw [doc, fold_mk, Kind.map_eq_rewrite]
  exact congrArg (Form.doc look) (form.map_map ..)

variable [LawfulReference R]

theorem doc_eq_of_key_eq {e e' : Expr R} (same : e.key = e'.key) : e.doc look = e'.doc look := by
  induction e using induction generalizing e' with
  | step form ih =>
    cases e' with
    | mk form' =>
      rw [key_mk, key_mk] at same
      rw [doc_mk, doc_mk, ← Form.doc_bare, ← Form.doc_bare (form'.map ..)]
      refine congrArg (Form.doc look) (Form.bare_eq_of_key_eq (fun leaf member => ?_) same)
      cases leaf with
      | exp e => exact fun e' => ih e member
      | ref r => exact fun r' sameRef => congrArg _ (LawfulReference.key_inj sameRef)

end Expr

namespace Node

variable [LawfulReference R]

theorem doc?_eq_of_key_eq {k : Kind} (other : k ≠ .span) {a b : Node R k}
    (same : key k a = key k b) : doc? look k a = doc? look k b := by
  rw [doc?, doc?, ← Kind.doc?_bare other, ← Kind.doc?_bare other (k.map _ _ b)]
  refine congrArg (k.doc? look) (k.bare_eq_of_key_eq (fun leaf _ => ?_) same)
  cases leaf with
  | exp e => exact fun e' => Expr.doc_eq_of_key_eq
  | ref r => exact fun r' sameRef => congrArg _ (LawfulReference.key_inj sameRef)

/-- Equal nodes print the same, whatever positions they have. So do equal expressions, and tables
that bind equal nodes to the same names in whatever order they have their bindings. -/
theorem text_eq_of_same (p : Phase) :
    (∀ k : Kind, k ≠ .span → ∀ a b : Node p.Ref k, same k a b → ∀ look : Lookups,
      doc? look k a = doc? look k b ∧
        ∀ config, format? look config k a = format? look config k b) ∧
    (∀ a b : Expr p.Ref, Expr.compare a b = .eq → ∀ look : Lookups, a.doc look = b.doc look) ∧
    ∀ k : Kind, k ≠ .span → ∀ t t' : HashTable (Node p.Ref k),
      (∀ name, Option.Rel (fun a b => same k a b) (t.get? name) (t'.get? name)) →
        ∀ look : Lookups, t.listed (doc? look k) = t'.listed (doc? look k) := by
  refine ⟨fun k other a b same look => ?_, fun a b same look => ?_,
    fun k other t t' alike look => HashTable.listed_eq fun name => ?_⟩
  · have docs : doc? look k a = doc? look k b :=
      doc?_eq_of_key_eq other ((same_iff_key_eq k).mp same)
    exact ⟨docs, fun config => congrArg (Option.map (Doc.render config)) docs⟩
  · rw [Expr.compare_eq_key, Key.compare_eq_iff] at same
    exact Expr.doc_eq_of_key_eq same
  · have related := alike name
    generalize t.get? name = v, t'.get? name = v' at related ⊢
    cases related with
    | none => rfl
    | some same => exact congrArg some (doc?_eq_of_key_eq other ((same_iff_key_eq k).mp same))

/-- A split pattern of two parts, bound in either order and at different places, and two tables
that hold the two parts in either order. -/
theorem text_eq_of_same_split :
    let one (start : UInt32) : Pattern (Expr Name) Name := .bind ⟨start, start⟩ ⟨7⟩
    let two (start : UInt32) : Pattern (Expr Name) Name := .literal ⟨⟨start, start⟩, .int 5⟩
    let look : Lookups := ⟨fun name => if name.raw = 7 then "seven" else "other", fun _ => ""⟩
    let a : Node Name .pattern := .split ⟨0, 9⟩ (.ofList [(⟨1⟩, one 2), (⟨2⟩, two 3)]) true
    let b : Node Name .pattern := .split ⟨4, 5⟩ (.ofList [(⟨2⟩, two 8), (⟨1⟩, one 6)]) true
    (∀ config, format? look config .pattern a = format? look config .pattern b) ∧
      (⟨[(⟨1⟩, one 2), (⟨2⟩, two 3)], by simp⟩ : HashTable (Node Name .pattern)).listed
          (doc? look .pattern)
        = (⟨[(⟨2⟩, two 8), (⟨1⟩, one 6)], by simp⟩ : HashTable (Node Name .pattern)).listed
          (doc? look .pattern) := by
  intro one two look a b
  have same : same .pattern a b := by decide
  obtain ⟨nodes, -, tables⟩ := text_eq_of_same .parsed
  refine ⟨(nodes .pattern nofun a b same look).2, tables .pattern nofun _ _ (fun name => ?_) look⟩
  have sameOne : Node.same .pattern (one 2) (one 6) := by decide
  have sameTwo : Node.same .pattern (two 3) (two 8) := by decide
  simp only [HashTable.get?, lookup_cons_eq]
  by_cases isOne : name = ⟨1⟩
  · subst isOne
    exact .some sameOne
  · rw [if_neg isOne, if_neg isOne]
    by_cases isTwo : name = ⟨2⟩
    · rw [if_pos isTwo, if_pos isTwo]
      exact .some sameTwo
    · rw [if_neg isTwo, if_neg isTwo]
      exact .none

end Node

end SurfaceTree
