import SurfaceTree.Proofs.Printing
import SurfaceTree.Proofs.Printing.Texts
import SurfaceTree.Proofs.Traversal.Order

namespace SurfaceTree

namespace Doc

variable {grouped : Bool}

/-- A document that has a line break in a flat group if it has one outside all groups. -/
def Steady (d : Doc) : Prop := ∀ grouped, d.breaks grouped = d.breaks true

theorem breaks_join {sep : Doc} (quiet : sep.breaks grouped = false) (docs : List Doc) :
    (join sep docs).breaks grouped = docs.any (breaks grouped) := by
  cases docs with
  | nil => rfl
  | cons first rest =>
    rw [join, breaks_concat, List.any_cons, List.any_cons, List.any_flatMap]
    simp [quiet]

/-- Brackets bring a group of their own. -/
theorem breaks_bracket {opening sep closing : String}
    (plain : '\n' ∉ (opening ++ sep ++ closing).toList) (items : List Doc) :
    (bracket opening items sep closing).breaks grouped = items.any (breaks true) := by
  simp only [String.toList_append, List.mem_append, not_or] at plain
  obtain ⟨⟨opens, separates⟩, closes⟩ := plain
  cases items with
  | nil => exact breaks_text (notMem_append opens closes) grouped
  | cons first rest =>
    have between : (concat [text sep, line]).breaks true = false := by
      simp [breaks, anyBreaks, separates]
    simp [bracket, indented, breaks, anyBreaks, breaks_join between, opens, closes]

theorem breaks_block (head : Doc) (items : List Doc) :
    (block head items).breaks grouped = (head.breaks grouped || !items.isEmpty) := by
  cases items with
  | nil => simp [block, emptyBraces, breaks, anyBreaks]
  | cons first rest => simp [block, indented, breaks, anyBreaks]

theorem breaks_cases {head : Doc} (steady : head.Steady) (docs : List Doc) :
    (cases head docs).breaks grouped = (head.breaks true || docs.any (breaks true)) := by
  cases docs with
  | nil => simp [cases, emptyBraces, breaks, anyBreaks, steady grouped]
  | cons first rest =>
    have between : (concat [line, text "| "]).breaks true = false := by
      simp [breaks, anyBreaks]
    simp [cases, indented, breaks, anyBreaks, breaks_join between]

theorem breaks_supers (docs : List Doc) :
    (supers docs).breaks grouped = docs.any (breaks grouped) := by
  cases docs with
  | nil => rfl
  | cons first rest =>
    have between : (text ", ").breaks grouped = false := rfl
    simp [supers, breaks, anyBreaks, breaks_join between]

end Doc

/-- The document in a slot. -/
def Leaf.doc : Leaf Doc Doc → Doc
  | .exp d => d
  | .ref d => d

theorem any_congr_mem {α : Type} {xs : List α} {p q : α → Bool} (same : ∀ x ∈ xs, p x = q x) :
    xs.any p = xs.any q := by
  induction xs with
  | nil => rfl
  | cons x rest ih =>
    obtain ⟨first, others⟩ := List.forall_mem_cons.mp same
    rw [List.any_cons, List.any_cons, first, ih others]

section Nodes

variable {look : Lookups} {grouped : Bool}

/-- What holds of each document in a list holds of all of them. -/
theorem any_breaks_map {α : Type} {doc : α → Doc} {leaves : α → List (Leaf Doc Doc)} {xs : List α}
    (steady : ∀ leaf ∈ xs.flatMap leaves, leaf.doc.Steady)
    (each : ∀ x ∈ xs, (∀ leaf ∈ leaves x, leaf.doc.Steady) →
      (doc x).breaks grouped = (leaves x).any fun leaf => leaf.doc.breaks true) :
    (xs.map doc).any (Doc.breaks grouped)
      = (xs.flatMap leaves).any fun leaf => leaf.doc.breaks true := by
  rw [List.any_map, List.any_flatMap]
  refine any_congr_mem fun x member => each x member fun leaf inside => ?_
  exact steady leaf (List.mem_flatMap.mpr ⟨x, member, inside⟩)

theorem Lookups.Plain.breaks_binding (plain : look.Plain) {sep : String}
    (separates : '\n' ∉ sep.toList) (name : Name) (value : Doc) :
    (look.binding sep name value).breaks grouped = value.breaks grouped := by
  simp [binding, Doc.breaks, Doc.anyBreaks, plain.breaks_name, separates]

namespace Pattern

theorem breaks_atomic (p : Pattern Doc Doc) (d : Doc) :
    (p.atomic d).breaks grouped = d.breaks grouped := by
  cases p <;> simp [atomic, Doc.breaks, Doc.anyBreaks]

/-- A pattern has a line break if one of its slots has. -/
theorem breaks_doc (plain : look.Plain) (p : Pattern Doc Doc)
    (steady : ∀ leaf ∈ p.leaves, leaf.doc.Steady) :
    (p.doc look).breaks grouped = p.leaves.any fun leaf => leaf.doc.breaks true := by
  induction p using Pattern.induction generalizing grouped with
  | alternatives pos choices ih =>
    have between : (Doc.concat [.line, .text "| "]).breaks true = false := by
      simp [Doc.breaks, Doc.anyBreaks]
    rw [leaves, leavesOfList_eq] at steady ⊢
    rw [doc, docs_eq, Doc.breaks, Doc.breaks_join between]
    exact any_breaks_map steady fun p member inside => ih p member inside
  | construct pos head argument ih =>
    obtain ⟨atHead, inside⟩ := List.forall_mem_cons.mp steady
    have here : head.breaks grouped = head.breaks true := atHead grouped
    simp [doc, leaves, Leaf.doc, Doc.breaks, Doc.anyBreaks, breaks_atomic, here, ih inside]
  | split pos fields strict ih =>
    rw [leaves_split] at steady ⊢
    have rest : (if strict then [] else [Doc.text ".."]).any (Doc.breaks true) = false := by
      cases strict <;> rfl
    rw [doc, docsOfRow_eq, Doc.breaks_bracket (by decide), List.any_append,
      rest, Bool.or_false]
    refine any_breaks_map steady fun entry member inside => ?_
    rw [plain.breaks_binding (by decide)]
    exact ih entry member inside
  | typed pos pattern type ih =>
    simp only [leaves, List.forall_mem_append, List.forall_mem_singleton] at steady
    have there : type.breaks grouped = type.breaks true := steady.2 grouped
    simp [doc, leaves, Leaf.doc, Doc.breaks, Doc.anyBreaks, breaks_atomic, there, ih steady.1]
  | named pos name pattern ih =>
    simp [doc, leaves, Doc.breaks, Doc.anyBreaks, breaks_atomic, plain.breaks_name, ih steady]
  | bind pos name => exact plain.breaks_name name grouped
  | literal l => exact l.breaks_doc grouped

end Pattern

theorem Entry.breaks_doc (plain : look.Plain) (n : Entry Doc Doc)
    (steady : ∀ leaf ∈ n.leaves, leaf.doc.Steady) :
    (n.doc look).breaks grouped = n.leaves.any fun leaf => leaf.doc.breaks true := by
  have pattern : (n.pattern.doc look).breaks grouped
      = n.leaves.any fun leaf => leaf.doc.breaks true := n.pattern.breaks_doc plain steady
  unfold doc
  split
  · simp [Doc.breaks, Doc.anyBreaks, pattern]
  · exact pattern

theorem Field.breaks_doc (plain : look.Plain) (n : Field Doc Doc)
    (steady : ∀ leaf ∈ n.leaves, leaf.doc.Steady) :
    (n.doc look).breaks grouped = n.leaves.any fun leaf => leaf.doc.breaks true := by
  obtain ⟨pos, entry, default⟩ := n
  simp only [leaves, List.forall_mem_append] at steady
  have inside : (entry.doc look).breaks grouped = _ := entry.breaks_doc plain steady.1
  cases default with
  | none => simp [doc, leaves, leavesOfOption, inside]
  | some default =>
    have there : default.breaks grouped = default.breaks true :=
      steady.2 _ (List.mem_singleton_self _) grouped
    simp [doc, leaves, leavesOfOption, Leaf.doc, Doc.breaks, Doc.anyBreaks, inside, there]

namespace Fields

theorem breaks_docs (plain : look.Plain) {sep : String} (separates : '\n' ∉ sep.toList)
    (n : Fields Doc Doc) (steady : ∀ leaf ∈ n.leaves, leaf.doc.Steady) :
    (n.docs look sep).any (Doc.breaks grouped)
      = n.leaves.any fun leaf => leaf.doc.breaks true := by
  refine any_breaks_map steady fun entry _ inside => ?_
  rw [plain.breaks_binding separates]
  exact entry.2.breaks_doc plain inside

theorem breaks_doc (plain : look.Plain) (n : Fields Doc Doc)
    (steady : ∀ leaf ∈ n.leaves, leaf.doc.Steady) :
    (n.doc look).breaks grouped = n.leaves.any fun leaf => leaf.doc.breaks true := by
  rw [doc, Doc.breaks_bracket (by decide)]
  exact n.breaks_docs plain (by decide) steady

end Fields

theorem Case.breaks_doc (plain : look.Plain) (n : Case Doc Doc)
    (steady : ∀ leaf ∈ n.leaves, leaf.doc.Steady) :
    (n.doc look).breaks grouped = n.leaves.any fun leaf => leaf.doc.breaks true := by
  simp only [leaves, List.forall_mem_append] at steady
  simp [doc, leaves, Leaf.doc, Doc.indented, Doc.breaks, Doc.anyBreaks,
    n.pattern.breaks_doc plain steady.1]

theorem Definition.breaks_doc (plain : look.Plain) (n : Definition Doc Doc)
    (steady : ∀ leaf ∈ n.leaves, leaf.doc.Steady) :
    (n.doc look).breaks grouped = n.leaves.any fun leaf => leaf.doc.breaks true := by
  obtain ⟨pos, pattern, init⟩ := n
  simp only [leaves, List.forall_mem_append] at steady
  have inside (grouped : Bool) : (pattern.doc look).breaks grouped = _ :=
    pattern.breaks_doc plain steady.1
  cases init with
  | none => simp [doc, leaves, leavesOfOption, Doc.breaks, Doc.anyBreaks, inside]
  | some init =>
    simp [doc, leaves, leavesOfOption, Leaf.doc, Doc.indented, Doc.breaks, Doc.anyBreaks, inside]

theorem Import.breaks_doc (n : Import Doc) (steady : n.target.Steady) :
    n.doc.breaks grouped = n.target.breaks true := by
  have word := Keyword.breaks_doc (by decide) n.visibility grouped
  simp [doc, Doc.breaks, Doc.anyBreaks, word, steady grouped]

theorem Proof.breaks_doc (n : Proof Doc Doc) :
    n.doc.breaks grouped = (n.fact.breaks true || n.body.breaks true) := by
  simp [doc, Doc.indented, Doc.breaks, Doc.anyBreaks]

theorem Precedence.breaks_doc (n : Precedence Doc) (steady : n.operator.Steady) :
    n.doc.breaks grouped = n.operator.breaks true := by
  have word := Keyword.breaks_doc (by decide) n.relation grouped
  simp [doc, Doc.breaks, Doc.anyBreaks, word, steady grouped]

theorem Item.breaks_doc (plain : look.Plain) (n : Item Doc Doc)
    (steady : ∀ leaf ∈ n.leaves, leaf.doc.Steady) :
    (n.doc look).breaks grouped = n.leaves.any fun leaf => leaf.doc.breaks true := by
  cases n with
  | statement e =>
    have here : e.breaks grouped = e.breaks true := steady _ (List.mem_singleton_self _) grouped
    simp [doc, leaves, Leaf.doc, here]
  | declaration d => exact d.breaks_doc plain steady

/-- Whether a scope has anything in it. -/
def Scope.isFilled {E R : Type} (n : Scope E R) : Bool :=
  !(n.imports.isEmpty && n.operators.toList.isEmpty && n.builders.toList.isEmpty
    && n.allDefinitions.isEmpty && n.truths.toList.isEmpty && n.proofs.isEmpty)

theorem Scope.leaves_eq_nil {E R : Type} {n : Scope E R} (empty : n.isFilled = false) :
    n.leaves = [] := by
  simp only [isFilled, Bool.not_eq_false', Bool.and_eq_true, List.isEmpty_iff] at empty
  obtain ⟨⟨⟨⟨⟨imports, operators⟩, builders⟩, definitions⟩, truths⟩, proofs⟩ := empty
  have buckets : ∀ ds ∈ n.definitions.values, ds = [] := by
    simpa [allDefinitions, VisibilityTable.toList, VisibilityTable.values] using definitions
  have none : n.definitions.values.flatMap (fun ds => ds.flatMap Definition.leaves) = [] := by
    refine List.flatMap_eq_nil_iff.mpr fun ds member => ?_
    rw [buckets ds member, List.flatMap_nil]
  simp [leaves, imports, operators, builders, none, truths, proofs]

theorem Scope.isFilled_or_any {E R : Type} (n : Scope E R) (p : Leaf E R → Bool) :
    (n.isFilled || n.leaves.any p) = n.isFilled := by
  cases filled : n.isFilled with
  | true => rfl
  | false => rw [leaves_eq_nil filled, List.any_nil, Bool.or_false]

/-- Each thing in a scope begins a line, whatever it is. -/
theorem Scope.breaks_doc (n : Scope Doc Doc) : (n.doc look).breaks grouped = n.isFilled := by
  have number : '\n' ∉ ("scope#" ++ toString n.id.number).toList :=
    notMem_append (by decide) (Digits.notMem_toString _)
  have shown : (n.itemDocs look).isEmpty = !n.isFilled := by
    rw [Bool.eq_iff_iff]
    simp [itemDocs, isFilled, and_assoc]
  rw [doc, Doc.breaks_block, Doc.breaks_text number, shown, Bool.not_not, Bool.false_or]

theorem Component.breaks_doc (plain : look.Plain) (n : Component Doc Doc) :
    (n.doc look).breaks grouped = n.scope.isFilled := by
  obtain ⟨expected, scope⟩ := n
  cases expected with
  | none => simp [doc, Doc.breaks, Doc.anyBreaks, scope.breaks_doc]
  | some name => simp [doc, Doc.breaks, Doc.anyBreaks, plain.breaks_name, scope.breaks_doc]

/-- The scopes that a form itself has. Those of its subexpressions are not among them. -/
def Form.scopes {E R : Type} : Form E R → List (Scope E R)
  | .anonymous _ _ _ _ body => [body]
  | _ => []

/-- A form has a line break if its scope has anything in it or one of its slots has a line break. -/
theorem Form.breaks_doc (plain : look.Plain) (n : Form Doc Doc)
    (steady : ∀ leaf ∈ n.leaves, leaf.doc.Steady) :
    (n.doc look).breaks grouped =
      (n.scopes.any Scope.isFilled || n.leaves.any fun leaf => leaf.doc.breaks true) := by
  cases n with
  | block pos items =>
    rw [doc, Doc.breaks_bracket (by decide)]
    exact any_breaks_map steady fun item _ inside => item.breaks_doc plain inside
  | abstraction pos binder cases =>
    have word := Keyword.breaks_doc (by decide) binder
    have head : (Keyword.doc binder).Steady := fun grouped => (word grouped).trans (word true).symm
    rw [doc, Doc.breaks_cases head, word, Bool.false_or]
    exact any_breaks_map steady fun case _ inside => case.breaks_doc plain inside
  | matching pos scrutinee cases =>
    obtain ⟨first, others⟩ := List.forall_mem_cons.mp steady
    have here (grouped : Bool) : (Doc.concat [.text "match ", scrutinee]).breaks grouped
        = scrutinee.breaks true := by
      have same : scrutinee.breaks grouped = scrutinee.breaks true := first grouped
      simp [Doc.breaks, Doc.anyBreaks, same]
    have head : (Doc.concat [.text "match ", scrutinee]).Steady := fun grouped =>
      (here grouped).trans (here true).symm
    rw [doc, Doc.breaks_cases head, here, leaves, List.any_cons,
      any_breaks_map others fun case _ inside => case.breaks_doc plain inside]
    rfl
  | ascription pos value type =>
    simp [doc, scopes, leaves, Leaf.doc, Doc.indented, Doc.breaks, Doc.anyBreaks]
  | chain pos items =>
    rw [doc, Doc.breaks_bracket (by decide), leaves, List.any_map]
    rfl
  | record pos fields =>
    rw [doc, Doc.breaks_bracket (by decide), leaves, List.any_map,
      List.any_map]
    exact any_congr_mem fun entry _ => plain.breaks_binding (by decide) ..
  | recordType pos fields =>
    rw [doc, Doc.breaks_bracket (by decide)]
    exact fields.breaks_docs plain (by decide) steady
  | tuple pos items =>
    rw [doc, Doc.breaks_bracket (by decide), leaves, List.any_map]
    rfl
  | projection pos value path =>
    have here : value.breaks grouped = value.breaks true :=
      steady _ (List.mem_singleton_self _) grouped
    have dots : (path.flatMap fun field => [.text ".", look.name field]).any (Doc.breaks grouped)
        = false := by
      simp [List.any_flatMap, Doc.breaks, plain.breaks_name]
    rw [doc, Doc.breaks_concat, List.any_cons, dots, here]
    simp [scopes, leaves, Leaf.doc]
  | reference pos target =>
    have here : target.breaks grouped = target.breaks true :=
      steady _ (List.mem_singleton_self _) grouped
    simp [doc, scopes, leaves, Leaf.doc, here]
  | application pos function argument =>
    simp [doc, scopes, leaves, Leaf.doc, Doc.indented, Doc.breaks, Doc.anyBreaks]
  | refinement pos value proposition =>
    simp [doc, scopes, leaves, Leaf.doc, Doc.indented, Doc.breaks, Doc.anyBreaks]
  | anonymous pos kind supers params body =>
    simp only [leaves, List.forall_mem_append] at steady
    have word := Keyword.breaks_doc (by decide) kind grouped
    have above : supers.any (Doc.breaks grouped) = supers.any (Doc.breaks true) :=
      any_congr_mem fun d member => steady.1.1 _ (List.mem_map_of_mem member) grouped
    have given : (params.doc look).breaks grouped = _ := params.breaks_doc plain steady.1.2
    have parts : (supers.map (Leaf.exp (R := Doc))).any (fun leaf => leaf.doc.breaks true)
        = supers.any (Doc.breaks true) := List.any_map
    simp only [doc, Doc.breaks_concat, List.any_cons, List.any_nil, word, given,
      Doc.breaks_supers, above, body.breaks_doc, scopes, leaves, List.any_append, parts]
    cases filled : body.isFilled with
    | true => simp
    | false => simp [Doc.breaks, Scope.leaves_eq_nil filled, Bool.or_comm]
  | literal l => exact l.breaks_doc grouped

end Nodes

end SurfaceTree
