import SurfaceTree.Proofs.Canonical.Mixing
import SurfaceTree.Proofs.Canonical.Node

namespace SurfaceTree

/-- Another value of the same variant, such as another integer. -/
inductive Literal.Edited : Literal → Literal → Prop
  | value (pos : Span) {v w : LiteralValue} (variant : v.tag = w.tag) (different : v ≠ w) :
      Edited ⟨pos, v⟩ ⟨pos, w⟩

/-- One value of a mapping is edited. The keys stay. -/
def NameMap.Edited {V : Type} (value : V → V → Prop) (m m' : NameMap V) : Prop :=
  ChangedOnce (fun entry entry' => entry.1 = entry'.1 ∧ value entry.2 entry'.2) m.toList m'.toList

/-- One value of a table is edited. -/
def VisibilityTable.Edited {α : Type} (value : α → α → Prop) (t t' : VisibilityTable α) : Prop :=
  ChangedOnce value t.values t'.values

section

variable {E R : Type} (exp : E → E → Prop) (ref : R → R → Prop)

/-- One edit in a pattern, with edits `exp` of what is in a slot for an expression and `ref` of what
is in a slot for a reference. -/
inductive Pattern.Edited : Pattern E R → Pattern E R → Prop
  | choice (pos : Span) (before after : List (Pattern E R)) {p q : Pattern E R}
      (edit : Edited p q) :
      Edited (.alternatives pos (before ++ p :: after)) (.alternatives pos (before ++ q :: after))
  | head (pos : Span) {r s : R} (argument : Pattern E R) (edit : ref r s) :
      Edited (.construct pos r argument) (.construct pos s argument)
  | argument (pos : Span) (head : R) {p q : Pattern E R} (edit : Edited p q) :
      Edited (.construct pos head p) (.construct pos head q)
  | field (pos : Span) (strict : Bool) {fields fields' : NameMap (Pattern E R)} (name : Name)
      (before after : List (Name × Pattern E R)) {p q : Pattern E R}
      (listed : fields.toList = before ++ (name, p) :: after)
      (listed' : fields'.toList = before ++ (name, q) :: after) (edit : Edited p q) :
      Edited (.split pos fields strict) (.split pos fields' strict)
  | pattern (pos : Span) {p q : Pattern E R} (type : E) (edit : Edited p q) :
      Edited (.typed pos p type) (.typed pos q type)
  | type (pos : Span) (pattern : Pattern E R) {e e' : E} (edit : exp e e') :
      Edited (.typed pos pattern e) (.typed pos pattern e')
  | name (pos : Span) {m n : Name} (pattern : Pattern E R) (different : m ≠ n) :
      Edited (.named pos m pattern) (.named pos n pattern)
  | named (pos : Span) (name : Name) {p q : Pattern E R} (edit : Edited p q) :
      Edited (.named pos name p) (.named pos name q)
  | bind (pos : Span) {m n : Name} (different : m ≠ n) : Edited (.bind pos m) (.bind pos n)
  | literal {l l' : Literal} (edit : l.Edited l') : Edited (.literal l) (.literal l')

inductive Entry.Edited : Entry E R → Entry E R → Prop
  | pattern {n : Entry E R} {pattern : Pattern E R} (edit : n.pattern.Edited exp ref pattern) :
      Edited n { n with pattern }

inductive Field.Edited : Field E R → Field E R → Prop
  | entry {n : Field E R} {entry : Entry E R} (edit : n.entry.Edited exp ref entry) :
      Edited n { n with entry }
  | default {n : Field E R} {e e' : E} (given : n.default = some e) (edit : exp e e') :
      Edited n { n with default := some e' }

/-- One field of a field list is edited. The order stays. -/
inductive Fields.Edited : Fields E R → Fields E R → Prop
  | field {n n' : Fields E R} (order : n.order = n'.order)
      (edit : n.bindings.Edited (Field.Edited exp ref) n'.bindings) : Edited n n'

inductive Case.Edited : Case E R → Case E R → Prop
  | pattern {n : Case E R} {pattern : Pattern E R} (edit : n.pattern.Edited exp ref pattern) :
      Edited n { n with pattern }
  | body {n : Case E R} {body : E} (edit : exp n.body body) : Edited n { n with body }

inductive Definition.Edited : Definition E R → Definition E R → Prop
  | pattern {n : Definition E R} {pattern : Pattern E R}
      (edit : n.pattern.Edited exp ref pattern) : Edited n { n with pattern }
  | init {n : Definition E R} {e e' : E} (given : n.init = some e) (edit : exp e e') :
      Edited n { n with init := some e' }

inductive Import.Edited : Import E → Import E → Prop
  | target {n : Import E} {target : E} (edit : exp n.target target) : Edited n { n with target }

/-- A proof of another fact, or with an edited body. -/
inductive Proof.Edited : Proof E R → Proof E R → Prop
  | fact {n : Proof E R} {fact : R} (edit : ref n.fact fact) : Edited n { n with fact }
  | body {n : Proof E R} {body : E} (edit : exp n.body body) : Edited n { n with body }

/-- A truth with one edit in its proposition or in its proof. -/
inductive Truth.Edited : Truth E → Truth E → Prop
  | prop {n : Truth E} {prop : E} (edit : exp n.prop prop) : Edited n { n with prop }
  | proof {n : Truth E} {e e' : E} (given : n.proof = some e) (edit : exp e e') :
      Edited n { n with proof := some e' }

/-- A builder with one edit in its parameters, in one of its supers or in its body. -/
inductive Builder.Edited : Builder E R → Builder E R → Prop
  | params {n : Builder E R} {params : Fields E R} (edit : n.params.Edited exp ref params) :
      Edited n { n with params }
  | supers {n : Builder E R} {supers : List E} (edit : ChangedOnce exp n.supers supers) :
      Edited n { n with supers }
  | body {n : Builder E R} {body : E} (edit : exp n.body body) : Edited n { n with body }

/-- A precedence over an edited operator. -/
inductive Precedence.Edited : Precedence E → Precedence E → Prop
  | operator {n : Precedence E} {operator : E} (edit : exp n.operator operator) :
      Edited n { n with operator }

/-- An operator with one edited precedence. -/
inductive Operator.Edited : Operator E → Operator E → Prop
  | precedence {n : Operator E} {precedence : List (Precedence E)}
      (edit : ChangedOnce (Precedence.Edited exp) n.precedence precedence) :
      Edited n { n with precedence }

/-- An item with one edit in its only part. -/
inductive Item.Edited : Item E R → Item E R → Prop
  | statement {e e' : E} (edit : exp e e') : Edited (.statement e) (.statement e')
  | declaration {d d' : Definition E R} (edit : d.Edited exp ref d') :
      Edited (.declaration d) (.declaration d')

/-- A scope with one edit in one of its namespaces, proofs or imports. -/
inductive Scope.Edited : Scope E R → Scope E R → Prop
  | builders {n : Scope E R} {builders : NameMap (Builder E R)}
      (edit : n.builders.Edited (Builder.Edited exp ref) builders) : Edited n { n with builders }
  | operators {n : Scope E R} {operators : NameMap (Operator E)}
      (edit : n.operators.Edited (Operator.Edited exp) operators) : Edited n { n with operators }
  | truths {n : Scope E R} {truths : NameMap (Truth E)}
      (edit : n.truths.Edited (Truth.Edited exp) truths) : Edited n { n with truths }
  | definitions {n : Scope E R} {definitions : VisibilityTable (List (Definition E R))}
      (edit : n.definitions.Edited (ChangedOnce (Definition.Edited exp ref)) definitions) :
      Edited n { n with definitions }
  | proofs {n : Scope E R} {proofs : List (Proof E R)}
      (edit : ChangedOnce (Proof.Edited exp ref) n.proofs proofs) : Edited n { n with proofs }
  | imports {n : Scope E R} {imports : List (Import E)}
      (edit : ChangedOnce (Import.Edited exp) n.imports imports) : Edited n { n with imports }

inductive Component.Edited : Component E R → Component E R → Prop
  | scope {n : Component E R} {scope : Scope E R} (edit : n.scope.Edited exp ref scope) :
      Edited n { n with scope }

/-- One edit in a form. A chain and a tuple of the same items count as one edit apart. -/
inductive Form.Edited : Form E R → Form E R → Prop
  | block (pos : Span) {items items' : List (Item E R)}
      (edit : ChangedOnce (Item.Edited exp ref) items items') :
      Edited (.block pos items) (.block pos items')
  | abstraction (pos : Span) (binder : Binder) {cases cases' : List (Case E R)}
      (edit : ChangedOnce (Case.Edited exp ref) cases cases') :
      Edited (.abstraction pos binder cases) (.abstraction pos binder cases')
  | scrutinee (pos : Span) {e e' : E} (cases : List (Case E R)) (edit : exp e e') :
      Edited (.matching pos e cases) (.matching pos e' cases)
  | cases (pos : Span) (scrutinee : E) {cases cases' : List (Case E R)}
      (edit : ChangedOnce (Case.Edited exp ref) cases cases') :
      Edited (.matching pos scrutinee cases) (.matching pos scrutinee cases')
  | ascribed (pos : Span) {e e' : E} (type : E) (edit : exp e e') :
      Edited (.ascription pos e type) (.ascription pos e' type)
  | type (pos : Span) (value : E) {e e' : E} (edit : exp e e') :
      Edited (.ascription pos value e) (.ascription pos value e')
  | chain (pos : Span) {items items' : List E} (edit : ChangedOnce exp items items') :
      Edited (.chain pos items) (.chain pos items')
  | tuple (pos : Span) {items items' : List E} (edit : ChangedOnce exp items items') :
      Edited (.tuple pos items) (.tuple pos items')
  | chainToTuple (pos : Span) (items : List E) : Edited (.chain pos items) (.tuple pos items)
  | tupleToChain (pos : Span) (items : List E) : Edited (.tuple pos items) (.chain pos items)
  | record (pos : Span) {fields fields' : NameMap E} (edit : fields.Edited exp fields') :
      Edited (.record pos fields) (.record pos fields')
  | recordType (pos : Span) {fields fields' : Fields E R} (edit : fields.Edited exp ref fields') :
      Edited (.recordType pos fields) (.recordType pos fields')
  | projected (pos : Span) {e e' : E} (path : List Name) (edit : exp e e') :
      Edited (.projection pos e path) (.projection pos e' path)
  | reference (pos : Span) {r s : R} (edit : ref r s) :
      Edited (.reference pos r) (.reference pos s)
  | function (pos : Span) {e e' : E} (argument : E) (edit : exp e e') :
      Edited (.application pos e argument) (.application pos e' argument)
  | argument (pos : Span) (function : E) {e e' : E} (edit : exp e e') :
      Edited (.application pos function e) (.application pos function e')
  | refined (pos : Span) {e e' : E} (proposition : E) (edit : exp e e') :
      Edited (.refinement pos e proposition) (.refinement pos e' proposition)
  | proposition (pos : Span) (value : E) {e e' : E} (edit : exp e e') :
      Edited (.refinement pos value e) (.refinement pos value e')
  | supers (pos : Span) (kind : BuilderKind) {supers supers' : List E} (params : Fields E R)
      (body : Scope E R) (edit : ChangedOnce exp supers supers') :
      Edited (.anonymous pos kind supers params body) (.anonymous pos kind supers' params body)
  | params (pos : Span) (kind : BuilderKind) (supers : List E) {params params' : Fields E R}
      (body : Scope E R) (edit : params.Edited exp ref params') :
      Edited (.anonymous pos kind supers params body) (.anonymous pos kind supers params' body)
  | body (pos : Span) (kind : BuilderKind) (supers : List E) (params : Fields E R)
      {body body' : Scope E R} (edit : body.Edited exp ref body') :
      Edited (.anonymous pos kind supers params body) (.anonymous pos kind supers params body')
  | literal {l l' : Literal} (edit : l.Edited l') : Edited (.literal l) (.literal l')

/-- One edit in a node of any kind. A span on its own holds nothing to edit. -/
def Kind.Edited : (k : Kind) → k.Tree E R → k.Tree E R → Prop
  | Kind.ref, n, n' => ref n n'
  | span, _, _ => False
  | literal, n, n' => Literal.Edited n n'
  | entry, n, n' => Entry.Edited exp ref n n'
  | field, n, n' => Field.Edited exp ref n n'
  | fields, n, n' => Fields.Edited exp ref n n'
  | case, n, n' => Case.Edited exp ref n n'
  | definition, n, n' => Definition.Edited exp ref n n'
  | imported, n, n' => Import.Edited exp n n'
  | proof, n, n' => Proof.Edited exp ref n n'
  | truth, n, n' => Truth.Edited exp n n'
  | builder, n, n' => Builder.Edited exp ref n n'
  | precedence, n, n' => Precedence.Edited exp n n'
  | operator, n, n' => Operator.Edited exp n n'
  | scope, n, n' => Scope.Edited exp ref n n'
  | component, n, n' => Component.Edited exp ref n n'
  | pattern, n, n' => Pattern.Edited exp ref n n'
  | item, n, n' => Item.Edited exp ref n n'
  | expr, n, n' => Form.Edited exp ref n n'

end

/-- One edit in an expression, at any depth. -/
inductive Expr.Edited {R : Type} (ref : R → R → Prop) : Expr R → Expr R → Prop
  | mk {exp : Expr R → Expr R → Prop} {form form' : Form (Expr R) R}
      (deeper : ∀ e e', exp e e' → Edited ref e e') (edit : form.Edited exp ref form') :
      Edited ref (.mk form) (.mk form')

/-- Another name, or another scope. -/
inductive Symbol.Replaced : Symbol → Symbol → Prop
  | name (scope : ScopeId) {m n : Name} (different : m ≠ n) : Replaced ⟨scope, m⟩ ⟨scope, n⟩
  | scope (name : Name) {s t : ScopeId} (different : s ≠ t) : Replaced ⟨s, name⟩ ⟨t, name⟩

/-- Another reference in place of one. -/
def Phase.Replaced : (p : Phase) → p.Ref → p.Ref → Prop
  | parsed, m, n => m ≠ n
  | resolved, r, s => Symbol.Replaced r s

/-- Two nodes are one edit apart, at any depth. -/
def Node.Edited (p : Phase) (k : Kind) (a b : Node p.Ref k) : Prop :=
  k.Edited (Expr.Edited p.Replaced) p.Replaced a b

/-- Different names differ in their one word. -/
theorem Name.words_changed {m n : Name} (different : m ≠ n) :
    ChangedOnce (· ≠ ·) m.words n.words := by
  refine .single fun same => different (toNat_inj ?_)
  rw [UInt32.toUInt64_inj.mp same]

theorem ScopeId.words_changed {s t : ScopeId} (different : s ≠ t) :
    ChangedOnce (· ≠ ·) s.words t.words := by
  refine .single fun same => different (congrArg mk ?_)
  exact UInt32.toUInt64_inj.mp same

/-- A symbol that is replaced differs in one word. -/
theorem Symbol.Replaced.words_changed {r s : Symbol} (edit : r.Replaced s) :
    ChangedOnce (· ≠ ·) r.words s.words := by
  cases edit with
  | name scope different => exact (Name.words_changed different).prepend _
  | scope name different => exact (ScopeId.words_changed different).append _

/-- The values of a variant are written in one word after its tag. -/
theorem Literal.Edited.words_changed {l l' : Literal} (edit : l.Edited l') :
    ChangedOnce (· ≠ ·) l.words l'.words := by
  cases edit with
  | @value pos v w variant different =>
    cases v with
    | int m =>
      cases w with
      | int n =>
        refine (ChangedOnce.single fun same => different ?_).cons _
        exact congrArg (fun word => LiteralValue.int word.toInt64) same
      | _ => cases variant
    | float bits =>
      cases w with
      | float bits' =>
        exact (ChangedOnce.single fun same => different (congrArg LiteralValue.float same)).cons _
      | _ => cases variant
    | str name =>
      cases w with
      | str name' =>
        exact (Name.words_changed fun same => different (congrArg LiteralValue.str same)).cons _
      | _ => cases variant
    | char c =>
      cases w with
      | char d =>
        refine (ChangedOnce.single fun same => different ?_).cons _
        exact congrArg LiteralValue.char (Char.ext (UInt32.toUInt64_inj.mp same))
      | _ => cases variant

/-- If an edited value differs in one word, so does a mapping with it. -/
theorem NameMap.Edited.words_changed {V : Type} {value : V → V → Prop} {words : V → List UInt64}
    {m m' : NameMap V} (edit : m.Edited value m')
    (inner : ∀ v w, value v w → ChangedOnce (· ≠ ·) (words v) (words w)) :
    ChangedOnce (· ≠ ·) (m.words words) (m'.words words) := by
  rw [NameMap.words, NameMap.words, size_eq_length, size_eq_length, edit.length_eq]
  refine (edit.flatMap ?_).cons _
  rintro ⟨name, v⟩ ⟨name', w⟩ ⟨rfl, edited⟩
  exact (inner v w edited).prepend _

/-- If an edited item differs in one word, so does a list with it. -/
theorem wordsOfList_changed {α : Type} {change : α → α → Prop} {words : α → List UInt64}
    {xs ys : List α} (edit : ChangedOnce change xs ys)
    (inner : ∀ x y, change x y → ChangedOnce (· ≠ ·) (words x) (words y)) :
    ChangedOnce (· ≠ ·) (wordsOfList words xs) (wordsOfList words ys) := by
  rw [wordsOfList, wordsOfList, edit.length_eq]
  exact (edit.flatMap inner).cons _

section

variable {E R : Type} {exp : E → E → Prop} {ref : R → R → Prop} {expWords : E → List UInt64}
  {refWords : R → List UInt64}
  (inExp : ∀ e e', exp e e' → ChangedOnce (· ≠ ·) (expWords e) (expWords e'))
  (inRef : ∀ r s, ref r s → ChangedOnce (· ≠ ·) (refWords r) (refWords s))

include inExp inRef in
/-- An edited pattern differs in one word if what is edited in its slots does. -/
theorem Pattern.Edited.words_changed {p q : Pattern E R} (edit : p.Edited exp ref q) :
    ChangedOnce (· ≠ ·) (p.words expWords refWords) (q.words expWords refWords) := by
  induction edit with
  | choice pos before after edit ih =>
    rw [words_alternatives, words_alternatives]
    exact (wordsOfList_changed (.mk before after ih) fun _ _ changed => changed).cons _
  | head pos argument edit => exact ((inRef _ _ edit).append _).cons _
  | argument pos head edit ih => exact (ih.prepend _).cons _
  | @field pos strict fields fields' name before after p q listed listed' edit ih =>
    have once : fields.Edited (fun p q => ChangedOnce (· ≠ ·) (p.words expWords refWords)
        (q.words expWords refWords)) fields' := by
      rw [NameMap.Edited, listed, listed']
      exact .mk before after ⟨rfl, ih⟩
    rw [words_split, words_split]
    exact ((once.words_changed fun _ _ changed => changed).append _).cons _
  | pattern pos type edit ih => exact (ih.append _).cons _
  | type pos pattern edit => exact ((inExp _ _ edit).prepend _).cons _
  | name pos pattern different => exact ((Name.words_changed different).append _).cons _
  | named pos name edit ih => exact (ih.prepend _).cons _
  | bind pos different => exact (Name.words_changed different).cons _
  | literal edit => exact edit.words_changed.cons _

include inExp inRef

theorem Entry.Edited.words_changed {n n' : Entry E R} (edit : n.Edited exp ref n') :
    ChangedOnce (· ≠ ·) (n.words expWords refWords) (n'.words expWords refWords) := by
  cases edit with
  | pattern edit => exact (edit.words_changed inExp inRef).prepend _

theorem Field.Edited.words_changed {n n' : Field E R} (edit : n.Edited exp ref n') :
    ChangedOnce (· ≠ ·) (n.words expWords refWords) (n'.words expWords refWords) := by
  cases edit with
  | entry edit => exact (edit.words_changed inExp inRef).append _
  | default given edit =>
    rw [Field.words, Field.words, given]
    exact ((inExp _ _ edit).cons _).prepend _

theorem Fields.Edited.words_changed {n n' : Fields E R} (edit : n.Edited exp ref n') :
    ChangedOnce (· ≠ ·) (n.words expWords refWords) (n'.words expWords refWords) := by
  obtain ⟨order, edit⟩ := edit
  rw [Fields.words, Fields.words, order]
  exact (edit.words_changed fun _ _ edit => edit.words_changed inExp inRef).append _

theorem Case.Edited.words_changed {n n' : Case E R} (edit : n.Edited exp ref n') :
    ChangedOnce (· ≠ ·) (n.words expWords refWords) (n'.words expWords refWords) := by
  cases edit with
  | pattern edit => exact (edit.words_changed inExp inRef).append _
  | body edit => exact (inExp _ _ edit).prepend _

theorem Definition.Edited.words_changed {n n' : Definition E R} (edit : n.Edited exp ref n') :
    ChangedOnce (· ≠ ·) (n.words expWords refWords) (n'.words expWords refWords) := by
  cases edit with
  | pattern edit => exact (edit.words_changed inExp inRef).append _
  | init given edit =>
    rw [Definition.words, Definition.words, given]
    exact ((inExp _ _ edit).cons _).prepend _

omit inRef in
theorem Import.Edited.words_changed {n n' : Import E} (edit : n.Edited exp n') :
    ChangedOnce (· ≠ ·) (n.words expWords) (n'.words expWords) := by
  cases edit with
  | target edit => exact (inExp _ _ edit).prepend _

theorem Proof.Edited.words_changed {n n' : Proof E R} (edit : n.Edited exp ref n') :
    ChangedOnce (· ≠ ·) (n.words expWords refWords) (n'.words expWords refWords) := by
  cases edit with
  | fact edit => exact (inRef _ _ edit).append _
  | body edit => exact (inExp _ _ edit).prepend _

omit inRef in
theorem Truth.Edited.words_changed {n n' : Truth E} (edit : n.Edited exp n') :
    ChangedOnce (· ≠ ·) (n.words expWords) (n'.words expWords) := by
  cases edit with
  | prop edit => exact ((inExp _ _ edit).prepend _).append _
  | proof given edit =>
    rw [Truth.words, Truth.words, given]
    exact ((inExp _ _ edit).cons _).prepend _

theorem Builder.Edited.words_changed {n n' : Builder E R} (edit : n.Edited exp ref n') :
    ChangedOnce (· ≠ ·) (n.words expWords refWords) (n'.words expWords refWords) := by
  cases edit with
  | params edit => exact (((edit.words_changed inExp inRef).prepend _).append _).append _
  | supers edit => exact ((wordsOfList_changed edit inExp).prepend _).append _
  | body edit => exact (inExp _ _ edit).prepend _

omit inRef in
theorem Precedence.Edited.words_changed {n n' : Precedence E} (edit : n.Edited exp n') :
    ChangedOnce (· ≠ ·) (n.words expWords) (n'.words expWords) := by
  cases edit with
  | operator edit => exact (inExp _ _ edit).prepend _

omit inRef in
theorem Operator.Edited.words_changed {n n' : Operator E} (edit : n.Edited exp n') :
    ChangedOnce (· ≠ ·) (n.words expWords) (n'.words expWords) := by
  cases edit with
  | precedence edit =>
    exact (wordsOfList_changed edit fun _ _ edit => edit.words_changed inExp).prepend _

theorem Item.Edited.words_changed {n n' : Item E R} (edit : n.Edited exp ref n') :
    ChangedOnce (· ≠ ·) (n.words expWords refWords) (n'.words expWords refWords) := by
  cases edit with
  | statement edit => exact (inExp _ _ edit).cons _
  | declaration edit => exact (edit.words_changed inExp inRef).cons _

theorem Scope.Edited.words_changed {n n' : Scope E R} (edit : n.Edited exp ref n') :
    ChangedOnce (· ≠ ·) (n.words expWords refWords) (n'.words expWords refWords) := by
  cases edit with
  | builders edit =>
    have once := edit.words_changed fun _ _ edit => edit.words_changed inExp inRef
    exact (((((once.prepend _).append _).append _).append _).append _).append _
  | operators edit =>
    have once := edit.words_changed fun _ _ edit => edit.words_changed inExp
    exact ((((once.prepend _).append _).append _).append _).append _
  | truths edit =>
    have once := edit.words_changed fun _ _ edit => edit.words_changed inExp
    exact (((once.prepend _).append _).append _).append _
  | definitions edit =>
    have once := wordsOfList_changed edit fun _ _ edit =>
      wordsOfList_changed edit fun _ _ edit => edit.words_changed inExp inRef
    exact ((once.prepend _).append _).append _
  | proofs edit =>
    have once := wordsOfList_changed edit fun _ _ edit => edit.words_changed inExp inRef
    exact (once.prepend _).append _
  | imports edit =>
    have once := wordsOfList_changed edit fun _ _ edit => edit.words_changed inExp
    exact once.prepend _

theorem Component.Edited.words_changed {n n' : Component E R} (edit : n.Edited exp ref n') :
    ChangedOnce (· ≠ ·) (n.words expWords refWords) (n'.words expWords refWords) := by
  cases edit with
  | scope edit => exact (edit.words_changed inExp inRef).prepend _

/-- An edited layer of an expression differs in one word if what is edited in its slots does. -/
theorem Form.Edited.words_changed {n n' : Form E R} (edit : n.Edited exp ref n') :
    ChangedOnce (· ≠ ·) (n.words expWords refWords) (n'.words expWords refWords) := by
  cases edit with
  | block pos edit =>
    exact (wordsOfList_changed edit fun _ _ edit => edit.words_changed inExp inRef).cons _
  | abstraction pos binder edit | cases pos scrutinee edit =>
    have once := wordsOfList_changed edit fun _ _ edit => edit.words_changed inExp inRef
    exact (once.prepend _).cons _
  | scrutinee pos rest edit | ascribed pos rest edit | projected pos rest edit
  | function pos rest edit | refined pos rest edit =>
    exact ((inExp _ _ edit).append _).cons _
  | type pos first edit | argument pos first edit | proposition pos first edit =>
    exact ((inExp _ _ edit).prepend _).cons _
  | chain pos edit | tuple pos edit => exact (wordsOfList_changed edit inExp).cons _
  | chainToTuple pos items | tupleToChain pos items =>
    exact .mk [] _ (by simp [tag])
  | record pos edit => exact (edit.words_changed inExp).cons _
  | recordType pos edit => exact (edit.words_changed inExp inRef).cons _
  | reference pos edit => exact (inRef _ _ edit).cons _
  | supers pos kind params body edit =>
    exact ((((wordsOfList_changed edit inExp).prepend _).append _).append _).cons _
  | params pos kind supers body edit =>
    exact (((edit.words_changed inExp inRef).prepend _).append _).cons _
  | body pos kind supers params edit => exact ((edit.words_changed inExp inRef).prepend _).cons _
  | literal edit => exact edit.words_changed.cons _

/-- An edited layer of any kind differs in one word if what is edited in its slots does. -/
theorem Kind.Edited.words_changed {k : Kind} {n n' : k.Tree E R} (edit : k.Edited exp ref n n') :
    ChangedOnce (· ≠ ·) (k.words expWords refWords n) (k.words expWords refWords n') := by
  cases k with
  | ref => exact inRef n n' edit
  | span => exact edit.elim
  | literal => exact Literal.Edited.words_changed edit
  | entry => exact Entry.Edited.words_changed inExp inRef edit
  | field => exact Field.Edited.words_changed inExp inRef edit
  | fields => exact Fields.Edited.words_changed inExp inRef edit
  | case => exact Case.Edited.words_changed inExp inRef edit
  | definition => exact Definition.Edited.words_changed inExp inRef edit
  | imported => exact Import.Edited.words_changed inExp edit
  | proof => exact Proof.Edited.words_changed inExp inRef edit
  | truth => exact Truth.Edited.words_changed inExp edit
  | builder => exact Builder.Edited.words_changed inExp inRef edit
  | precedence => exact Precedence.Edited.words_changed inExp edit
  | operator => exact Operator.Edited.words_changed inExp edit
  | scope => exact Scope.Edited.words_changed inExp inRef edit
  | component => exact Component.Edited.words_changed inExp inRef edit
  | pattern => exact Pattern.Edited.words_changed inExp inRef edit
  | item => exact Item.Edited.words_changed inExp inRef edit
  | expr => exact Form.Edited.words_changed inExp inRef edit

end

theorem Phase.words_changed (p : Phase) (r s : p.Ref) (edit : p.Replaced r s) :
    ChangedOnce (· ≠ ·) (Reference.words r) (Reference.words s) := by
  cases p with
  | parsed => exact Name.words_changed edit
  | resolved => exact Symbol.Replaced.words_changed edit

/-- An edit of an expression, however deep, shows in exactly one word. -/
theorem Expr.Edited.words_changed {p : Phase} {e e' : Expr p.Ref} (edit : e.Edited p.Replaced e') :
    ChangedOnce (· ≠ ·) e.words e'.words := by
  induction edit with
  | mk deeper edit ih =>
    rw [words_mk, words_mk]
    exact edit.words_changed ih p.words_changed

namespace Node

/-- An edit of a node, however deep, shows in exactly one word. -/
theorem words_changed {p : Phase} {k : Kind} {a b : Node p.Ref k} (edit : Edited p k a b) :
    ChangedOnce (· ≠ ·) (words k a) (words k b) :=
  Kind.Edited.words_changed (fun _ _ inner => inner.words_changed) p.words_changed edit

/-- Nodes whose words differ in one place only have different fingerprints. Nodes that are one edit
apart differ in this way, wherever the edit is. -/
theorem fingerprint_shows_edit (p : Phase) :
    (∀ (k : Kind) (a b : Node p.Ref k), (words k a).length = (words k b).length →
      (∃! position : Nat, (words k a)[position]? ≠ (words k b)[position]?) →
      fingerprint k a ≠ fingerprint k b) ∧
    (∀ (k : Kind) (a b : Node p.Ref k), Edited p k a b →
      (words k a).length = (words k b).length ∧
      (∃! position : Nat, (words k a)[position]? ≠ (words k b)[position]?) ∧
      fingerprint k a ≠ fingerprint k b) ∧
    ∀ a b : Expr p.Ref, a.Edited p.Replaced b →
      a.words.length = b.words.length ∧
      (∃! position : Nat, a.words[position]? ≠ b.words[position]?) ∧
      Fingerprint.ofWords a.words ≠ Fingerprint.ofWords b.words := by
  refine ⟨fun k a b length once => Fingerprint.ofWords_ne (.of_differ length once),
    fun k a b edit => ?_, fun a b edit => ?_⟩
  · have once := words_changed edit
    obtain ⟨length, differ⟩ := once.differ
    exact ⟨length, differ, Fingerprint.ofWords_ne once⟩
  · have once := edit.words_changed
    obtain ⟨length, differ⟩ := once.differ
    exact ⟨length, differ, Fingerprint.ofWords_ne once⟩

/-- A call whose argument is a chain in one and a tuple in the other, and two names that a pattern
binds. -/
theorem fingerprint_shows_edit_inside :
    let symbol (name : UInt32) : Expr Name := .mk (.reference .dummy ⟨name⟩)
    let call (argument : Form (Expr Name) Name) : Node Name .expr :=
      .application .dummy (symbol 1) (.mk argument)
    let bind (name : UInt32) : Node Name .pattern := .bind .dummy ⟨name⟩
    fingerprint .expr (call (.chain .dummy [symbol 2, symbol 3]))
      ≠ fingerprint .expr (call (.tuple .dummy [symbol 2, symbol 3])) ∧
    Fingerprint.ofWords (Expr.mk (.chain .dummy [symbol 2, symbol 3])).words
      ≠ Fingerprint.ofWords (Expr.mk (.tuple .dummy [symbol 2, symbol 3])).words ∧
    fingerprint .pattern (bind 7) ≠ fingerprint .pattern (bind 8) := by
  intro symbol call bind
  have layer : (Form.chain .dummy [symbol 2, symbol 3]).Edited (fun _ _ => False)
      (Phase.Replaced .parsed) (.tuple .dummy [symbol 2, symbol 3]) := .chainToTuple .dummy _
  have argument : (Expr.mk (.chain .dummy [symbol 2, symbol 3])).Edited (Phase.Replaced .parsed)
      (.mk (.tuple .dummy [symbol 2, symbol 3])) := .mk (fun _ _ nothing => nothing.elim) layer
  have edit : Edited .parsed .expr (call (.chain .dummy [symbol 2, symbol 3]))
      (call (.tuple .dummy [symbol 2, symbol 3])) := Form.Edited.argument .dummy _ argument
  have once : ∃! position : Nat,
      (words .pattern (bind 7))[position]? ≠ (words .pattern (bind 8))[position]? := by
    refine ⟨1, by decide, fun position apart => ?_⟩
    rcases position with _ | _ | position
    · exact absurd rfl apart
    · rfl
    · exact absurd rfl apart
  obtain ⟨differ, shows, showsInside⟩ := fingerprint_shows_edit .parsed
  exact ⟨(shows .expr _ _ edit).2.2, (showsInside _ _ argument).2.2,
    differ .pattern (bind 7) (bind 8) rfl once⟩

end Node

end SurfaceTree
