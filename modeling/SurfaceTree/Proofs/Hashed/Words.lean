import SurfaceTree.Proofs.Canonical.Words
import SurfaceTree.Proofs.Hashed.Order

namespace SurfaceTree

/-- Items may be rewritten before the words of a list are taken. -/
theorem wordsOfList_rewrite {α β : Type} {item : α → List UInt64} {item' : β → List UInt64} {f : α → β}
    (agree : ∀ a, item a = item' (f a)) (xs : List α) :
    wordsOfList item xs = wordsOfList item' (xs.map f) := by
  obtain rfl : item = fun a => item' (f a) := funext agree
  simp only [wordsOfList, List.length_map, List.flatMap_map]

namespace Hashed

variable {P E R : Type}

section Words

variable (pat : P → List UInt64) (exp : E → List UInt64) (ref : R → List UInt64)

/-- The words of a layer of a pattern. The table of a split is written by its sorted listing. -/
def PatternForm.words : PatternForm P E R → List UInt64
  | p@(.alternatives _ choices) => .ofNat p.tag :: wordsOfList pat choices
  | p@(.construct _ head argument) => .ofNat p.tag :: (ref head ++ pat argument)
  | p@(.split _ fields strict) => .ofNat p.tag :: (fields.words pat ++ wordsOfBool strict)
  | p@(.typed _ pattern type) => .ofNat p.tag :: (pat pattern ++ exp type)
  | p@(.named _ name pattern) => .ofNat p.tag :: (name.words ++ pat pattern)
  | p@(.bind _ name) => .ofNat p.tag :: name.words
  | p@(.literal l) => .ofNat p.tag :: l.words

def Entry.words (n : Entry P) : List UInt64 := wordsOfBool n.implicit ++ pat n.pattern

def Field.words (n : Field P E) : List UInt64 := n.entry.words pat ++ wordsOfOption exp n.default

/-- The words of a field list: its table by its sorted listing, and then the declared order. -/
def Fields.words (n : Fields P E) : List UInt64 :=
  n.bindings.words (Field.words pat exp) ++ wordsOfList Name.words n.order

def Case.words (n : Case P E) : List UInt64 := pat n.pattern ++ exp n.body

def Definition.words (n : Definition P E) : List UInt64 := pat n.pattern ++ wordsOfOption exp n.init

def Builder.words (n : Builder P E) : List UInt64 :=
  Keyword.words n.kind ++ Keyword.words n.visibility ++ n.params.words pat exp
    ++ wordsOfList exp n.supers ++ exp n.body

/-- The words of an item, the rank of its variant first. -/
def Item.words (n : Item P E) : List UInt64 :=
  .ofNat n.tag ::
    match n with
    | .statement e => exp e
    | .declaration d => d.words pat exp

/-- The words of a scope. Its namespaces are written by their sorted listings. -/
def Scope.words (n : Scope P E R) : List UInt64 :=
  n.id.words ++ n.builders.words (Builder.words pat exp) ++ n.operators.words (Operator.words exp)
    ++ n.truths.words (Truth.words exp)
    ++ n.definitions.words (wordsOfList (Definition.words pat exp))
    ++ wordsOfList (Proof.words exp ref) n.proofs ++ wordsOfList (Import.words exp) n.imports

def Component.words (n : Component P E R) : List UInt64 :=
  wordsOfOption Name.words n.expected ++ n.scope.words pat exp ref

/-- The words of a layer of an expression. The table of a record is written by its sorted
listing. -/
def Form.words (n : Form P E R) : List UInt64 :=
  .ofNat n.tag ::
    match n with
    | .block _ items => wordsOfList (Item.words pat exp) items
    | .abstraction _ binder cases => Keyword.words binder ++ wordsOfList (Case.words pat exp) cases
    | .matching _ scrutinee cases => exp scrutinee ++ wordsOfList (Case.words pat exp) cases
    | .ascription _ value type => exp value ++ exp type
    | .chain _ items | .tuple _ items => wordsOfList exp items
    | .record _ fields => fields.words exp
    | .recordType _ fields => fields.words pat exp
    | .projection _ value path => exp value ++ wordsOfList Name.words path
    | .reference _ target => ref target
    | .application _ function argument => exp function ++ exp argument
    | .refinement _ value proposition => exp value ++ exp proposition
    | .anonymous _ kind supers params body =>
      Keyword.words kind ++ wordsOfList exp supers ++ params.words pat exp ++ body.words pat exp ref
    | .literal l => l.words

/-- The words of a layer of a node of any kind. -/
def Tree.words : (k : Kind) → Tree P E R k → List UInt64
  | .ref, n => ref n
  | .span, n => Span.words n
  | .literal, n => Literal.words n
  | .entry, n => Entry.words pat n
  | .field, n => Field.words pat exp n
  | .fields, n => Fields.words pat exp n
  | .case, n => Case.words pat exp n
  | .definition, n => Definition.words pat exp n
  | .imported, n => Import.words exp n
  | .proof, n => Proof.words exp ref n
  | .truth, n => Truth.words exp n
  | .builder, n => Builder.words pat exp n
  | .precedence, n => Precedence.words exp n
  | .operator, n => Operator.words exp n
  | .scope, n => Scope.words pat exp ref n
  | .component, n => Component.words pat exp ref n
  | .pattern, n => pat n
  | .item, n => Item.words pat exp n
  | .expr, n => Form.words pat exp ref n

/-- The words of a pattern, with the tables at every depth written by their sorted listings. -/
def Pattern.words : (depth : Nat) → Pattern E R depth → List UInt64
  | depth + 1, p => PatternForm.words (Pattern.words depth) exp ref p

end Words

section

variable {pattern : P → SurfaceTree.Pattern E R} {pat : P → List UInt64} {exp : E → List UInt64}
  {ref : R → List UInt64} (patterns : ∀ p, pat p = (pattern p).words exp ref)

include patterns

/-- The words of a layer of a pattern are those of its listed form if the slots agree. -/
theorem PatternForm.words_plain (p : PatternForm P E R) :
    p.words pat exp ref = (p.plain pattern).words exp ref := by
  cases p with
  | alternatives pos choices =>
    rw [words, plain, SurfaceTree.Pattern.words, Pattern.wordsOfAll_eq, wordsOfList_rewrite patterns]
    rfl
  | split pos fields strict =>
    rw [words, plain, SurfaceTree.Pattern.words, Pattern.wordsOfRow_eq, HashTable.words_plain patterns]
    rfl
  | _ =>
    simp only [words, patterns]
    rfl

theorem Entry.words_plain (n : Entry P) : n.words pat = (n.plain pattern).words exp ref := by
  rw [words, patterns]
  rfl

theorem Field.words_plain (n : Field P E) : n.words pat exp = (n.plain pattern).words exp ref := by
  rw [words, Entry.words_plain patterns]
  rfl

theorem Fields.words_plain (n : Fields P E) : n.words pat exp = (n.plain pattern).words exp ref := by
  rw [SurfaceTree.Fields.words, bindings_plain, ← HashTable.words_plain (Field.words_plain patterns)]
  rfl

theorem Case.words_plain (n : Case P E) : n.words pat exp = (n.plain pattern).words exp ref := by
  rw [words, patterns]
  rfl

theorem Definition.words_plain (n : Definition P E) :
    n.words pat exp = (n.plain pattern).words exp ref := by
  rw [words, patterns]
  rfl

theorem Builder.words_plain (n : Builder P E) :
    n.words pat exp = (n.plain pattern).words exp ref := by
  rw [words, Fields.words_plain patterns]
  rfl

theorem Item.words_plain (n : Item P E) : n.words pat exp = (n.plain pattern).words exp ref := by
  cases n with
  | statement e => rfl
  | declaration d => exact congrArg _ (d.words_plain patterns)

theorem Scope.words_plain (n : Scope P E R) :
    n.words pat exp ref = (n.plain pattern).words exp ref := by
  have definitions := wordsOfList_rewrite (wordsOfList_rewrite (Definition.words_plain patterns))
    n.definitions.values
  rw [words, HashTable.words_plain (Builder.words_plain patterns),
    HashTable.words_plain (f := fun o => o) (fun _ => rfl),
    HashTable.words_plain (f := fun t => t) (fun _ => rfl), VisibilityTable.words, definitions]
  rfl

theorem Component.words_plain (n : Component P E R) :
    n.words pat exp ref = (n.plain pattern).words exp ref := by
  rw [words, Scope.words_plain patterns]
  rfl

/-- The words of a layer of an expression are those of its listed form if the slots agree. -/
theorem Form.words_plain (n : Form P E R) :
    n.words pat exp ref = (n.plain pattern).words exp ref := by
  cases n with
  | block pos items => exact congrArg _ (wordsOfList_rewrite (Item.words_plain patterns) items)
  | abstraction pos binder cases =>
    rw [words, wordsOfList_rewrite (Case.words_plain patterns)]
    rfl
  | matching pos scrutinee cases =>
    rw [words, wordsOfList_rewrite (Case.words_plain patterns)]
    rfl
  | record pos fields => exact congrArg _ (fields.words_plain fun _ => rfl)
  | recordType pos fields => exact congrArg _ (fields.words_plain patterns)
  | anonymous pos kind supers params body =>
    rw [words, params.words_plain patterns, body.words_plain patterns]
    rfl
  | _ => rfl

/-- The words of a layer of a node of any kind are those of its listed form if the slots agree. -/
theorem Tree.words_plain (k : Kind) (n : Tree P E R k) :
    Tree.words pat exp ref k n = k.words exp ref (Tree.plain pattern k n) := by
  cases k with
  | entry => exact Entry.words_plain patterns n
  | field => exact Field.words_plain patterns n
  | fields => exact Fields.words_plain patterns n
  | case => exact Case.words_plain patterns n
  | definition => exact Definition.words_plain patterns n
  | builder => exact Builder.words_plain patterns n
  | scope => exact Scope.words_plain patterns n
  | component => exact Component.words_plain patterns n
  | pattern => exact patterns n
  | item => exact Item.words_plain patterns n
  | expr => exact Form.words_plain patterns n
  | _ => rfl

end

/-- The words of a pattern are those of its listed form at every depth. -/
theorem Pattern.words_plain (exp : E → List UInt64) (ref : R → List UInt64) (depth : Nat)
    (p : Pattern E R depth) : Pattern.words exp ref depth p = (p.plain depth).words exp ref := by
  induction depth with
  | zero => exact nomatch p
  | succ depth ih => exact PatternForm.words_plain ih p

end Hashed

end SurfaceTree
