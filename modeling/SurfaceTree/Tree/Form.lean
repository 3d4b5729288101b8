import SurfaceTree.Tree.Scope

namespace SurfaceTree

/-- An expression with open slots for its subexpressions `E` and references `R`. -/
inductive Form (E R : Type) where
  /-- `{ item; item; ... }` -/
  | block (pos : Span) (items : List (Item E R))
  /-- `fun { p => e | ... }`, and likewise for the quantifiers. -/
  | abstraction (pos : Span) (binder : Binder) (cases : List (Case E R))
  /-- `match e { p => e | ... }` -/
  | matching (pos : Span) (scrutinee : E) (cases : List (Case E R))
  /-- `e : t` -/
  | ascription (pos : Span) (value type : E)
  /-- A run of operators and operands that is not grouped yet. -/
  | chain (pos : Span) (items : List E)
  /-- `{ a = e, b = f }` -/
  | record (pos : Span) (fields : NameMap E)
  /-- `{ a : t, b : u }`, of which the order counts. -/
  | recordType (pos : Span) (fields : Fields E R)
  /-- `(e, f, ...)` -/
  | tuple (pos : Span) (items : List E)
  /-- `e.a.b` -/
  | projection (pos : Span) (value : E) (path : List Name)
  | reference (pos : Span) (target : R)
  /-- `f with a` -/
  | application (pos : Span) (function argument : E)
  /-- `e where p` -/
  | refinement (pos : Span) (value proposition : E)
  /-- A builder without a name. -/
  | anonymous (pos : Span) (kind : BuilderKind) (supers : List E) (params : Fields E R)
      (body : Scope E R)
  | literal (literal : Literal)

namespace Form

variable {E R : Type}

/-- Where the form stands. A literal has the position of its value. -/
def span : Form E R → Span
  | block pos _ | abstraction pos _ _ | matching pos _ _ | ascription pos _ _ | chain pos _
  | record pos _ | recordType pos _ | tuple pos _ | projection pos _ _ | reference pos _
  | application pos _ _ | refinement pos _ _ | anonymous pos _ _ _ _ => pos
  | literal l => l.pos

/-- The place of the variant in canonical order. -/
def tag : Form E R → Nat
  | block .. => 0
  | abstraction .. => 1
  | matching .. => 2
  | ascription .. => 3
  | chain .. => 4
  | record .. => 5
  | recordType .. => 6
  | tuple .. => 7
  | projection .. => 8
  | reference .. => 9
  | application .. => 10
  | refinement .. => 11
  | anonymous .. => 12
  | literal .. => 13

/-- What encodings call the variants, by tag. -/
def variantNames : List String :=
  ["compound", "abs", "match", "ascribe", "seq", "record", "record-type", "tuple", "project",
    "sym", "with", "where", "anon", "literal"]

end Form

end SurfaceTree
