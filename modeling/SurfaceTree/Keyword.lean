namespace SurfaceTree

/-- A closed vocabulary: its members in canonical order, and how each is spelled. -/
class Keyword (α : Type) where
  all : List α
  spelling : α → String

namespace Keyword

variable {α : Type} [Keyword α]

/-- The member with a given spelling. -/
def ofSpelling? (word : String) : Option α := all.find? (fun a => spelling a == word)

/-- The place of a member in canonical order. -/
def index [DecidableEq α] (a : α) : Nat := all.idxOf a

end Keyword

/-- How far a definition can be seen. -/
inductive Visibility where
  | hidden
  | priv
  | prot
  | pub
deriving DecidableEq

/-- From the least visible to the most visible. -/
instance : Keyword Visibility where
  all := [.hidden, .priv, .prot, .pub]
  spelling
    | .hidden => "hidden"
    | .priv => "private"
    | .prot => "protected"
    | .pub => "public"

/-- What kind of fact a truth states. -/
inductive TruthKind where
  | fundamental
  | proven
  | invariant
deriving DecidableEq

instance : Keyword TruthKind where
  all := [.fundamental, .proven, .invariant]
  spelling
    | .fundamental => "axiom"
    | .proven => "theorem"
    | .invariant => "invariant"

/-- What kind of entity a builder introduces. -/
inductive BuilderKind where
  | module
  | cls
  | signature
deriving DecidableEq

instance : Keyword BuilderKind where
  all := [.module, .cls, .signature]
  spelling
    | .module => "module"
    | .cls => "class"
    | .signature => "signature"

/-- What an abstraction does with the names it binds. -/
inductive Binder where
  | lambda
  | universal
  | existential
deriving DecidableEq

/-- The heads of the three kinds of abstraction. -/
instance : Keyword Binder where
  all := [.lambda, .universal, .existential]
  spelling
    | .lambda => "fun"
    | .universal => "forall"
    | .existential => "exists"

/-- To which side an operator between two operands groups. -/
inductive Associativity where
  | left
  | right
  | neither
deriving DecidableEq

instance : Keyword Associativity where
  all := [.left, .right, .neither]
  spelling
    | .left => "left"
    | .right => "right"
    | .neither => "none"

/-- How tightly an operator binds compared with another one. -/
inductive Relation where
  | looser
  | equal
  | tighter
deriving DecidableEq

instance : Keyword Relation where
  all := [.looser, .equal, .tighter]
  spelling
    | .looser => "looser"
    | .equal => "equal"
    | .tighter => "tighter"

/-- Where an operator stands with respect to its operands. -/
inductive Fixity where
  | leading
  | between (side : Associativity)
  | trailing
deriving DecidableEq

/-- The five spellings of a fixity. Infix operators name their associativity. -/
instance : Keyword Fixity where
  all := [.leading, .between .left, .between .right, .between .neither, .trailing]
  spelling
    | .leading => "prefix"
    | .between .left => "infix-left"
    | .between .right => "infix-right"
    | .between .neither => "infix"
    | .trailing => "postfix"

end SurfaceTree
