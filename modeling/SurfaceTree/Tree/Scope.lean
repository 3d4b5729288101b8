import SurfaceTree.Tree.Declaration
import SurfaceTree.VisibilityTable

namespace SurfaceTree

/-- A lexical scope: three separate namespaces, the definitions by visibility, proofs and
imports. -/
structure Scope (E R : Type) where
  pos : Span
  id : ScopeId
  builders : NameMap (Builder E R)
  operators : NameMap (Operator E)
  truths : NameMap (Truth E)
  definitions : VisibilityTable (List (Definition E R))
  proofs : List (Proof E R)
  imports : List (Import E)

/-- A compilation unit, and the name it is expected to export. -/
structure Component (E R : Type) where
  expected : Option Name
  scope : Scope E R

/-- A namespace of a scope. -/
inductive Namespace where
  | builders
  | operators
  | truths
deriving DecidableEq

/-- What messages call a namespace. -/
def Namespace.spelling : Namespace → String
  | .builders => "builder"
  | .operators => "syntax"
  | .truths => "truth"

/-- A name was bound in a namespace that binds it already. -/
structure DuplicateName where
  space : Namespace
  name : Name
deriving DecidableEq

namespace DuplicateName

/-- What is wrong with the name spelled `name`. -/
def complaint (name : String) (e : DuplicateName) : String :=
  name ++ " is already bound in the " ++ e.space.spelling ++ " namespace"

/-- The message where no registry is at hand. -/
def message (e : DuplicateName) : String := e.complaint e.name.label

/-- The message with the name spelled out. -/
def describe (spell : Name → String) (e : DuplicateName) : String :=
  e.complaint ("`" ++ spell e.name ++ "`")

end DuplicateName

namespace Scope

variable {E R : Type}

/-- A scope with nothing in it. Scopes are built from here, one piece after another. -/
def empty (pos : Span) (id : ScopeId) : Scope E R :=
  ⟨pos, id, .empty, .empty, .empty, .ofFn fun _ => [], [], []⟩

/-- All definitions, by visibility and then in order of declaration. -/
def allDefinitions (s : Scope E R) : List (Visibility × Definition E R) :=
  s.definitions.toList.flatMap fun (v, ds) => ds.map (v, ·)

/-- Binds a name that a namespace does not bind yet. -/
def bindNew {V : Type} (space : Namespace) (map : NameMap V) (name : Name) (value : V) :
    Except DuplicateName (NameMap V) :=
  match map.insertNew? name value with
  | some map => .ok map
  | none => .error ⟨space, name⟩

/-- Binds a builder, unless the name has one. -/
def addBuilder (s : Scope E R) (name : Name) (b : Builder E R) : Except DuplicateName (Scope E R) :=
  (bindNew .builders s.builders name b).map fun builders => { s with builders }

/-- Binds an operator, unless the name has one. -/
def addOperator (s : Scope E R) (name : Name) (o : Operator E) : Except DuplicateName (Scope E R) :=
  (bindNew .operators s.operators name o).map fun operators => { s with operators }

/-- Binds a truth, unless the name has one. -/
def addTruth (s : Scope E R) (name : Name) (t : Truth E) : Except DuplicateName (Scope E R) :=
  (bindNew .truths s.truths name t).map fun truths => { s with truths }

/-- Adds a definition at the end of its bucket. -/
def addDefinition (s : Scope E R) (v : Visibility) (d : Definition E R) : Scope E R :=
  { s with definitions := s.definitions.set v (s.definitions.get v ++ [d]) }

/-- Adds a proof at the end. -/
def addProof (s : Scope E R) (p : Proof E R) : Scope E R := { s with proofs := s.proofs ++ [p] }

def addImport (s : Scope E R) (i : Import E) : Scope E R := { s with imports := s.imports ++ [i] }

end Scope

end SurfaceTree
