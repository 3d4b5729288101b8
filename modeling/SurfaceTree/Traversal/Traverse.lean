import SurfaceTree.Tree.Form

namespace SurfaceTree

variable {m : Type → Type} [Monad m] {E R E' R' : Type}

mutual
/-- Rebuilds a pattern with what becomes of the contents of its slots, which are met from left to
right and in a split by ascending name. Here and below everything but the slots is kept. -/
def Pattern.traverse (f : E → m E') (g : R → m R') : Pattern E R → m (Pattern E' R')
  | .alternatives pos choices => do
    return .alternatives pos (← Pattern.traverseList f g choices)
  | .construct pos head argument => do
    return .construct pos (← g head) (← Pattern.traverse f g argument)
  | .split pos fields strict => do
    return .split pos (fields.withRow (← Pattern.traverseRow f g fields.row)) strict
  | .typed pos pattern type => do
    return .typed pos (← Pattern.traverse f g pattern) (← f type)
  | .named pos name pattern => do
    return .named pos name (← Pattern.traverse f g pattern)
  | .bind pos name => pure (.bind pos name)
  | .literal l => pure (.literal l)

def Pattern.traverseList (f : E → m E') (g : R → m R') :
    List (Pattern E R) → m (List (Pattern E' R'))
  | [] => pure []
  | p :: rest => do return (← Pattern.traverse f g p) :: (← Pattern.traverseList f g rest)

def Pattern.traverseRow (f : E → m E') (g : R → m R') :
    {keys : List Name} → Row (Pattern E R) keys → m (Row (Pattern E' R') keys)
  | _, .nil => pure .nil
  | _, .cons key p rest => do
    return .cons key (← Pattern.traverse f g p) (← Pattern.traverseRow f g rest)
end

/-- Rebuilds an optional slot. -/
def traverseOption (f : E → m E') : Option E → m (Option E')
  | none => pure none
  | some e => do return some (← f e)

def Entry.traverse (f : E → m E') (g : R → m R') (n : Entry E R) : m (Entry E' R') := do
  return ⟨n.pos, n.implicit, ← n.pattern.traverse f g⟩

def Field.traverse (f : E → m E') (g : R → m R') (n : Field E R) : m (Field E' R') := do
  return ⟨n.pos, ← n.entry.traverse f g, ← traverseOption f n.default⟩

/-- Rebuilds a field list in declared order. -/
def Fields.traverse (f : E → m E') (g : R → m R') (n : Fields E R) : m (Fields E' R') := do
  return ⟨n.order, n.distinct, ← n.row.traverse (Field.traverse f g)⟩

def Case.traverse (f : E → m E') (g : R → m R') (n : Case E R) : m (Case E' R') := do
  return ⟨n.pos, ← n.pattern.traverse f g, ← f n.body⟩

def Definition.traverse (f : E → m E') (g : R → m R') (n : Definition E R) :
    m (Definition E' R') := do
  return ⟨n.pos, ← n.pattern.traverse f g, ← traverseOption f n.init⟩

def Import.traverse (f : E → m E') (n : Import E) : m (Import E') := do
  return ⟨n.pos, n.visibility, ← f n.target⟩

def Proof.traverse (f : E → m E') (g : R → m R') (n : Proof E R) : m (Proof E' R') := do
  return ⟨n.pos, ← g n.fact, ← f n.body⟩

def Truth.traverse (f : E → m E') (n : Truth E) : m (Truth E') := do
  return ⟨n.pos, n.kind, n.visibility, ← f n.prop, ← traverseOption f n.proof⟩

/-- Rebuilds a builder: its parameters, its supers and its body. -/
def Builder.traverse (f : E → m E') (g : R → m R') (n : Builder E R) : m (Builder E' R') := do
  return ⟨n.pos, n.kind, n.visibility, ← n.params.traverse f g, ← n.supers.mapM f, ← f n.body⟩

def Precedence.traverse (f : E → m E') (n : Precedence E) : m (Precedence E') := do
  return ⟨n.relation, ← f n.operator⟩

def Operator.traverse (f : E → m E') (n : Operator E) : m (Operator E') := do
  return ⟨n.pos, n.fixity, ← n.precedence.mapM (Precedence.traverse f)⟩

def Item.traverse (f : E → m E') (g : R → m R') : Item E R → m (Item E' R')
  | .statement e => do return .statement (← f e)
  | .declaration d => do return .declaration (← d.traverse f g)

/-- Rebuilds a scope: its namespaces by ascending name, its definitions by visibility, and then its
proofs and imports. -/
def Scope.traverse (f : E → m E') (g : R → m R') (n : Scope E R) : m (Scope E' R') := do
  return {
    pos := n.pos
    id := n.id
    builders := ← n.builders.traverse (Builder.traverse f g)
    operators := ← n.operators.traverse (Operator.traverse f)
    truths := ← n.truths.traverse (Truth.traverse f)
    definitions := ← n.definitions.traverse fun _ ds => ds.mapM (Definition.traverse f g)
    proofs := ← n.proofs.mapM (Proof.traverse f g)
    imports := ← n.imports.mapM (Import.traverse f) }

def Component.traverse (f : E → m E') (g : R → m R') (n : Component E R) :
    m (Component E' R') := do
  return ⟨n.expected, ← n.scope.traverse f g⟩

/-- Rebuilds a form. Slots are met in the order in which the parts of a form are declared. -/
def Form.traverse (f : E → m E') (g : R → m R') : Form E R → m (Form E' R')
  | .block pos items => do return .block pos (← items.mapM (Item.traverse f g))
  | .abstraction pos binder cases => do
    return .abstraction pos binder (← cases.mapM (Case.traverse f g))
  | .matching pos scrutinee cases => do
    return .matching pos (← f scrutinee) (← cases.mapM (Case.traverse f g))
  | .ascription pos value type => do return .ascription pos (← f value) (← f type)
  | .chain pos items => do return .chain pos (← items.mapM f)
  | .record pos fields => do return .record pos (← fields.traverse f)
  | .recordType pos fields => do return .recordType pos (← fields.traverse f g)
  | .tuple pos items => do return .tuple pos (← items.mapM f)
  | .projection pos value path => do return .projection pos (← f value) path
  | .reference pos target => do return .reference pos (← g target)
  | .application pos function argument => do
    return .application pos (← f function) (← f argument)
  | .refinement pos value proposition => do
    return .refinement pos (← f value) (← f proposition)
  | .anonymous pos kind supers params body => do
    return .anonymous pos kind (← supers.mapM f) (← params.traverse f g) (← body.traverse f g)
  | .literal l => pure (.literal l)

end SurfaceTree
