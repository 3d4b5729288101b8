import SurfaceTree.Tree.Pattern

namespace SurfaceTree

/-- A bound pattern of a parameter or field. An implicit one is filled in rather than written. -/
structure Entry (E R : Type) where
  pos : Span
  implicit : Bool
  pattern : Pattern E R

/-- An entry and the value it takes where none is given. -/
structure Field (E R : Type) where
  pos : Span
  entry : Entry E R
  default : Option E

/-- Named fields in declared order. No name is declared twice, so the order lists every bound name
exactly once. -/
structure Fields (E R : Type) where
  order : List Name
  distinct : order.Nodup
  row : Row (Field E R) order

/-- Why an order does not list every bound name exactly once. -/
inductive FieldsError where
  | missingKey (name : Name)
  | duplicateKey (name : Name)
  | unknownKey (name : Name)
deriving DecidableEq

namespace FieldsError

/-- The name at fault. -/
def name : FieldsError → Name
  | missingKey n | duplicateKey n | unknownKey n => n

/-- What is wrong with the field spelled `field`. -/
def complaint (field : String) : FieldsError → String
  | missingKey _ => "field " ++ field ++ " is bound but missing from the order array"
  | duplicateKey _ => "field " ++ field ++ " appears more than once in the order array"
  | unknownKey _ => "field " ++ field ++ " is ordered but has no binding"

/-- The message where no registry is at hand. -/
def message (e : FieldsError) : String := e.complaint e.name.label

/-- The message with the field spelled out. -/
def describe (spell : Name → String) (e : FieldsError) : String :=
  e.complaint ("`" ++ spell e.name ++ "`")

end FieldsError

namespace Fields

variable {E R : Type}

/-- The fields in declared order. -/
def toList (fs : Fields E R) : List (Name × Field E R) := fs.row.toList

/-- The field list that declares entries in their order, if no name comes twice. -/
def ofDistinct (entries : List (Name × Field E R)) (distinct : (entries.map Prod.fst).Nodup) :
    Fields E R :=
  ⟨entries.map Prod.fst, distinct, .ofList entries⟩

def empty : Fields E R := ⟨[], .nil, .nil⟩

def size (fs : Fields E R) : Nat := fs.order.length

def isEmpty (fs : Fields E R) : Bool := fs.order.isEmpty

/-- The fields by ascending name. -/
def bindings (fs : Fields E R) : NameMap (Field E R) := .ofList fs.toList

/-- The field of a name. -/
def get? (fs : Fields E R) (name : Name) : Option (Field E R) := fs.toList.lookup name

/-- The first name that already occurred earlier in the list. -/
def firstRepeat? (seen : List Name) : List Name → Option Name
  | [] => none
  | name :: rest => if name ∈ seen then some name else firstRepeat? (name :: seen) rest

/-- Where nothing repeats, names are distinct, and none was seen before. -/
theorem nodup_of_firstRepeat?_eq_none {seen names : List Name}
    (none : firstRepeat? seen names = none) : names.Nodup ∧ ∀ n ∈ names, n ∉ seen := by
  induction names generalizing seen with
  | nil => simp
  | cons name rest ih =>
    simp only [firstRepeat?] at none
    split at none
    · cases none
    · next fresh =>
      obtain ⟨distinct, apart⟩ := ih none
      refine ⟨List.nodup_cons.mpr ⟨fun mem => apart name mem (List.mem_cons_self ..), distinct⟩, ?_⟩
      intro n mem
      rcases List.mem_cons.mp mem with rfl | later
      · exact fresh
      · exact fun old => apart n later (List.mem_cons_of_mem _ old)

/-- The field list with these fields, in this order. -/
def ofDeclared (entries : List (Name × Field E R)) : Except FieldsError (Fields E R) :=
  match repeated : firstRepeat? [] (entries.map Prod.fst) with
  | some name => .error (.duplicateKey name)
  | none => .ok (ofDistinct entries (nodup_of_firstRepeat?_eq_none repeated).1)

/-- The first position of an order that does not hold a new bound name. -/
def firstFault? (bound : Name → Bool) (seen : List Name) : List Name → Option FieldsError
  | [] => none
  | name :: rest =>
    if !bound name then some (.unknownKey name)
    else if name ∈ seen then some (.duplicateKey name)
    else firstFault? bound (name :: seen) rest

/-- Pairs a mapping with the order of its keys. A faulty position of the order is reported before a
key that the order leaves out. -/
def ofBindings (bindings : NameMap (Field E R)) (order : List Name) :
    Except FieldsError (Fields E R) :=
  match firstFault? bindings.contains [] order with
  | some fault => .error fault
  | none =>
    match bindings.keys.find? (fun key => !order.contains key) with
    | some key => .error (.missingKey key)
    | none => ofDeclared (order.filterMap fun name => (bindings.get? name).map (name, ·))

end Fields

end SurfaceTree
