import SurfaceTree.Text.Quoted
import SurfaceTree.Tree.Kind

namespace SurfaceTree

/-- The written form of a node: a name, attributes, child elements and perhaps a text. -/
structure Element where
  name : String
  attrs : List (String × String)
  children : List Element
  text : Option String

/-- Why an element is no node. -/
inductive DecodeError where
  | unknownElement (expected found : String)
  | missingAttribute (element attr : String)
  | missingChild (element child : String)
  | childCount (element : String) (found : Nat)
  | badAttribute (element attr value : String)
  | duplicateKey (name : Name)
  | fields (error : FieldsError)
  | table (error : TableError)

namespace DecodeError

/-- An element name, as messages show it. -/
def shown (name : String) : String := "`<" ++ name ++ ">`"

/-- What is wrong, in words. -/
def message : DecodeError → String
  | unknownElement expected found => "expected " ++ expected ++ ", found " ++ shown found
  | missingAttribute element attr => shown element ++ " is missing attribute `" ++ attr ++ "`"
  | missingChild element child => shown element ++ " is missing child " ++ shown child
  | childCount element found =>
    shown element ++ " has " ++ toString found ++ " children where 1 was expected"
  | badAttribute element attr value =>
    shown element ++ " has malformed attribute `" ++ attr ++ "` = " ++ Quoted.string value
  | duplicateKey name => "mapping binds " ++ name.label ++ " more than once"
  | fields error => error.message
  | table error => error.message

end DecodeError

namespace Element

/-- An element without text. -/
def node (name : String) (attrs : List (String × String)) (children : List Element) : Element :=
  ⟨name, attrs, children, none⟩

mutual
/-- How deep elements are nested in an element, itself included. -/
def depth : Element → Nat
  | ⟨_, _, children, _⟩ => depthOfAll children + 1

def depthOfAll : List Element → Nat
  | [] => 0
  | x :: rest => max (depth x) (depthOfAll rest)
end

mutual
/-- Structural equality. -/
def beq : Element → Element → Bool
  | ⟨name, attrs, children, text⟩, ⟨name', attrs', children', text'⟩ =>
    name == name' && attrs == attrs' && beqAll children children' && text == text'

def beqAll : List Element → List Element → Bool
  | [], [] => true
  | x :: rest, y :: rest' => beq x y && beqAll rest rest'
  | _, _ => false
end

instance : BEq Element := ⟨beq⟩

variable {α V : Type}

/-- Refuses elements of another name. -/
def checkName (x : Element) (name : String) : Except DecodeError Unit :=
  if x.name = name then .ok () else .error (.unknownElement name x.name)

/-- The first attribute of a key. -/
def attr (x : Element) (key : String) : Except DecodeError String :=
  match x.attrs.lookup key with
  | some value => .ok value
  | none => .error (.missingAttribute x.name key)

/-- The first attribute of a key, which has to be readable. -/
def attrAs (x : Element) (key : String) (read : String → Option α) : Except DecodeError α := do
  let raw ← x.attr key
  match read raw with
  | some value => .ok value
  | none => .error (.badAttribute x.name key raw)

def nameAttr (x : Element) (key : String) : Except DecodeError Name :=
  x.attrAs key fun raw => (Digits.word32? raw).map Name.mk

/-- The attribute of a key, which has to be `true` or `false`. -/
def boolAttr (x : Element) (key : String) : Except DecodeError Bool :=
  x.attrAs key fun raw =>
    if raw = "true" then some true else if raw = "false" then some false else none

/-- The attribute of a key, which has to be a word of a vocabulary. -/
def keywordAttr [Keyword α] (x : Element) (key : String) : Except DecodeError α :=
  x.attrAs key Keyword.ofSpelling?

/-- The first child of a name. -/
def child? (x : Element) (name : String) : Option Element := x.children.find? (·.name == name)

/-- The first child of a name, which has to be there. -/
def child (x : Element) (name : String) : Except DecodeError Element :=
  match x.child? name with
  | some y => .ok y
  | none => .error (.missingChild x.name name)

/-- The child of an element that has to have exactly one. -/
def onlyChild (x : Element) : Except DecodeError Element :=
  match x.children with
  | [y] => .ok y
  | ys => .error (.childCount x.name ys.length)

/-- What the child of a name holds. -/
def slot (x : Element) (name : String) : Except DecodeError Element := do
  (← x.child name).onlyChild

/-- What the child of a name holds, if there is such a child. -/
def slot? (x : Element) (name : String) (decode : Element → Except DecodeError α) :
    Except DecodeError (Option α) :=
  match x.child? name with
  | none => .ok none
  | some y => do return some (← decode (← y.onlyChild))

/-- All that the child of a name holds. -/
def slots (x : Element) (name : String) (decode : Element → Except DecodeError α) :
    Except DecodeError (List α) := do
  (← x.child name).children.mapM decode

/-- Reads the entries of a mapping in the order in which they come, which need not be that of the
keys. -/
def readEntries (decode : Element → Except DecodeError V) (m : NameMap V) :
    List Element → Except DecodeError (NameMap V)
  | [] => .ok m
  | x :: rest => do
    x.checkName "entry"
    let key ← x.nameAttr "key"
    let value ← decode (← x.onlyChild)
    match m.insertNew? key value with
    | some m => readEntries decode m rest
    | none => .error (.duplicateKey key)

/-- The mapping that the child of a name holds. -/
def mapping (x : Element) (name : String) (decode : Element → Except DecodeError V) :
    Except DecodeError (NameMap V) := do
  readEntries decode .empty (← x.child name).children

/-- A child that holds one element. -/
def ofSlot (name : String) (x : Element) : Element := node name [] [x]

/-- A child that holds some elements. -/
def ofSlots (name : String) (xs : List Element) : Element := node name [] xs

/-- A child that is there if an optional slot is. -/
def ofSlot? (name : String) (x : Option Element) : List Element := (x.map (ofSlot name)).toList

/-- The entry of a mapping. -/
def ofEntry (key : Name) (x : Element) : Element := node "entry" [("key", toString key.raw)] [x]

/-- A child that holds a mapping by ascending key. -/
def ofMapping (name : String) (encode : V → Element) (m : NameMap V) : Element :=
  node name [] (m.toList.map fun (key, v) => ofEntry key (encode v))

end Element

end SurfaceTree
