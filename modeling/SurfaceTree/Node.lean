import SurfaceTree.Canonical.Fingerprint
import SurfaceTree.Codec.Bytes
import SurfaceTree.Codec.Json
import SurfaceTree.Reference
import SurfaceTree.Traversal.Deep

namespace SurfaceTree

variable {R : Type} [Reference R]

namespace Expr

/-- The canonical key of an expression. -/
def key : Expr R → Key := fold fun form => (Kind.expr.map id Reference.key form).key

/-- Canonical order of expressions. The value of an expression is the comparison with it. -/
def compare : Expr R → Expr R → Ordering :=
  fold fun form other => form.compare (fun side e => side e) Reference.compare other.form

/-- The words that an expression is fingerprinted through. -/
def words : Expr R → List UInt64 := fold fun form => form.words id Reference.words

/-- The element of an expression. -/
def encode : Expr R → Element :=
  fold fun form => (Kind.expr.map id Reference.toElement form).toElement

/-- The document of an expression. -/
def doc (look : Lookups) : Expr R → Doc :=
  fold fun form => (Kind.expr.map id (Reference.doc look) form).doc look

end Expr

/-- Why a text or bytes are no node. -/
inductive ReadError where
  | json
  | bytes (error : Bytes.BytesError)
  | element (error : DecodeError)

namespace Node

/-- The canonical key of a node. -/
def key (k : Kind) (n : Node R k) : Key := k.key (k.map Expr.key Reference.key n)

/-- Canonical order. Positions do not count. -/
def compare (k : Kind) (a b : Node R k) : Ordering :=
  k.compare Expr.compare Reference.compare a b

/-- Canonical equality. -/
def same (k : Kind) (a b : Node R k) : Bool := compare k a b == .eq

/-- The words that a node is fingerprinted through. -/
def words (k : Kind) (n : Node R k) : List UInt64 := k.words Expr.words Reference.words n

/-- A hash that equal nodes share. -/
def fingerprint (k : Kind) (n : Node R k) : UInt64 := Fingerprint.ofWords (words k n)

/-- The element of a node. -/
def encode (k : Kind) (n : Node R k) : Element :=
  k.toElement (k.map Expr.encode Reference.toElement n)

/-- Reads a node from its element. -/
def decode (k : Kind) (x : Element) : Except DecodeError (Node R k) :=
  k.decode (Expr.decode Reference.decode) Reference.decode x

/-- A node as JSON text. -/
def toJson (style : Json.Style) (k : Kind) (n : Node R k) : String := Json.write style (encode k n)

/-- Reads a node from JSON text. -/
def ofJson (k : Kind) (text : String) : Except ReadError (Node R k) :=
  match Json.read? text with
  | some x => (decode k x).mapError .element
  | none => .error .json

/-- A node as bytes. -/
def toBytes (k : Kind) (n : Node R k) : List UInt8 := Bytes.write (encode k n)

/-- Reads a node off the front of some bytes. -/
def ofBytes (k : Kind) (bs : List UInt8) : Except ReadError (Node R k) :=
  match Bytes.read bs with
  | .ok x => (decode k x).mapError .element
  | .error e => .error (.bytes e)

/-- The document of a node of a kind that prints on its own. -/
def doc? (look : Lookups) (k : Kind) (n : Node R k) : Option Doc :=
  k.doc? look (k.map (Expr.doc look) (Reference.doc look) n)

/-- The text of a node of a kind that prints on its own. -/
def format? (look : Lookups) (config : LayoutConfig) (k : Kind) (n : Node R k) :
    Option (Except LayoutOverflow String) :=
  (doc? look k n).map (Doc.render config)

/-- Where a node stands, if nodes of its kind have a position. -/
def span? (k : Kind) (n : Node R k) : Option Span := k.span? Expr.span n

/-- The text of a node after the place where it stands. -/
def formatLocated? (look : Lookups) (config : LayoutConfig) (k : Kind) (n : Node R k) :
    Option (Except LayoutOverflow String) := do
  let place := look.locate (← span? k n)
  return (← format? look config k n).map fun text => place ++ ": " ++ text

end Node

end SurfaceTree
