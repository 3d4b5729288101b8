import SurfaceTree.Codec.Element

namespace SurfaceTree.Bytes

/-- Why bytes are no element. -/
inductive BytesError where
  | unexpectedEnd
  | invalidText
  | invalidOption
deriving DecidableEq

/-- A number in `count` bytes, the least significant first. -/
def ofNat : (count : Nat) → Nat → List UInt8
  | 0, _ => []
  | count + 1, n => UInt8.ofNat n :: ofNat count (n / 256)

/-- A length takes eight bytes, the least significant first. -/
def ofLength (n : Nat) : List UInt8 := ofNat 8 n

/-- A text is its length and its UTF-8 bytes. -/
def ofString (s : String) : List UInt8 := ofLength s.utf8ByteSize ++ s.toUTF8.toList

def ofAttr (attr : String × String) : List UInt8 := ofString attr.1 ++ ofString attr.2

/-- An optional text is a zero byte, or a one byte and the text. -/
def ofOption : Option String → List UInt8
  | none => [0]
  | some text => 1 :: ofString text

mutual
/-- Writes an element in front of the bytes that follow it. -/
def writeBefore : Element → List UInt8 → List UInt8
  | ⟨name, attrs, children, text⟩, rest =>
    ofString name ++ (ofLength attrs.length ++ (attrs.flatMap ofAttr
      ++ (ofLength children.length ++ writeAllBefore children (ofOption text ++ rest))))

/-- The bytes of elements one after another, in front of others. -/
def writeAllBefore : List Element → List UInt8 → List UInt8
  | [], rest => rest
  | x :: xs, rest => writeBefore x (writeAllBefore xs rest)
end

/-- Writes an element. -/
def write (x : Element) : List UInt8 := writeBefore x []

/-- Reads a value off the front of some bytes and says what is left. -/
abbrev Reader (α : Type) := List UInt8 → Except BytesError (α × List UInt8)

/-- The next `count` bytes. -/
def take : (count : Nat) → Reader (List UInt8)
  | 0, bs => .ok ([], bs)
  | _ + 1, [] => .error .unexpectedEnd
  | count + 1, b :: bs => do
    let (taken, rest) ← take count bs
    return (b :: taken, rest)

/-- The number of some bytes, the least significant first. -/
def toNat : List UInt8 → Nat
  | [] => 0
  | b :: rest => b.toNat + 256 * toNat rest

/-- Reads the eight bytes of a length. -/
def length : Reader Nat := fun bs => do
  let (digits, rest) ← take 8 bs
  return (toNat digits, rest)

/-- Reads a text. Bytes that are no UTF-8 are refused. -/
def string : Reader String := fun bs => do
  let (size, rest) ← length bs
  let (text, rest) ← take size rest
  match String.fromUTF8? ⟨text.toArray⟩ with
  | some s => return (s, rest)
  | none => .error .invalidText

def attr : Reader (String × String) := fun bs => do
  let (key, rest) ← string bs
  let (value, rest) ← string rest
  return ((key, value), rest)

/-- Reads an optional text. The first byte has to be zero or one. -/
def option : Reader (Option String)
  | [] => .error .unexpectedEnd
  | b :: rest =>
    if b = 0 then .ok (none, rest)
    else if b = 1 then do
      let (text, rest) ← string rest
      return (some text, rest)
    else .error .invalidOption

/-- A given number of items, each of which takes at least a byte. There are at most `room` bytes,
and so no more items than that, whatever number is asked for. -/
def items {α : Type} (item : Reader α) : (room : Nat) → (count : Nat) → Reader (List α)
  | _, 0, bs => .ok ([], bs)
  | 0, _ + 1, _ => .error .unexpectedEnd
  | room + 1, count + 1, bs => do
    let (first, rest) ← item bs
    let (others, rest) ← items item room count rest
    return (first :: others, rest)

/-- A list of items after its length. -/
def listOf {α : Type} (item : Reader α) (room : Nat) : Reader (List α) := fun bs => do
  let (count, rest) ← length bs
  items item room count rest

/-- Reads an element off the front of at most `room` bytes. Its children are read off fewer. -/
def elementWithin : (room : Nat) → Reader Element
  | 0, _ => .error .unexpectedEnd
  | room + 1, bs => do
    let (name, rest) ← string bs
    let (attrs, rest) ← listOf attr room rest
    let (children, rest) ← listOf (elementWithin room) room rest
    let (text, rest) ← option rest
    return (⟨name, attrs, children, text⟩, rest)

/-- Reads an element off the front of some bytes. -/
def read (bs : List UInt8) : Except BytesError Element := do
  let (x, _) ← elementWithin (bs.length + 1) bs
  return x

end SurfaceTree.Bytes
