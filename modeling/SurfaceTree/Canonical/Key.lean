namespace SurfaceTree

/-- What counts in a node. A record has a fixed number of parts that its kind determines; a list
says how many items it has. -/
inductive Key where
  | number (value : Int)
  | record (parts : List Key)
  | list (items : List Key)

namespace Key

mutual
/-- Numbers by value; records and lists part by part, of which the shorter one comes first if it
is where the other begins. -/
def compare : Key → Key → Ordering
  | number a, number b => Ord.compare a b
  | number _, _ => .lt
  | record _, number _ => .gt
  | record as, record bs => compareAll as bs
  | record _, list _ => .lt
  | list as, list bs => compareAll as bs
  | list _, _ => .gt

/-- Lists of keys item by item. The shorter one comes first if it is where the other begins. -/
def compareAll : List Key → List Key → Ordering
  | [], [] => .eq
  | [], _ :: _ => .lt
  | _ :: _, [] => .gt
  | a :: as, b :: bs => (compare a b).then (compareAll as bs)
end

mutual
/-- The numbers of a key from left to right as 64-bit words, negative ones in two's complement. A
list begins with its length, so that the words of two keys of one kind can be told apart. -/
def words : Key → List UInt64
  | number value => [UInt64.ofInt value]
  | record parts => wordsOfAll parts
  | list items => UInt64.ofNat items.length :: wordsOfAll items

/-- The words of keys one after another, without a length in front. -/
def wordsOfAll : List Key → List UInt64
  | [] => []
  | k :: rest => words k ++ wordsOfAll rest
end

def ofNat (n : Nat) : Key := number n

def ofBool (b : Bool) : Key := number (if b then 1 else 0)

/-- Nothing comes before something. -/
def ofOption : Option Key → Key
  | none => record [number 0]
  | some k => record [number 1, k]

end Key

end SurfaceTree
