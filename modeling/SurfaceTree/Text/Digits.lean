namespace SurfaceTree.Digits

/-- The value of a nonempty run of decimal digits. -/
def run? (cs : List Char) : Option Nat :=
  if cs ≠ [] ∧ cs.all Char.isDigit then some (Nat.ofDigitChars 10 cs 0) else none

/-- Reads a number without minus sign; a plus sign may lead. -/
def natural? : List Char → Option Nat
  | '+' :: cs => run? cs
  | cs => run? cs

/-- Reads a number with an optional sign of either kind. -/
def integer? : List Char → Option Int
  | '-' :: cs => (run? cs).map fun n => -(n : Int)
  | cs => (natural? cs).map fun n => (n : Int)

/-- Reads an unsigned 32-bit number. -/
def word32? (s : String) : Option UInt32 := do
  let n ← natural? s.toList
  if h : n < UInt32.size then some (UInt32.ofNatLT n h) else none

/-- Reads an unsigned 64-bit number. -/
def word64? (s : String) : Option UInt64 := do
  let n ← natural? s.toList
  if h : n < UInt64.size then some (UInt64.ofNatLT n h) else none

/-- Reads a signed 64-bit number. -/
def int64? (s : String) : Option Int64 := do
  let i ← integer? s.toList
  if Int64.minValue.toInt ≤ i ∧ i ≤ Int64.maxValue.toInt then some (Int64.ofInt i) else none

/-- The decimal digits of an integer, after a minus sign if it is negative. -/
def ofInt (i : Int) : String :=
  if i < 0 then "-" ++ toString i.natAbs else toString i.natAbs

/-- Lower-case hexadecimal digits, without leading zeros. -/
def lowerHex (n : Nat) : String := String.ofList (Nat.toDigits 16 n)

/-- Upper-case hexadecimal digits, without leading zeros. -/
def upperHex (n : Nat) : String := String.ofList ((Nat.toDigits 16 n).map Char.toUpper)

end SurfaceTree.Digits
