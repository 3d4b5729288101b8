import SurfaceTree.Span

namespace SurfaceTree

/-- A source file: its path, its characters, its length in bytes, and the offset at which each
line starts. The first line starts at zero and every other one after a line feed. -/
structure Source where
  path : String
  chars : List Char
  size : Nat
  lineStarts : Array Nat

namespace Source

/-- Offsets, lines and columns are kept in 32 bits. What is larger counts as the largest. -/
def capped (n : Nat) : Nat := min n (UInt32.size - 1)

/-- The offsets after each line feed, of characters that begin at an offset. -/
def startsAfter (offset : Nat) : List Char → List Nat
  | [] => []
  | c :: rest =>
    let next := offset + c.utf8Size
    if c = '\n' then capped next :: startsAfter next rest else startsAfter next rest

def ofText (path text : String) : Source :=
  { path
    chars := text.toList
    size := text.utf8ByteSize
    lineStarts := (0 :: startsAfter 0 text.toList).toArray }

/-- Among ascending numbers, of which those before `low` are at most `target` and those from `high`
on exceed it, how many are at most `target`. -/
def countUpTo (starts : Array Nat) (target : Nat) (low high : Nat) : Nat :=
  if low < high then
    let middle := (low + high) / 2
    if starts.getD middle 0 ≤ target then countUpTo starts target (middle + 1) high
    else countUpTo starts target low middle
  else low
termination_by high - low

/-- Where a number is among ascending ones, or else before which of them it belongs. -/
inductive Found where
  | at (index : Nat)
  | before (index : Nat)

def search (starts : Array Nat) (target : Nat) : Found :=
  let count := countUpTo starts target 0 starts.size
  if starts[count - 1]? = some target then .at (count - 1) else .before count

/-- The line of a byte, counted from zero: the last one that starts at it or before it. -/
def lineIndex (s : Source) (offset : Nat) : Nat :=
  match search s.lineStarts offset with
  | .at index => index
  | .before index => index - 1

/-- How many characters take up exactly `size` bytes. There is no answer inside a character. -/
def countWithin : (size : Nat) → List Char → Option Nat
  | 0, _ => some 0
  | _, [] => none
  | size, c :: rest =>
    if c.utf8Size ≤ size then (countWithin (size - c.utf8Size) rest).map (· + 1) else none

/-- The characters from an offset on. There is no answer inside a character. -/
def charsFrom? : (offset : Nat) → List Char → Option (List Char)
  | 0, cs => some cs
  | _, [] => none
  | offset, c :: rest =>
    if c.utf8Size ≤ offset then charsFrom? (offset - c.utf8Size) rest else none

/-- How many characters are between two offsets. There is no answer if one of them is inside a
character. -/
def countBetween (s : Source) (start stop : Nat) : Option Nat :=
  (charsFrom? start s.chars).bind (countWithin (stop - start))

/-- The line and column of a byte, both counted from one. Columns count characters. What lies past
the end counts as the end; a byte inside a character has no column of its own and gets the
first. -/
def lineColumn (s : Source) (offset : UInt32) : Nat × Nat :=
  let line := s.lineIndex offset.toNat
  let start := s.lineStarts.getD line 0
  let stop := max start (min offset.toNat s.size)
  (capped (line + 1), capped ((s.countBetween start stop).getD 0 + 1))

/-- Where a span starts, as in `lib.lm:3:7`. -/
def describe (s : Source) (span : Span) : String :=
  let (line, column) := s.lineColumn span.start
  s.path ++ ":" ++ toString line ++ ":" ++ toString column

end Source

/-- A span where no source is at hand, as in `@3..7`. -/
def Span.describe (s : Span) : String := "@" ++ s.text

end SurfaceTree
