import SurfaceTree.Text.Digits

namespace SurfaceTree

/-- A byte range `start..stop` of one source file. Nothing orders the two ends: a range read from
outside may run backwards, and then only its length is undefined. -/
structure Span where
  start : UInt32
  stop : UInt32
deriving DecidableEq

/-- Why a pair of offsets is no span: spans keep 32-bit offsets. The start is looked at first. -/
inductive SpanError where
  | startTooLarge (offset : Nat)
  | stopTooLarge (offset : Nat)
deriving DecidableEq

namespace Span

/-- The span of nodes that come from no source. -/
def dummy : Span := ⟨0, 0⟩

/-- The empty span at an offset. -/
def point (offset : UInt32) : Span := ⟨offset, offset⟩

/-- The span of two arbitrary offsets, if both fit. -/
def ofRange (start stop : Nat) : Except SpanError Span :=
  if UInt32.size ≤ start then .error (.startTooLarge start)
  else if UInt32.size ≤ stop then .error (.stopTooLarge stop)
  else .ok ⟨UInt32.ofNat start, UInt32.ofNat stop⟩

def isEmpty (s : Span) : Bool := s.start == s.stop

/-- The number of bytes covered. A span that runs backwards has no length. -/
def length? (s : Span) : Option UInt32 :=
  if s.start ≤ s.stop then some (s.stop - s.start) else none

/-- The least span that covers both. -/
def merge (s t : Span) : Span := ⟨min s.start t.start, max s.stop t.stop⟩

/-- Both ends in decimal, as in `3..7`. -/
def text (s : Span) : String := toString s.start ++ ".." ++ toString s.stop

end Span

namespace SpanError

/-- What is wrong with an offset, in decimal and hexadecimal digits. -/
def complaint (which : String) (offset : Nat) : String :=
  "span " ++ which ++ " " ++ toString offset ++ " (0x" ++ Digits.upperHex offset
    ++ ") exceeds u32::MAX"

def message : SpanError → String
  | startTooLarge offset => complaint "start" offset
  | stopTooLarge offset => complaint "end" offset

end SpanError

end SurfaceTree
