import SurfaceTree.Canonical.Fingerprint
import SurfaceTree.VisibilityTable

namespace SurfaceTree

namespace Fingerprint

/-- What the first half of a block starts from. -/
def firstSeed : UInt64 := 0x243f6a8885a308d3

/-- What the second half of a block starts from. -/
def secondSeed : UInt64 := 0x13198a2e03707344

/-- Keeps words that are zero from making the whole product zero. -/
def filler : UInt64 := 0xa4093822299f31d0

/-- The high and the low word of a product, laid over each other. -/
def foldedProduct (a b : UInt64) : UInt64 :=
  let product := a.toNat * b.toNat
  .ofNat product ^^^ .ofNat (product / UInt64.size)

/-- Presses a block of four words, which is 32 bytes, into one. -/
def pack (a b c d : UInt64) : UInt64 :=
  let half := foldedProduct (firstSeed ^^^ a) (filler ^^^ b)
  foldedProduct (secondSeed ^^^ c) (half ^^^ d) ^^^ 32

end Fingerprint

namespace VisibilityTable

/-- The words of a table of numbers: how many there are, and the word of their block. -/
def numberWords (t : VisibilityTable Int64) : List UInt64 :=
  [4, Fingerprint.pack t.hidden.toUInt64 t.priv.toUInt64 t.prot.toUInt64 t.pub.toUInt64]

def numberFingerprint (t : VisibilityTable Int64) : UInt64 := Fingerprint.ofWords t.numberWords

end VisibilityTable

end SurfaceTree
