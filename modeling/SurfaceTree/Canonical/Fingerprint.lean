import SurfaceTree.Canonical.Key

namespace SurfaceTree.Fingerprint

/-- The odd multiplier of the mixing step. -/
def multiplier : UInt64 := 0xf1357aea2e62a9c5

/-- Takes one word into the state. -/
def mix (state word : UInt64) : UInt64 := (state + word) * multiplier

/-- The last step brings the well-mixed high bits down. -/
def finish (state : UInt64) : UInt64 := (state <<< 26) ||| (state >>> 38)

/-- The fingerprint of a sequence of words. -/
def ofWords (words : List UInt64) : UInt64 := finish (words.foldl mix 0)

end SurfaceTree.Fingerprint

namespace SurfaceTree

/-- The fingerprint of a key. -/
def Key.fingerprint (k : Key) : UInt64 := Fingerprint.ofWords k.words

end SurfaceTree
