import SurfaceTree.Source

namespace SurfaceTree

/-- The code of a kind of problem. The first digit tells the stage: two for name resolution, four
for proof checking, nine for the reporting itself. -/
inductive ErrorCode where
  /-- A name that no enclosing scope binds. -/
  | e2001
  /-- The proof of something that is neither a theorem nor an axiom. -/
  | e4001
  /-- A proof that does not establish its goal. -/
  | e4002
  /-- A proof pattern that does not fit the proposition it takes apart. -/
  | e4003
  /-- Too many errors. -/
  | e9002
deriving DecidableEq

namespace ErrorCode

def all : List ErrorCode := [e2001, e4001, e4002, e4003, e9002]

/-- The code as it is shown. -/
def text : ErrorCode → String
  | e2001 => "E2001"
  | e4001 => "E4001"
  | e4002 => "E4002"
  | e4003 => "E4003"
  | e9002 => "E9002"

def isProofError : ErrorCode → Bool
  | e4001 | e4002 | e4003 => true
  | e2001 | e9002 => false

/-- Codes are ordered by their number. -/
def compare (a b : ErrorCode) : Ordering := Ord.compare (all.idxOf a) (all.idxOf b)

end ErrorCode

/-- How grave a problem is. Only errors count towards the limit of a queue. -/
inductive Severity where
  | error
  | warning
  | note
deriving DecidableEq

def Severity.text : Severity → String
  | .error => "error"
  | .warning => "warning"
  | .note => "note"

/-- A span with a message. The first primary label says where the problem is. -/
structure Label where
  span : Span
  message : String
  isPrimary : Bool
deriving DecidableEq

/-- A reported problem. Trees it speaks of are texts already. -/
structure Diagnostic where
  code : ErrorCode
  severity : Severity
  message : String
  labels : List Label
  notes : List String
deriving DecidableEq

namespace Diagnostic

/-- The span of the first primary label. -/
def primarySpan? (d : Diagnostic) : Option Span := (d.labels.find? (·.isPrimary)).map (·.span)

/-- Whether a diagnostic reports an error. -/
def isError (d : Diagnostic) : Bool := d.severity == .error

/-- One line for the message, one for each label, one for each note. -/
def render (locate : Span → String) (d : Diagnostic) : String :=
  let head := d.severity.text ++ " [" ++ d.code.text ++ "]: " ++ d.message
  let labels := d.labels.map fun l =>
    "\n  " ++ (if l.isPrimary then "-->" else "   ") ++ " " ++ locate l.span ++ ": " ++ l.message
  let notes := d.notes.map fun note => "\n  = note: " ++ note
  head ++ String.join labels ++ String.join notes

end Diagnostic

end SurfaceTree
