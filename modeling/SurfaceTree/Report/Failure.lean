import SurfaceTree.Node
import SurfaceTree.Report.Queue

namespace SurfaceTree

/-- A name that could not be resolved. Where it stands is not known. -/
structure Unresolved where
  name : Name
deriving DecidableEq

namespace Unresolved

/-- The message where no registry is at hand. -/
def message (_ : Unresolved) : String := "unresolved name"

/-- The diagnostic of a name that nothing is found under. It has no place to point at. -/
def toDiagnostic (spell : Name → String) (e : Unresolved) : Diagnostic :=
  { code := .e2001
    severity := .error
    message := "cannot find `" ++ spell e.name ++ "` in any enclosing scope"
    labels := []
    notes := [] }

end Unresolved

/-- A failed proof check. -/
inductive ProofError where
  | undefinedProposition (pos : Span) (name : Name)
  | goalMismatch (pos : Span) (expected found : Expr Symbol)
  | patternMismatch (pos : Span) (pattern : Pattern (Expr Symbol) Symbol)
      (proposition : Expr Symbol)

namespace ProofError

def span : ProofError → Span
  | undefinedProposition pos _ | goalMismatch pos _ _ | patternMismatch pos _ _ => pos

/-- The code of a proof error, by its kind. -/
def code : ProofError → ErrorCode
  | undefinedProposition .. => .e4001
  | goalMismatch .. => .e4002
  | patternMismatch .. => .e4003

/-- The message without what is at fault. -/
def message : ProofError → String
  | undefinedProposition .. => "proof of a proposition that is neither a theorem nor an axiom"
  | goalMismatch .. => "proof does not establish its goal"
  | patternMismatch .. => "pattern does not fit the proposition"

/-- The diagnostic, with the trees at fault as notes. -/
def toDiagnostic (look : Lookups) (config : LayoutConfig) (e : ProofError) :
    Except LayoutOverflow Diagnostic := do
  let primary (text : String) : Label := ⟨e.span, text, true⟩
  let report (message : String) (labels : List Label) (notes : List String) : Diagnostic :=
    { code := e.code, severity := .error, message, labels, notes }
  match e with
  | undefinedProposition _ name =>
    return report ("`" ++ look.spell name ++ "` is neither a theorem nor an axiom")
      [primary "proved here"] []
  | goalMismatch _ expected found =>
    return report e.message
      [primary "this proof", ⟨expected.span, "goal stated here", false⟩]
      ["expected: " ++ (← (expected.doc look).render config),
        "found: " ++ (← (found.doc look).render config)]
  | patternMismatch _ pattern proposition =>
    let patternDoc := (Kind.pattern.map (Expr.doc look) (Reference.doc look) pattern).doc look
    return report e.message
      [primary "this pattern", ⟨proposition.span, "proposition stated here", false⟩]
      ["pattern: " ++ (← patternDoc.render config),
        "proposition: " ++ (← (proposition.doc look).render config)]

end ProofError

end SurfaceTree
