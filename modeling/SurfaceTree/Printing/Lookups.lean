import SurfaceTree.Layout.Render
import SurfaceTree.Source
import SurfaceTree.Tree.Literal

namespace SurfaceTree

/-- How names are spelled and spans described. -/
structure Lookups where
  spell : Name → String
  locate : Span → String

/-- The document of a name. -/
def Lookups.name (look : Lookups) (n : Name) : Doc := .text (look.spell n)

end SurfaceTree
