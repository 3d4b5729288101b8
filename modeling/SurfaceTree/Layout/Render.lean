import SurfaceTree.Layout.Doc
import SurfaceTree.Layout.Page

namespace SurfaceTree

/-- How wide lines may get, and how far a level of nesting is indented. -/
structure LayoutConfig where
  maxWidth : Nat
  indentSize : Nat

namespace LayoutConfig

/-- Lines of 100 characters and levels of four spaces. -/
def standard : LayoutConfig := ⟨100, 4⟩

end LayoutConfig

/-- An indentation or a column got too large to be counted. -/
structure LayoutOverflow where

namespace Layout

/-- Whether the lines of a group are laid out as spaces or as line ends. -/
inductive Mode where
  | flat
  | broken
deriving DecidableEq

/-- Columns and indentations are counted in 64 bits. -/
def counted (n : Nat) : Except LayoutOverflow Nat :=
  if n ≤ Doc.unbounded then .ok n else .error ⟨⟩

/-- The page, and how many characters its last line has. -/
structure State where
  page : Page
  column : Nat

/-- The longest run of spaces that can be written. -/
def maxRun : Nat := UInt64.size / 2 - 1

/-- Writes a text and counts its characters. Columns that can no longer be counted are an error. -/
def State.write (s : State) (text : String) : Except LayoutOverflow State := do
  return ⟨s.page.write text, ← counted (s.column + text.length)⟩

/-- Begins a line at an indentation. -/
def State.newline (s : State) (indent : Nat) : Except LayoutOverflow State :=
  if indent ≤ maxRun then .ok ⟨s.page.newline.indent indent, indent⟩ else .error ⟨⟩

mutual
/-- Lays out a document. -/
def layout (config : LayoutConfig) :
    Doc → (indent : Nat) → Mode → State → Except LayoutOverflow State
  | .nil, _, _, s => .ok s
  | .text t, _, _, s => s.write t
  | .hardLine, indent, _, s => s.newline indent
  | .line, indent, .broken, s => s.newline indent
  | .line, _, .flat, s => s.write " "
  | .softLine, indent, .broken, s => s.newline indent
  | .softLine, _, .flat, s => .ok s
  | .concat docs, indent, mode, s => layoutAll config docs indent mode s
  | .nest levels doc, indent, mode, s => do
    let step ← counted (levels * config.indentSize)
    layout config doc (← counted (indent + step)) mode s
  | .group doc, indent, _, s =>
    let fits := Doc.addWidth s.column doc.flatWidth ≤ config.maxWidth
    layout config doc indent (if fits then .flat else .broken) s

/-- Lays out documents one after another in one mode. -/
def layoutAll (config : LayoutConfig) :
    List Doc → (indent : Nat) → Mode → State → Except LayoutOverflow State
  | [], _, _, s => .ok s
  | doc :: rest, indent, mode, s => do
    layoutAll config rest indent mode (← layout config doc indent mode s)
end

end Layout

namespace Doc

/-- Lays out a document after what is on a page already. Columns are counted from where the
document begins. -/
def renderOn (config : LayoutConfig) (page : Page) (doc : Doc) : Except LayoutOverflow Page := do
  return (← Layout.layout config doc 0 .broken ⟨page, 0⟩).page

/-- The text of a document on its own, which starts out broken. -/
def render (config : LayoutConfig) (doc : Doc) : Except LayoutOverflow String := do
  return (← doc.renderOn config .blank).text

end Doc

end SurfaceTree
