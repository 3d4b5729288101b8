namespace SurfaceTree

/-- Text written so far, kept from its end to its beginning. -/
structure Page where
  reversed : List Char
deriving DecidableEq

namespace Page

def blank : Page := ⟨[]⟩

/-- The characters written, in order. -/
def chars (p : Page) : List Char := p.reversed.reverse

/-- The text on the page. -/
def text (p : Page) : String := String.ofList p.chars

/-- Appends characters to the line. -/
def write (p : Page) (s : String) : Page := ⟨s.toList.reverseAux p.reversed⟩

/-- Ends the line, without the spaces at its end. -/
def newline (p : Page) : Page := ⟨'\n' :: p.reversed.dropWhile (· == ' ')⟩

/-- Begins the line with spaces. -/
def indent (p : Page) (spaces : Nat) : Page := ⟨List.replicate spaces ' ' ++ p.reversed⟩

end Page

end SurfaceTree
