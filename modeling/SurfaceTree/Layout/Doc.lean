namespace SurfaceTree

/-- A text with optional line breaks. -/
inductive Doc where
  | nil
  /-- A piece of text, meant to hold no line break. -/
  | text (s : String)
  /-- A space when flat, a line break otherwise. -/
  | line
  /-- Nothing when flat, a line break otherwise. -/
  | softLine
  /-- Always a line break. -/
  | hardLine
  | concat (docs : List Doc)
  /-- Indents the lines that begin inside by some levels. -/
  | nest (levels : Nat) (doc : Doc)
  /-- Is laid out flat if it fits on the line. -/
  | group (doc : Doc)

namespace Doc

/-- The largest width, which stands for one that cannot be met. -/
def unbounded : Nat := UInt64.size - 1

/-- A sum of widths, which stops at the largest. -/
def addWidth (a b : Nat) : Nat := min (a + b) unbounded

mutual
/-- The width when everything is laid out flat. A hard line does not fit into any. -/
def flatWidth : Doc → Nat
  | nil => 0
  | text s => s.length
  | line => 1
  | softLine => 0
  | hardLine => unbounded
  | concat docs => flatWidthFrom 0 docs
  | nest _ doc => flatWidth doc
  | group doc => flatWidth doc

def flatWidthFrom (width : Nat) : List Doc → Nat
  | [] => width
  | doc :: rest => flatWidthFrom (addWidth width (flatWidth doc)) rest
end

/-- Indents by one level. -/
def indented (doc : Doc) : Doc := nest 1 doc

/-- Documents with a separator between each two. -/
def join (sep : Doc) : List Doc → Doc
  | [] => concat []
  | first :: rest => concat (first :: rest.flatMap fun doc => [sep, doc])

/-- Items between brackets, on one line, or else each on a line of its own and indented. -/
def bracket (opening : String) (items : List Doc) (sep closing : String) : Doc :=
  match items with
  | [] => text (opening ++ closing)
  | items =>
    group (concat
      [text opening,
        indented (concat [softLine, join (concat [text sep, line]) items]),
        softLine,
        text closing])

end Doc

end SurfaceTree
