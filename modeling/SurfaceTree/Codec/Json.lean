import SurfaceTree.Codec.Element

namespace SurfaceTree.Json

/-- A character of a string as it stands between quotes. Controls have a short escape or, where
there is none, one by their code point. -/
def escaped (c : Char) : List Char :=
  match c with
  | '"' => ['\\', '"']
  | '\\' => ['\\', '\\']
  | '\x08' => ['\\', 'b']
  | '\x09' => ['\\', 't']
  | '\x0a' => ['\\', 'n']
  | '\x0c' => ['\\', 'f']
  | '\x0d' => ['\\', 'r']
  | c =>
    if c.toNat < 0x20 then
      ['\\', 'u', '0', '0', Nat.digitChar (c.toNat / 16), Nat.digitChar (c.toNat % 16)]
    else [c]

/-- A string between quotes. -/
def quoted (s : String) (rest : List Char) : List Char :=
  '"' :: (s.toList.flatMap escaped ++ '"' :: rest)

/-- How nested values are laid out: on one line, or an item a line with two spaces a level. -/
inductive Style where
  | compact
  | pretty
deriving DecidableEq

namespace Style

/-- A new line, where the style has one. -/
def lineBreak (level : Nat) : Style → List Char → List Char
  | compact, rest => rest
  | pretty, rest => '\n' :: (List.replicate (2 * level) ' ' ++ rest)

/-- What stands between the key of a member and its value. -/
def colon : Style → List Char → List Char
  | compact, rest => ':' :: rest
  | pretty, rest => ':' :: ' ' :: rest

end Style

/-- The items of an array that has a first one, each after a comma, up to the closing bracket. -/
def furtherItems (style : Style) (level : Nat) (items : List (List Char → List Char))
    (rest : List Char) : List Char :=
  items.foldr (fun item rest => ',' :: style.lineBreak (level + 1) (item rest))
    (style.lineBreak level (']' :: rest))

/-- Items between brackets. An empty array has nothing between them in either style. -/
def array (style : Style) (level : Nat) (items : List (List Char → List Char))
    (rest : List Char) : List Char :=
  match items with
  | [] => '[' :: ']' :: rest
  | first :: others =>
    '[' :: style.lineBreak (level + 1) (first (furtherItems style level others rest))

/-- The key of a member of an object. -/
def key (style : Style) (level : Nat) (word : String) (rest : List Char) : List Char :=
  style.lineBreak level (quoted word (style.colon rest))

/-- An attribute is an array of its key and its value. -/
def attrPair (style : Style) (level : Nat) (attr : String × String) (rest : List Char) :
    List Char :=
  array style level [quoted attr.1, quoted attr.2] rest

/-- A missing text is written as `null`. -/
def optional : Option String → List Char → List Char
  | none, rest => "null".toList ++ rest
  | some text, rest => quoted text rest

mutual
/-- The text of an element at a level of nesting. -/
def element (style : Style) (level : Nat) : Element → List Char → List Char
  | ⟨name, attrs, children, text⟩, rest =>
    let inner := level + 1
    '\x7b' :: key style inner "name" (quoted name (',' ::
      key style inner "attrs" (array style inner (attrs.map (attrPair style (inner + 1))) (',' ::
      key style inner "children" (array style inner (elements style (inner + 1) children) (',' ::
      key style inner "text" (optional text (style.lineBreak level ('\x7d' :: rest)))))))))

def elements (style : Style) (level : Nat) : List Element → List (List Char → List Char)
  | [] => []
  | x :: rest => element style level x :: elements style level rest
end

/-- Writes an element. -/
def write (style : Style) (x : Element) : String := String.ofList (element style 0 x [])

/-- Reads a value off the front of a text and says what is left. -/
abbrev Reader (α : Type) := List Char → Option (α × List Char)

/-- How many arrays and objects may be nested in each other. -/
def maxNesting : Nat := 127

/-- The four characters that JSON has as blanks. -/
def isBlank (c : Char) : Bool := c == ' ' || c == '\n' || c == '\t' || c == '\r'

/-- Leaves out blanks. -/
def skip (cs : List Char) : List Char := cs.dropWhile isBlank

/-- The rest after a given character. -/
def expect (c : Char) : List Char → Option (List Char)
  | d :: rest => if d = c then some rest else none
  | [] => none

/-- The rest after a given word. -/
def expectWord : List Char → List Char → Option (List Char)
  | [], cs => some cs
  | c :: word, cs => expect c cs >>= expectWord word

def hexDigit? (c : Char) : Option Nat :=
  if '0' ≤ c ∧ c ≤ '9' then some (c.toNat - '0'.toNat)
  else if 'a' ≤ c ∧ c ≤ 'f' then some (c.toNat - 'a'.toNat + 10)
  else if 'A' ≤ c ∧ c ≤ 'F' then some (c.toNat - 'A'.toNat + 10)
  else none

def hex4? (a b c d : Char) : Option Nat := do
  return (((← hexDigit? a) * 16 + (← hexDigit? b)) * 16 + (← hexDigit? c)) * 16 + (← hexDigit? d)

/-- The character of a short escape. -/
def shortEscape? : Char → Option Char
  | '"' => some '"'
  | '\\' => some '\\'
  | '/' => some '/'
  | 'b' => some '\x08'
  | 'f' => some '\x0c'
  | 'n' => some '\n'
  | 'r' => some '\r'
  | 't' => some '\t'
  | _ => none

/-- The inside of a string up to its closing quote. Controls have to be escaped, and code points
past the first plane come as two escapes that belong together. -/
def stringBody : Reader (List Char)
  | [] => none
  | '"' :: rest => some ([], rest)
  | '\\' :: 'u' :: a :: b :: c :: d :: rest => do
    let unit ← hex4? a b c d
    if 0xD800 ≤ unit ∧ unit ≤ 0xDBFF then
      match rest with
      | '\\' :: 'u' :: a' :: b' :: c' :: d' :: rest' =>
        let low ← hex4? a' b' c' d'
        if 0xDC00 ≤ low ∧ low ≤ 0xDFFF then
          let (cs, rest'') ← stringBody rest'
          return (Char.ofNat (0x10000 + (unit - 0xD800) * 0x400 + (low - 0xDC00)) :: cs, rest'')
        else none
      | _ => none
    else if 0xDC00 ≤ unit ∧ unit ≤ 0xDFFF then none
    else
      let (cs, rest') ← stringBody rest
      return (Char.ofNat unit :: cs, rest')
  | '\\' :: c :: rest => do
    let e ← shortEscape? c
    let (cs, rest') ← stringBody rest
    return (e :: cs, rest')
  | c :: rest =>
    if c.toNat < 0x20 ∨ c = '\\' then none
    else do
      let (cs, rest') ← stringBody rest
      return (c :: cs, rest')

/-- Reads a string with its quotes. -/
def string : Reader String := fun cs => do
  let (body, rest) ← stringBody (← expect '"' cs)
  return (String.ofList body, rest)

/-- The items of an array after its opening bracket, if there are any. Here and below, `room` is no
less than the number of characters left, and so bounds how many items or members can follow. -/
def items {α : Type} (item : Reader α) : (room : Nat) → Reader (List α)
  | 0, _ => none
  | room + 1, cs => do
    let (first, rest) ← item (skip cs)
    match skip rest with
    | ',' :: rest => do
      let (others, rest) ← items item room rest
      return (first :: others, rest)
    | ']' :: rest => return ([first], rest)
    | _ => none

/-- An array of items. -/
def arrayOf {α : Type} (item : Reader α) (room : Nat) : Reader (List α) := fun cs => do
  let cs ← expect '[' cs
  match skip cs with
  | ']' :: rest => return ([], rest)
  | rest => items item room rest

/-- An array of exactly two strings. -/
def pair : Reader (String × String) := fun cs => do
  let cs ← expect '[' cs
  let (key, cs) ← string (skip cs)
  let cs ← expect ',' (skip cs)
  let (value, cs) ← string (skip cs)
  let cs ← expect ']' (skip cs)
  return ((key, value), cs)

/-- A string, or nothing. -/
def optionalString : Reader (Option String)
  | 'n' :: rest => do return (none, ← expectWord "ull".toList rest)
  | cs => do
    let (text, rest) ← string cs
    return (some text, rest)

/-- Passes over a string whose contents do not matter, so that its escapes need not name
characters. -/
def passString : List Char → Option (List Char)
  | [] => none
  | '"' :: rest => some rest
  | '\\' :: 'u' :: a :: b :: c :: d :: rest => do
    let _ ← hex4? a b c d
    passString rest
  | '\\' :: c :: rest => do
    let _ ← shortEscape? c
    passString rest
  | c :: rest => if c.toNat < 0x20 ∨ c = '\\' then none else passString rest

def passDigits (cs : List Char) : List Char := cs.dropWhile Char.isDigit

/-- Passes over at least one digit. -/
def passDigits1 : List Char → Option (List Char)
  | c :: rest => if c.isDigit then some (passDigits rest) else none
  | [] => none

/-- Passes over an exponent, if there is one. -/
def passExponent : List Char → Option (List Char)
  | c :: rest =>
    if c = 'e' ∨ c = 'E' then
      match rest with
      | '+' :: rest => passDigits1 rest
      | '-' :: rest => passDigits1 rest
      | rest => passDigits1 rest
    else some (c :: rest)
  | [] => some []

/-- Passes over a number without its minus sign. -/
def passNumber (cs : List Char) : Option (List Char) := do
  let rest ←
    match cs with
    | '0' :: rest => if (rest.head?.map Char.isDigit).getD false then none else some rest
    | cs => passDigits1 cs
  match rest with
  | '.' :: rest => passDigits1 rest >>= passExponent
  | rest => passExponent rest

mutual
/-- Passes over any value. Every other step at least takes a character, so twice as many steps as
there are characters always suffice. -/
def passValue : Nat → List Char → Option (List Char)
  | 0, _ => none
  | steps + 1, cs =>
    match skip cs with
    | 'n' :: rest => expectWord "ull".toList rest
    | 't' :: rest => expectWord "rue".toList rest
    | 'f' :: rest => expectWord "alse".toList rest
    | '"' :: rest => passString rest
    | '-' :: rest => passNumber rest
    | '[' :: rest =>
      match skip rest with
      | ']' :: rest => some rest
      | rest => passItems steps rest
    | '\x7b' :: rest =>
      match skip rest with
      | '\x7d' :: rest => some rest
      | rest => passMembers steps rest
    | cs => passNumber cs

/-- Passes over the items of an array up to its end. -/
def passItems : Nat → List Char → Option (List Char)
  | 0, _ => none
  | steps + 1, cs => do
    match skip (← passValue steps cs) with
    | ',' :: rest => passItems steps rest
    | ']' :: rest => some rest
    | _ => none

/-- Passes over the members of an object up to its end. -/
def passMembers : Nat → List Char → Option (List Char)
  | 0, _ => none
  | steps + 1, cs => do
    let rest ← passString (← expect '"' (skip cs))
    let rest ← expect ':' (skip rest)
    match skip (← passValue steps rest) with
    | ',' :: rest => passMembers steps rest
    | '\x7d' :: rest => some rest
    | _ => none
end

/-- The members of an element found so far. -/
structure Members where
  name : Option String
  attrs : Option (List (String × String))
  children : Option (List Element)
  text : Option (Option String)

/-- The element of its members. Only the text may be left out. -/
def Members.toElement? (found : Members) : Option Element := do
  return ⟨← found.name, ← found.attrs, ← found.children, found.text.getD none⟩

/-- Stores a member that has not been found before. -/
def once {α : Type} (old : Option α) (read : Reader α) (cs : List Char)
    (store : α → Members) : Option (Members × List Char) :=
  match old with
  | some _ => none
  | none => do
    let (value, rest) ← read cs
    return (store value, rest)

/-- Reads the value of a member, given how attribute lists and child lists are read. -/
def memberValue (room : Nat) (attrs : Reader (List (String × String)))
    (children : Reader (List Element)) (found : Members) (key : String) (cs : List Char) :
    Option (Members × List Char) :=
  match key with
  | "name" => once found.name string cs fun name => { found with name := some name }
  | "attrs" => once found.attrs attrs cs fun attrs => { found with attrs := some attrs }
  | "children" =>
    once found.children children cs fun children => { found with children := some children }
  | "text" => once found.text optionalString cs fun text => { found with text := some text }
  | _ => do return (found, ← passValue (2 * room + 2) cs)

/-- The members of an object after its opening brace. -/
def members (attrs : Reader (List (String × String))) (children : Reader (List Element)) :
    (room : Nat) → Members → Reader Members
  | 0, _, _ => none
  | room + 1, found, cs => do
    let (key, rest) ← string (skip cs)
    let rest ← expect ':' (skip rest)
    let (found, rest) ← memberValue room attrs children found key (skip rest)
    match skip rest with
    | ',' :: rest => members attrs children room found rest
    | '\x7d' :: rest => return (found, rest)
    | _ => none

/-- The four values of an element in array form, after the opening bracket. -/
def fourValues (attrs : Reader (List (String × String))) (children : Reader (List Element)) :
    Reader Element := fun cs => do
  let (name, cs) ← string (skip cs)
  let cs ← expect ',' (skip cs)
  let (attrs, cs) ← attrs (skip cs)
  let cs ← expect ',' (skip cs)
  let (children, cs) ← children (skip cs)
  let cs ← expect ',' (skip cs)
  let (text, cs) ← optionalString (skip cs)
  let cs ← expect ']' (skip cs)
  return (⟨name, attrs, children, text⟩, cs)

/-- The attributes of an element, two levels of arrays. -/
def attrsWithin (room nesting : Nat) : Reader (List (String × String)) := fun cs =>
  match nesting with
  | _ + 2 => arrayOf pair room cs
  | 1 => do
    match skip (← expect '[' cs) with
    | ']' :: rest => return ([], rest)
    | _ => none
  | 0 => none

/-- Reads an element that may take up some levels of nesting. -/
def elementWithin (room : Nat) : (nesting : Nat) → Reader Element
  | 0, _ => none
  | 1, _ => none
  | nesting + 2, cs =>
    let attrs := attrsWithin room (nesting + 1)
    let children := arrayOf (elementWithin room nesting) room
    match cs with
    | '\x7b' :: rest => do
      let (found, rest) ← members attrs children room ⟨none, none, none, none⟩ rest
      return (← found.toElement?, rest)
    | '[' :: rest => fourValues attrs children rest
    | _ => none

/-- Reads an element from a text that holds nothing else. -/
def read? (text : String) : Option Element := do
  let (x, rest) ← elementWithin text.length maxNesting (skip text.toList)
  if (skip rest).isEmpty then some x else none

end SurfaceTree.Json
