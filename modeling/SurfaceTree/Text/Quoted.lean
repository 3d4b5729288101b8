import SurfaceTree.Text.Digits
import SurfaceTree.Text.Printable

namespace SurfaceTree.Quoted

/-- A character by its code point. -/
def codePoint (c : Char) : String := "\\u\x7b" ++ Digits.lowerHex c.toNat ++ "\x7d"

/-- A character as it stands between quotes of the kind `quote`. The other kind of quote needs no
escape. -/
def char (quote c : Char) : String :=
  match c with
  | '\x00' => "\\0"
  | '\t' => "\\t"
  | '\r' => "\\r"
  | '\n' => "\\n"
  | '\\' => "\\\\"
  | c =>
    if c = quote then "\\" ++ String.singleton c
    else if Printable.standsAlone c then String.singleton c
    else codePoint c

/-- A string in double quotes, with everything escaped that would not show as a character of its
own. -/
def string (s : String) : String :=
  "\"" ++ String.join (s.toList.map (char '"')) ++ "\""

/-- A character in single quotes. -/
def character (c : Char) : String := "'" ++ char '\'' c ++ "'"

end SurfaceTree.Quoted
