import StylusToScss.Text.Printable

/-!
# A character in quotes

Messages show a character between single quotes. The quote itself, the backslash and the common
controls are escaped by a letter; every other character that cannot be shown is escaped by its code
point in hexadecimal.
-/

namespace StylusToScss.Text

/-- The characters that stand for `c` between quotes. -/
def escaped (c : Char) : List Char :=
  if c = '\x00' then ['\\', '0']
  else if c = '\t' then ['\\', 't']
  else if c = '\r' then ['\\', 'r']
  else if c = '\n' then ['\\', 'n']
  else if c = '\'' then ['\\', '\'']
  else if c = '\\' then ['\\', '\\']
  else if isShown c then [c]
  else ['\\', 'u', '\x7b'] ++ Nat.toDigits 16 c.toNat ++ ['\x7d']

/-- The character between single quotes. -/
def quoted (c : Char) : String :=
  String.ofList ('\'' :: escaped c ++ ['\''])

end StylusToScss.Text
