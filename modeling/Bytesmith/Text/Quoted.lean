import Bytesmith.Text.Printable

namespace Bytesmith.Text

def hex (n : Nat) : String :=
  String.ofList (Nat.toDigits 16 n)

/-- A character between the quotes of a literal. Six characters have a short form, every other
character that is not printable is given by its code point. -/
def quotedChar (c : Char) : String :=
  if c = '"' then "\\\""
  else if c = '\\' then "\\\\"
  else if c = '\n' then "\\n"
  else if c = '\r' then "\\r"
  else if c = '\t' then "\\t"
  else if c = '\x00' then "\\0"
  else if isPrintable c then c.toString
  else "\\u\x7b" ++ hex c.toNat ++ "\x7d"

def quoted (s : String) : String :=
  "\"" ++ String.join (s.toList.map quotedChar) ++ "\""

end Bytesmith.Text
