import JavaSema.Text.Visible

/-!
# Quoted texts

A text between double quotes, in which a backslash stands before quotes, backslashes and the usual
control characters, and other characters that cannot be shown are given by their code point.
-/

namespace JavaSema.Text

/-- The escaped form of a character inside double quotes. -/
def escape (c : Char) : List Char :=
  if c = '\x00' then ['\\', '0']
  else if c = '\t' then ['\\', 't']
  else if c = '\r' then ['\\', 'r']
  else if c = '\n' then ['\\', 'n']
  else if c = '\\' then ['\\', '\\']
  else if c = '"' then ['\\', '"']
  else if isVisible c then [c]
  else ['\\', 'u', '\x7b'] ++ Nat.toDigits 16 c.toNat ++ ['\x7d']

/-- The text between double quotes. -/
def quote (s : String) : String :=
  "\"" ++ String.ofList (s.toList.flatMap escape) ++ "\""

end JavaSema.Text
