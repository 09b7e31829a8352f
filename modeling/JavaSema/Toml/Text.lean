import JavaSema.Text.Utf8
import JavaSema.Toml.Scan

/-!
# Texts in a configuration file

A text stands between double quotes, with escapes, or between single quotes, as it is.  Three quotes
allow line breaks.
-/

namespace JavaSema.Toml

/-- The value of a hexadecimal digit. -/
def hexDigit (c : Char) : Nat :=
  if c.isDigit then c.toNat - '0'.toNat else c.toLower.toNat - 'a'.toNat + 10

/-- Whether the character is a hexadecimal digit. -/
def isHexDigit (c : Char) : Bool :=
  c.isDigit || ('a' ≤ c.toLower && c.toLower ≤ 'f')

/-- The number that digits in a base stand for. -/
def number (base : Nat) (digits : List Char) : Nat :=
  digits.foldl (fun n c => n * base + hexDigit c) 0

/-- The character with the code point that so many digits give. -/
def codePoint (digits : Nat) : Scan Char := do
  let n := number 16 (← Scan.exactly isHexDigit digits)
  if n < 0x110000 && !Text.isSurrogate n then return Char.ofNat n else Scan.refuse

/-- What follows a backslash. -/
def escape : Scan Char := do
  match ← Scan.satisfy fun _ => true with
  | 'b' => return '\x08'
  | 't' => return '\t'
  | 'n' => return '\n'
  | 'f' => return '\x0c'
  | 'r' => return '\r'
  | '"' => return '"'
  | '\\' => return '\\'
  | 'u' => codePoint 4
  | 'U' => codePoint 8
  | _ => Scan.refuse

/-- One character between double quotes. -/
def basicChar : Scan Char := do
  match ← Scan.satisfy fun c => isPlain c && c != '"' with
  | '\\' => escape
  | c => return c

/-- A text between double quotes on one line. -/
def basicText : Scan (List Char) := do
  Scan.char '"'
  let cs ← Scan.many basicChar
  Scan.char '"'
  return cs

/-- A text between single quotes on one line. -/
def literalText : Scan (List Char) := do
  Scan.char '\''
  let cs ← Scan.span fun c => isPlain c && c != '\''
  Scan.char '\''
  return cs

/-- A line break in a text, which always counts as one character. -/
def brokenLine : Scan (List Char) := do newline; return ['\n']

/-- A quote that does not belong to the end of a text. -/
def loneQuote (quote : Char) : Scan (List Char) := do
  if ← Scan.sees (Scan.word [quote, quote, quote]) then Scan.refuse
  Scan.char quote
  return [quote]

/-- A backslash at the end of a line, which takes the line break and all blanks after it away. -/
def joinedLine : Scan (List Char) := do
  Scan.char '\\'
  blanks
  newline
  discard (Scan.many (newline <|> discard (Scan.span1 fun c => c == ' ' || c == '\t')))
  return []

/-- The end of a text between three quotes.  Up to two quotes before it belong to the text. -/
def closing (quote : Char) : Scan (List Char) := do
  let run ← Scan.span (· == quote)
  if 3 ≤ run.length && run.length ≤ 5 then return run.drop 3 else Scan.refuse

/-- A text between three quotes, made of pieces. -/
def longText (quote : Char) (piece : Scan (List Char)) : Scan (List Char) := do
  Scan.word [quote, quote, quote]
  discard (Scan.optional newline)
  let pieces ← Scan.many piece
  return pieces.flatten ++ (← closing quote)

/-- A text of any form. -/
def text : Scan String := do
  let cs ←
    longText '"' (loneQuote '"' <|> joinedLine <|> brokenLine <|> (fun c => [c]) <$> basicChar)
      <|> longText '\'' (loneQuote '\'' <|> brokenLine
        <|> (fun c => [c]) <$> Scan.satisfy fun c => isPlain c && c != '\'')
      <|> basicText <|> literalText
  return String.ofList cs

end JavaSema.Toml
