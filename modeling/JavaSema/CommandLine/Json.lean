import JavaSema.Text.Split

/-!
# Reports as JSON

The part of JSON that reports use, and its written form with one value per line, indented by two
blanks per level.
-/

namespace JavaSema

/-- A JSON value, as far as reports use them. -/
inductive Json where
  | null
  | boolean (b : Bool)
  | string (s : String)
  | array (elements : List Json)
  | object (fields : List (String × Json))
deriving Inhabited

namespace Json

/-- The written form of a character in a text.  Only quotes, backslashes and control characters are
escaped. -/
def escape (c : Char) : List Char :=
  if c = '"' then ['\\', '"']
  else if c = '\\' then ['\\', '\\']
  else if c = '\x08' then ['\\', 'b']
  else if c = '\x0c' then ['\\', 'f']
  else if c = '\n' then ['\\', 'n']
  else if c = '\r' then ['\\', 'r']
  else if c = '\t' then ['\\', 't']
  else if c.toNat < 0x20 then
    ['\\', 'u', '0', '0', Nat.digitChar (c.toNat / 16), Nat.digitChar (c.toNat % 16)]
  else [c]

/-- The written form of a text. -/
def quote (s : String) : String :=
  "\"" ++ String.ofList (s.toList.flatMap escape) ++ "\""

/-- A new line at a level. -/
def newLine (level : Nat) : String := "\n" ++ String.ofList (List.replicate (2 * level) ' ')

/-- Items between brackets, each on a line of its own one level further in. -/
def enclose (opening closing : String) (level : Nat) (items : List String) : String :=
  if items.isEmpty then opening ++ closing
  else opening ++ newLine (level + 1) ++ Text.join ("," ++ newLine (level + 1)) items
    ++ newLine level ++ closing

mutual

/-- The written form of a value that starts at a level. -/
def pretty (level : Nat) : Json → String
  | .null => "null"
  | .boolean b => if b then "true" else "false"
  | .string s => quote s
  | .array elements => enclose "[" "]" level (prettyAll (level + 1) elements)
  | .object fields => enclose "\x7b" "\x7d" level (prettyFields (level + 1) fields)

/-- The written forms of values that start at a level. -/
def prettyAll (level : Nat) : List Json → List String
  | [] => []
  | j :: rest => pretty level j :: prettyAll level rest

/-- The written forms of fields that start at a level. -/
def prettyFields (level : Nat) : List (String × Json) → List String
  | [] => []
  | (name, j) :: rest => (quote name ++ ": " ++ pretty level j) :: prettyFields level rest

end

/-- An array of texts. -/
def strings (l : List String) : Json := .array (l.map .string)

end Json

end JavaSema
