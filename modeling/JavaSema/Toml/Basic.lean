import JavaSema.Toml.Number
import JavaSema.Toml.Table

/-!
# Configuration files

A configuration file is a sequence of lines: headers of tables, definitions of names, comments and
empty lines.  `Toml.parse?` gives the tables of a file, or nothing if the file is not well formed.
-/

namespace JavaSema.Toml

/-- Values are nested, and names have parts, fewer times than this. -/
def nestingLimit : Nat := 80

/-- One part of a name. -/
def namePart : Scan String := do
  let isBare := fun c => Char.isAlphanum c || c == '_' || c == '-'
  let cs ← Scan.span1 isBare <|> basicText <|> literalText
  return String.ofList cs

/-- A name whose parts are divided by dots: all but the last part, and the last one. -/
def name : Scan (List String × String) := do
  let parts ← Scan.separated (do blanks; let p ← namePart; blanks; return p) (Scan.char '.')
  match parts.getLast? with
  | some last => if parts.length < nestingLimit then return (parts.dropLast, last) else Scan.refuse
  | none => Scan.refuse

/-- A truth value. -/
def truth : Scan Value :=
  (do Scan.word ['t', 'r', 'u', 'e']; return .boolean true)
    <|> do Scan.word ['f', 'a', 'l', 's', 'e']; return .boolean false

/-- A value that holds no other values. -/
def scalar : Scan Value :=
  (Value.string <$> text) <|> truth <|> dateOrTime <|> floatNumber <|> based 'x' 16
    <|> based 'o' 8 <|> based 'b' 2 <|> wholeNumber

/-- The values of an array, given how to read one. -/
def elements (value : Scan Value) : Scan Value := do
  Scan.char '['
  space
  let vs ← Scan.optional (Scan.separated (do space; let v ← value; space; return v) (Scan.char ','))
  if vs.isSome then discard (Scan.optional (Scan.char ','))
  space
  Scan.char ']'
  return .array (vs.getD [])

/-- One definition, given how to read a value. -/
def definition (value : Scan Value) : Scan (List String × String × Value) := do
  let (path, last) ← name
  Scan.char '='
  blanks
  let v ← value
  return (path, last, v)

/-- The definitions of a table on one line, given how to read a value. -/
def fields (value : Scan Value) : Scan Value := do
  Scan.char '\x7b'
  blanks
  let ds ← Scan.optional
    (Scan.separated (do let d ← definition value; blanks; return d) (Scan.char ','))
  Scan.char '\x7d'
  let t ← liftM ((ds.getD []).foldlM (fun t (path, last, v) => t.define path last v) Table.blank)
  return t.finish

/-- A value, nested at most that deep. -/
def value : Nat → Scan Value
  | 0 => scalar
  | depth + 1 => elements (value depth) <|> fields (value depth) <|> scalar

/-- One line that is not blank, and what it does to the document. -/
def line (d : Draft) : Scan Draft :=
  (do
      Scan.word ['[', '[']
      let (path, last) ← name
      Scan.word [']', ']']
      lineEnd
      liftM (d.openElement (path ++ [last])))
    <|> (do
      Scan.char '['
      let (path, last) ← name
      Scan.char ']'
      lineEnd
      liftM (d.openTable (path ++ [last])))
    <|> do
      let (path, last, v) ← definition (value (nestingLimit - 1))
      lineEnd
      liftM (d.define path last v)

/-- The lines of a document, as many as the budget allows. -/
def lines : Nat → Draft → Scan Draft
  | 0, d => pure d
  | n + 1, d => do
    if (← Scan.ahead).isEmpty then return d
    let blankLine := do lineEnd; return d
    lines n (← (do blanks; line d) <|> blankLine)

/-- The fields of the document. -/
def parse? (source : String) : Option (List (String × Value)) := do
  let cs := source.toList
  let cs := if cs.head? = some '\ufeff' then cs.drop 1 else cs
  let (d, rest) ← (lines (cs.length + 1) {}).run cs
  if !rest.isEmpty then none
  return Table.finishItems (← d.close).items

end JavaSema.Toml
