import JavaSema.Source.TypeTree
import JavaSema.Text.Letter

/-!
# Reading types

`TypeTree.parse` reads a type as written in source.  White space may stand between any two words.

## Implementation notes

Each parser takes the text that is left and returns what is left after it.  The mutually recursive
ones take a budget; each nested call comes after a character that it does not see, so the number of
characters is enough.
-/

namespace JavaSema.Source

/-- Why a text is not a type. -/
inductive TypeTextFault where
  /-- An identifier is missing. -/
  | expectedIdentifier
  /-- A type argument is followed neither by another one nor by the closing bracket. -/
  | expectedSeparator
  /-- An opening bracket is not closed. -/
  | expectedBracket
  /-- The type is followed by something else. -/
  | trailingInput
deriving DecidableEq, Inhabited

/-- The text of the fault. -/
def TypeTextFault.message : TypeTextFault → String
  | expectedIdentifier => "expected identifier"
  | expectedSeparator => "expected `,` or `>`"
  | expectedBracket => "expected `]`"
  | trailingInput => "trailing input"

/-- A text that is not a type. -/
structure TypeTextError where
  /-- The text. -/
  text : String
  /-- The byte at which reading stopped. -/
  offset : Nat
  /-- What is wrong there. -/
  fault : TypeTextFault
deriving DecidableEq, Inhabited

/-- The text of the error. -/
def TypeTextError.message (e : TypeTextError) : String :=
  "invalid type `" ++ e.text ++ "` at offset " ++ toString e.offset ++ ": " ++ e.fault.message

namespace TypeTree

/-- What a parser returns: a value, or a fault and the text at it. -/
abbrev Parse := Except (TypeTextFault × List Char)

/-- Whether the character can stand in an identifier. -/
def isIdentifierChar (c : Char) : Bool := Text.isLetterOrNumber c || c = '_' || c = '$'

/-- What follows the character, if it comes next. -/
def eat (c : Char) (s : List Char) : Option (List Char) :=
  match Text.trimStartChars s with
  | d :: rest => if d = c then some rest else none
  | [] => none

/-- What follows the word, if it comes next and no identifier character follows it. -/
def eatWord (word : String) (s : List Char) : Option (List Char) :=
  match Text.stripStartChars? word.toList (Text.trimStartChars s) with
  | some (c :: rest) => if isIdentifierChar c then none else some (c :: rest)
  | some [] => some []
  | none => none

/-- Reads an identifier. -/
def identifier (s : List Char) : Parse (String × List Char) :=
  match (Text.trimStartChars s).span isIdentifierChar with
  | ([], rest) => .error (.expectedIdentifier, rest)
  | (c :: cs, rest) => .ok (String.ofList (c :: cs), rest)

/-- Reads further segments of a name, each after a dot. -/
def segments : Nat → List Char → Parse (List String × List Char)
  | 0, s => .ok ([], s)
  | budget + 1, s =>
    match eat '.' s with
    | none => .ok ([], s)
    | some rest => do
      let (name, rest) ← identifier rest
      let (names, rest) ← segments budget rest
      return (name :: names, rest)

/-- Reads pairs of brackets and counts them. -/
def dimensions : Nat → List Char → Parse (Nat × List Char)
  | 0, s => .ok (0, s)
  | budget + 1, s =>
    match eat '[' s with
    | none => .ok (0, s)
    | some rest =>
      match eat ']' rest with
      | none => .error (.expectedBracket, Text.trimStartChars rest)
      | some rest => do
        let (n, rest) ← dimensions budget rest
        return (n + 1, rest)

/-- The type with that many dimensions; without any it stays as it is. -/
def withDimensions (t : TypeTree) (dims : Nat) : TypeTree :=
  if dims = 0 then t else .array t dims

mutual

/-- Reads a type. -/
def parseType : Nat → List Char → Parse (TypeTree × List Char)
  | 0, s => .error (.expectedIdentifier, Text.trimStartChars s)
  | budget + 1, s =>
    match eat '?' s with
    | some rest =>
      match eatWord "extends" rest, eatWord "super" rest with
      | some rest, _ => do
        let (bound, rest) ← parseType budget rest
        return (.wildUpper bound, rest)
      | none, some rest => do
        let (bound, rest) ← parseType budget rest
        return (.wildLower bound, rest)
      | none, none => .ok (.wild, rest)
    | none => do
      let (first, rest) ← identifier s
      let (element, rest) ←
        if first == "void" then pure (TypeTree.void, rest)
        else if first == "var" then pure (TypeTree.inferred, rest)
        else
          match Primitive.ofKeyword? first with
          | some p => pure (TypeTree.primitive p, rest)
          | none => do
            let (more, rest) ← segments rest.length rest
            let (args, rest) ← parseArgs budget rest
            pure (TypeTree.named ⟨first :: more⟩ args, rest)
      let (dims, rest) ← dimensions rest.length rest
      return (element.withDimensions dims, rest)

/-- Reads type arguments in angle brackets, if there are any. -/
def parseArgs : Nat → List Char → Parse (Option (List TypeTree) × List Char)
  | 0, s => .ok (none, s)
  | budget + 1, s =>
    match eat '<' s with
    | none => .ok (none, s)
    | some rest =>
      match eat '>' rest with
      | some rest => .ok (some [], rest)
      | none => do
        let (args, rest) ← parseArgList budget rest
        return (some args, rest)

/-- Reads one or more types, separated by commas, up to the closing bracket. -/
def parseArgList : Nat → List Char → Parse (List TypeTree × List Char)
  | 0, s => .error (.expectedIdentifier, Text.trimStartChars s)
  | budget + 1, s => do
    let (t, rest) ← parseType budget s
    match eat '>' rest with
    | some rest => return ([t], rest)
    | none =>
      match eat ',' rest with
      | some rest =>
        let (ts, rest) ← parseArgList budget rest
        return (t :: ts, rest)
      | none => .error (.expectedSeparator, Text.trimStartChars rest)

end

/-- A budget that reading the text cannot exhaust. -/
def parseBudget (s : List Char) : Nat := 3 * s.length + 3

/-- Reads a whole type from characters. -/
def parseChars (s : List Char) : Parse TypeTree := do
  let (t, rest) ← parseType (parseBudget s) s
  match Text.trimStartChars rest with
  | [] => return t
  | c :: cs => throw (.trailingInput, c :: cs)

/-- Reads a whole type. -/
def parse (text : String) : Except TypeTextError TypeTree :=
  match parseChars text.toList with
  | .ok t => .ok t
  | .error (fault, rest) =>
    .error { text, offset := text.utf8ByteSize - (String.ofList rest).utf8ByteSize, fault }

end TypeTree

end JavaSema.Source
