import JavaSema.Name
import JavaSema.Primitive

/-!
# Types as written

`TypeTree` is the shape of a type as it is written in source, and `TypeTree.text` writes it back.
-/

namespace JavaSema.Source

/-- A type as written in source. -/
inductive TypeTree where
  /-- A primitive type. -/
  | primitive (p : Primitive)
  /-- The keyword of a method that returns nothing. -/
  | void
  /-- The word that leaves the type to inference. -/
  | inferred
  /-- A possibly qualified class name.  The arguments are absent for raw and for non-generic uses, and
  empty for the diamond. -/
  | named (name : QualifiedName) (args : Option (List TypeTree))
  /-- An array. -/
  | array (element : TypeTree) (dims : Nat)
  /-- The wildcard without bounds. -/
  | wild
  /-- The wildcard bounded above. -/
  | wildUpper (bound : TypeTree)
  /-- The wildcard bounded below. -/
  | wildLower (bound : TypeTree)
deriving Inhabited

/-- One pair of brackets for each dimension. -/
def brackets : Nat → String
  | 0 => ""
  | n + 1 => "[]" ++ brackets n

namespace TypeTree

mutual

/-- The text of the type. -/
def text : TypeTree → String
  | primitive p => p.keyword
  | void => "void"
  | inferred => "var"
  | named name args => name.toDotted ++ argsText args
  | array element dims => element.text ++ brackets dims
  | wild => "?"
  | wildUpper bound => "? extends " ++ bound.text
  | wildLower bound => "? super " ++ bound.text

/-- The text of type arguments that may be absent. -/
def argsText : Option (List TypeTree) → String
  | none => ""
  | some ts => "<" ++ listText ts ++ ">"

/-- The texts of the types, separated by commas. -/
def listText : List TypeTree → String
  | [] => ""
  | [t] => t.text
  | t :: u :: ts => t.text ++ ", " ++ listText (u :: ts)

end

end TypeTree

end JavaSema.Source
