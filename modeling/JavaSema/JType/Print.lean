import JavaSema.JType.Basic

/-!
# The text of a type

A wildcard is written with its bound, a type variable by its name, and any other type by its binary
name with its type arguments.  Array dimensions follow.
-/

namespace JavaSema.JType

/-- One pair of brackets for each dimension. -/
def brackets : Nat → String
  | 0 => ""
  | n + 1 => "[]" ++ brackets n

mutual

/-- The text of the type. -/
def text : JType → String
  | { name, args, dims, upper, lower, var, wildcard, .. } =>
    if wildcard then
      match lower, upper with
      | b :: _, _ => "? super " ++ b.text
      | [], b :: _ => if b.isObject then "?" else "? extends " ++ b.text
      | [], [] => "?"
    else
      match var, args with
      | some v, _ => v ++ brackets dims
      | none, none => name ++ brackets dims
      | none, some ts => name ++ "<" ++ textList ts ++ ">" ++ brackets dims

/-- The texts of the types, separated by commas. -/
def textList : List JType → String
  | [] => ""
  | [t] => t.text
  | t :: u :: ts => t.text ++ ", " ++ textList (u :: ts)

end

/-- The text of the type, followed by that of its erasure where the two differ. -/
def shown (t : JType) : String :=
  if t.text == t.erasure.text then t.text else t.text ++ "|" ++ t.erasure.text

end JavaSema.JType
