import JavaSema.Text.Quote

/-!
# Values of a configuration file
-/

namespace JavaSema.Toml

/-- A value of a configuration file. -/
inductive Value where
  /-- A text. -/
  | string (text : String)
  /-- A whole number. -/
  | integer (n : Int)
  /-- A floating-point number, given by the shortest decimal that reads back as it. -/
  | float (decimal : String)
  /-- A truth value. -/
  | boolean (b : Bool)
  /-- A date, a time, or both. -/
  | date
  /-- Values in order. -/
  | array (elements : List Value)
  /-- Values under names, in the order in which the names were first used. -/
  | table (fields : List (String × Value))
deriving Inhabited

/-- What kind of value this is, in the wording of diagnostics. -/
def Value.describe : Value → String
  | .string text => "string " ++ Text.quote text
  | .integer n => "integer `" ++ toString n ++ "`"
  | .float decimal => "floating point `" ++ decimal ++ "`"
  | .boolean b => "boolean `" ++ toString b ++ "`"
  | .array _ => "sequence"
  | .date | .table _ => "map"

end JavaSema.Toml
