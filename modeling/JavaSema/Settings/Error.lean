import JavaSema.Files.Archive
import JavaSema.Text.Split
import JavaSema.Toml.Value

/-!
# Faults of settings
-/

namespace JavaSema

/-- Why settings cannot be read. -/
inductive SettingsError where
  /-- The file cannot be read. -/
  | unreadable (path : String) (fault : FileFault)
  /-- The text is not well formed. -/
  | malformed
  /-- There is no such setting. -/
  | unknownField (name : String) (known : List String)
  /-- A value of another kind is wanted. -/
  | wrongType (found : Toml.Value) (wanted : String)
  /-- The value is out of range. -/
  | outOfRange (found : Toml.Value) (wanted : String)
deriving Inhabited

namespace SettingsError

/-- The names as alternatives. -/
def alternatives (names : List String) : String :=
  let quoted := names.map fun n => "`" ++ n ++ "`"
  match quoted with
  | [a, b] => a ++ " or " ++ b
  | [a] => a
  | l => "one of " ++ Text.join ", " l

/-- What is wrong with the text of the settings. -/
def detail : SettingsError → String
  | .unreadable _ fault => fault.message
  | .malformed => "the text is not well formed"
  | .unknownField name known => "unknown field `" ++ name ++ "`, expected " ++ alternatives known
  | .wrongType found wanted => "invalid type: " ++ found.describe ++ ", expected " ++ wanted
  | .outOfRange found wanted => "invalid value: " ++ found.describe ++ ", expected " ++ wanted

/-- The wording of the error. -/
def message (e : SettingsError) : String :=
  match e with
  | .unreadable path _ => "failed to read config file " ++ path ++ ": " ++ e.detail
  | _ => "failed to parse toml config: " ++ e.detail

end SettingsError

end JavaSema
