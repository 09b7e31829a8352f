import JavaSema.Settings.Error

/-!
# Decoding of settings

A decoder turns a value of a configuration file into a value of a type, or says what is wrong with
it.  A record is decoded from a table by the names of its fields, or from an array by their order;
fields that are not given keep their defaults.
-/

namespace JavaSema

/-- A way to turn a value of a configuration file into a value of a type. -/
abbrev Decoder (α : Type) := Toml.Value → Except SettingsError α

namespace Decoder

/-- A truth value. -/
def boolean : Decoder Bool
  | .boolean b => .ok b
  | v => .error (.wrongType v "a boolean")

/-- A text. -/
def string : Decoder String
  | .string s => .ok s
  | v => .error (.wrongType v "a string")

/-- A path. -/
def path : Decoder String
  | .string s => .ok s
  | v => .error (.wrongType v "path string")

/-- A number of things. -/
def count : Decoder Nat
  | .integer (.ofNat n) => .ok n
  | .integer n => .error (.outOfRange (.integer n) "usize")
  | v => .error (.wrongType v "usize")

/-- Values of one kind in order. -/
def list {α : Type} (element : Decoder α) : Decoder (List α)
  | .array vs => vs.mapM element
  | v => .error (.wrongType v "a sequence")

/-- A field of a record: its name, and how its value changes the record. -/
structure RecordField (ρ : Type) where
  /-- The name. -/
  name : String
  /-- The record with the value in that field. -/
  set : Toml.Value → ρ → Except SettingsError ρ

/-- A field that a decoder and a setter make up. -/
def field {ρ α : Type} (name : String) (decode : Decoder α) (set : α → ρ → ρ) : RecordField ρ where
  name
  set v r := return set (← decode v) r

/-- The name under which a date stands for a table. -/
def dateField : String := "$__toml_private_datetime"

/-- Sets one field by its name. -/
def setField {ρ : Type} (fields : List (RecordField ρ)) (r : ρ) (name : String) (v : Toml.Value) :
    Except SettingsError ρ :=
  match fields.find? fun f => f.name == name with
  | some f => f.set v r
  | none => .error (.unknownField name (fields.map RecordField.name))

/-- Sets the fields of a table, one after the other. -/
def setFields {ρ : Type} (fields : List (RecordField ρ)) (given : List (String × Toml.Value)) (r : ρ) :
    Except SettingsError ρ :=
  given.foldlM (fun r (name, v) => setField fields r name v) r

/-- A record, with its defaults and the name of its type. -/
def record {ρ : Type} (type : String) (fields : List (RecordField ρ)) (defaults : ρ) : Decoder ρ
  | .table given => setFields fields given defaults
  | .array vs => (fields.zip vs).foldlM (fun r (f, v) => f.set v r) defaults
  | .date => setField fields defaults dateField .date
  | v => .error (.wrongType v ("struct " ++ type))

end Decoder

end JavaSema
