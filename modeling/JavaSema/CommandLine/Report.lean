import JavaSema.ClassDef.Basic
import JavaSema.CommandLine.Json
import JavaSema.JType.Print

/-!
# Reports on classes

What the `class` command says of a class: its header and its members, one line each.
-/

namespace JavaSema

/-- The word for what a class is. -/
def ClassDef.kindWord (d : ClassDef) : String :=
  if d.kind = .ordinary && d.isAbstract then "abstract class" else d.kind.word

/-- The words for where a class is declared. -/
def Nesting.words : Nesting → String
  | .topLevel => "top-level"
  | .member true => "static member"
  | .member false => "inner"
  | .inBlock => "local"
  | .anonymous => "anonymous"

/-- A type parameter with the bounds that say something. -/
def TypeParam.line (p : TypeParam) : String :=
  let bounds := (p.bounds.filter fun b => !b.isObject).map JType.text
  if bounds.isEmpty then p.name else p.name ++ " extends " ++ Text.join " & " bounds

/-- A field the way it is declared. -/
def FieldDef.line (f : FieldDef) : String :=
  (if f.isStatic then "static " else "") ++ f.type.text ++ " " ++ f.name

/-- The types of parameters; the last one may take any number of arguments. -/
def paramTexts (isVarargs : Bool) : List JType → List String
  | [] => []
  | [t] =>
    match isVarargs, Text.stripEnd? "[]" t.text with
    | true, some element => [element ++ "..."]
    | _, _ => [t.text]
  | t :: rest => t.text :: paramTexts isVarargs rest

/-- A method or a constructor the way it is declared, under the name. -/
def MethodDef.line (m : MethodDef) (name : String) : String :=
  (if m.isStatic then "static " else "")
    ++ (if m.isAbstract then "abstract " else "")
    ++ (if m.typeParams.isEmpty then ""
      else "<" ++ Text.join ", " (m.typeParams.map TypeParam.name) ++ "> ")
    ++ (if m.name = constructorName then "" else m.returnType.text ++ " ")
    ++ name ++ "(" ++ Text.join ", " (paramTexts m.isVarargs m.params) ++ ")"

/-- What is said of a class. -/
structure ClassReport where
  /-- The binary name. -/
  name : String
  /-- What the class is. -/
  kind : String
  /-- Where it is declared. -/
  nesting : String
  /-- The type parameters. -/
  typeParams : List String
  /-- The superclass. -/
  superclass : Option String
  /-- The interfaces. -/
  interfaces : List String
  /-- The fields. -/
  fields : List String
  /-- The constructors. -/
  constructors : List String
  /-- The methods. -/
  methods : List String
  /-- The member classes. -/
  memberClasses : List String
deriving DecidableEq, Inhabited

namespace ClassReport

/-- The report on a class.  Methods that a compiler added are left out. -/
def ofClass (d : ClassDef) : ClassReport where
  name := d.name
  kind := d.kindWord
  nesting := d.nesting.words
  typeParams := d.typeParams.map TypeParam.line
  superclass := d.superclass.map JType.text
  interfaces := d.interfaces.map JType.text
  fields := d.fields.map FieldDef.line
  constructors := d.constructors.map fun c => c.line d.simpleName
  methods := (d.methods.filter fun m => !m.isBridge && !m.isSynthetic).map fun m => m.line m.name
  memberClasses := d.memberClasses

/-- The report as JSON. -/
def toJson (r : ClassReport) : Json :=
  .object [("name", .string r.name), ("kind", .string r.kind), ("nesting", .string r.nesting),
    ("type_params", .strings r.typeParams),
    ("super_class", match r.superclass with
      | some s => .string s
      | none => .null),
    ("interfaces", .strings r.interfaces), ("fields", .strings r.fields),
    ("constructors", .strings r.constructors), ("methods", .strings r.methods),
    ("member_classes", .strings r.memberClasses)]

/-- The lines of one group of members, under its heading. -/
def group (heading : String) (members : List String) : List String :=
  if members.isEmpty then [] else ("  " ++ heading ++ ":") :: members.map ("    " ++ ·)

/-- The report as lines of text. -/
def lines (r : ClassReport) : List String :=
  let params := if r.typeParams.isEmpty then "" else "<" ++ Text.join ", " r.typeParams ++ ">"
  [r.kind ++ " " ++ r.name ++ params, "  nesting: " ++ r.nesting]
    ++ (r.superclass.map ("  extends: " ++ ·)).toList
    ++ (if r.interfaces.isEmpty then [] else ["  implements: " ++ Text.join ", " r.interfaces])
    ++ group "fields" r.fields ++ group "constructors" r.constructors
    ++ group "methods" r.methods ++ group "member classes" r.memberClasses

end ClassReport

end JavaSema
