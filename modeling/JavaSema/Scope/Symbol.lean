import JavaSema.JType.Equality
import JavaSema.JType.Print
import JavaSema.Source.Tree
import JavaSema.Text.Quote

/-!
# Symbols and scopes

A symbol is a named binding.  A scope holds the symbols of a block or of the body of a class, in two
ways: `order` lists them in the order in which they are left, `index` in the order in which lookups
by name see them.

## Implementation notes

Symbols are told apart by `id`, which the table hands out.  A symbol that is bound again in its scope
gives way to a placeholder under a fresh name; the placeholder takes its place in `order` and comes
last in `index`.
-/

namespace JavaSema

/-- What a symbol names. -/
inductive SymbolKind where
  | var
  | method
  | type
  | typeParam
  | enumLiteral
deriving DecidableEq, Inhabited

/-- All kinds of symbols. -/
def SymbolKind.all : List SymbolKind := [.var, .method, .type, .typeParam, .enumLiteral]

/-- The word for it in diagnostics. -/
def SymbolKind.word : SymbolKind → String
  | var => "Variable"
  | method => "Method"
  | type => "Type"
  | typeParam => "TypeParam"
  | enumLiteral => "EnumLiteral"

/-- The kind of a scope. -/
inductive ScopeKind where
  | classBody
  | block
deriving DecidableEq, Inhabited

/-- The word for it in diagnostics. -/
def ScopeKind.word : ScopeKind → String
  | classBody => "ClassBody"
  | block => "Block"

mutual

/-- A named binding. -/
structure Symbol where
  /-- What tells the symbol apart from others. -/
  id : Nat := 0
  /-- The name. -/
  name : String
  /-- What the symbol names. -/
  kind : SymbolKind
  /-- The type of a value, or the result of a method. -/
  type : JType
  /-- The types of the parameters of a method. -/
  params : List JType := []
  /-- Whether the last parameter takes any number of arguments. -/
  isVarargs : Bool := false
  /-- The node that declares the symbol. -/
  location : Option Source.NodeId := none
  /-- The members of a type, once its body was left. -/
  members : Option Scope := none
  /-- Who is told of what happens to the symbol. -/
  observer : Option String := none
  /-- The name of the binding that a placeholder preserves. -/
  shadows : Option String := none

/-- One level of bindings. -/
structure Scope where
  /-- The kind of the scope. -/
  kind : ScopeKind
  /-- The binary name of the class whose body this is. -/
  owner : Option String := none
  /-- The symbols in the order in which lookups by name see them. -/
  index : List Symbol := []
  /-- The symbols in the order in which they are left. -/
  order : List Symbol := []
  /-- Who is told of what happens to the symbols of the scope. -/
  observer : Option String := none

end

instance : Inhabited Symbol := ⟨{ name := "", kind := .var, type := .void }⟩
instance : Inhabited Scope := ⟨{ kind := .block }⟩

namespace Symbol

/-- A method; the type is that of its result. -/
def ofMethod (name : String) (returnType : JType) (params : List JType) : Symbol :=
  { name, kind := .method, type := returnType, params }

/-- Whether the symbol stands for one that was bound again. -/
def isPlaceholder (s : Symbol) : Bool := s.shadows.isSome

/-- Whether two symbols cannot both be bound in one scope: they have the same name and kind, and
methods also the same erased parameters. -/
def sameBinding (s t : Symbol) : Bool :=
  s.name == t.name && s.kind == t.kind
    && (s.kind != .method || MethodDef.sameErasures s.params t.params)

/-- The placeholder that keeps the symbol under a fresh name. -/
def placeholder (s : Symbol) (id : Nat) (name : String) : Symbol :=
  { s with id, name, shadows := some s.name }

/-- The text of an optional value in diagnostics. -/
def describeOpt {α : Type} (f : α → String) : Option α → String
  | none => "None"
  | some a => "Some(" ++ f a ++ ")"

/-- The text of the symbol in diagnostics. -/
def describe (s : Symbol) : String :=
  "Symbol \x7b name: " ++ describeName s.name ++ ", kind: " ++ s.kind.word ++ ", ty: "
    ++ Text.quote s.type.text ++ ", location: " ++ describeOpt toString s.location ++ ", shadows: "
    ++ describeOpt describeName s.shadows ++ ", .. \x7d"

end Symbol

namespace Scope

/-- The symbols of that name. -/
def get (scope : Scope) (name : String) : List Symbol :=
  scope.index.filter fun s => s.name == name

/-- The first symbol of that name and kind. -/
def find? (scope : Scope) (name : String) (kind : SymbolKind) : Option Symbol :=
  (scope.get name).find? fun s => s.kind == kind

/-- Adds a symbol. -/
def insert (scope : Scope) (s : Symbol) : Scope :=
  { scope with index := scope.index ++ [s], order := scope.order ++ [s] }

/-- Replaces the symbol with that identity. -/
def replaceIn (id : Nat) (new : Symbol) : List Symbol → List Symbol
  | [] => []
  | s :: rest => if s.id == id then new :: rest else s :: replaceIn id new rest

/-- Puts a placeholder in the place of a symbol. -/
def substitute (scope : Scope) (old new : Symbol) : Scope :=
  { scope with
    index := (scope.index.filter fun s => s.id != old.id) ++ [new]
    order := replaceIn old.id new scope.order }

/-- The scope with the symbol of that identity changed. -/
def update (scope : Scope) (id : Nat) (f : Symbol → Symbol) : Scope :=
  let change := List.map fun s => if s.id == id then f s else s
  { scope with index := change scope.index, order := change scope.order }

/-- The text of the scope in diagnostics. -/
def describe (scope : Scope) : String :=
  "Scope \x7b kind: " ++ scope.kind.word ++ ", owner: " ++ Symbol.describeOpt Text.quote scope.owner
    ++ ", symbols: [" ++ Text.join ", " (scope.order.map Symbol.describe) ++ "], .. \x7d"

end Scope

end JavaSema
