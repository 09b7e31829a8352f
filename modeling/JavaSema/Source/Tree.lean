import JavaSema.ClassDef.Basic
import JavaSema.Source.TypeTree

/-!
# The tree of a compilation unit

Types, expressions, statements and declarations.  Each node carries a number, under which the
analysis records what it finds out about the node.
-/

namespace JavaSema.Source

/-- The number of a node. -/
abbrev NodeId := Nat

/-! ### Types -/

mutual

/-- A type reference. -/
structure TypeRef where
  /-- The number of the node. -/
  id : NodeId
  /-- What is written there. -/
  shape : TypeShape

/-- What a type reference consists of. -/
inductive TypeShape where
  /-- A primitive type. -/
  | primitive (p : Primitive)
  /-- The keyword of a method that returns nothing. -/
  | void
  /-- The word that leaves the type to inference. -/
  | inferred
  /-- A possibly qualified class name.  The arguments are absent for raw and for non-generic uses, and
  empty for the diamond. -/
  | named (name : QualifiedName) (args : Option (List TypeRef))
  /-- An array. -/
  | array (element : TypeRef) (dims : Nat)
  /-- The wildcard without bounds. -/
  | wild
  /-- The wildcard bounded above. -/
  | wildUpper (bound : TypeRef)
  /-- The wildcard bounded below. -/
  | wildLower (bound : TypeRef)

end

namespace TypeRef

mutual

/-- The shape of the type without node numbers. -/
def tree : TypeRef → TypeTree
  | ⟨_, shape⟩ => shapeTree shape

/-- The shape without node numbers. -/
def shapeTree : TypeShape → TypeTree
  | .primitive p => .primitive p
  | .void => .void
  | .inferred => .inferred
  | .named name args => .named name (optTree args)
  | .array element dims => .array element.tree dims
  | .wild => .wild
  | .wildUpper bound => .wildUpper bound.tree
  | .wildLower bound => .wildLower bound.tree

/-- The shapes of type arguments that may be absent. -/
def optTree : Option (List TypeRef) → Option (List TypeTree)
  | none => none
  | some ts => some (listTree ts)

/-- The shapes of the types. -/
def listTree : List TypeRef → List TypeTree
  | [] => []
  | t :: ts => t.tree :: listTree ts

end

/-- Whether the type is left to inference. -/
def isInferred (t : TypeRef) : Bool :=
  match t.shape with
  | .inferred => true
  | _ => false

/-- The text of the type. -/
def text (t : TypeRef) : String := t.tree.text

end TypeRef

/-! ### Words of the language -/

/-- The kind of a literal. -/
inductive LiteralKind where
  | int
  | long
  | float
  | double
  | char
  | string
  | boolean
  | null
deriving DecidableEq, Inhabited

namespace LiteralKind

/-- All kinds of literals. -/
def all : List LiteralKind := [int, long, float, double, char, string, boolean, null]

/-- The word for a kind of literal. -/
def word : LiteralKind → String
  | int => "int"
  | long => "long"
  | float => "float"
  | double => "double"
  | char => "char"
  | string => "string"
  | boolean => "boolean"
  | null => "null"

end LiteralKind

/-- An operator with one operand. -/
inductive UnaryOp where
  | plus
  | minus
  | not
  | complement
  | preIncrement
  | preDecrement
  | postIncrement
  | postDecrement
deriving DecidableEq, Inhabited

namespace UnaryOp

/-- The operator as written. -/
def symbol : UnaryOp → String
  | plus => "+"
  | minus => "-"
  | not => "!"
  | complement => "~"
  | preIncrement | postIncrement => "++"
  | preDecrement | postDecrement => "--"

/-- Whether the operator follows its operand. -/
def followsOperand (op : UnaryOp) : Bool := op = postIncrement || op = postDecrement

/-- All operators with one operand. -/
def all : List UnaryOp :=
  [plus, minus, not, complement, preIncrement, preDecrement, postIncrement, postDecrement]

/-- The operator that is written with the symbol on that side of its operand. -/
def ofSymbol? (symbol : String) (followsOperand : Bool) : Option UnaryOp :=
  all.find? fun op => op.symbol == symbol && op.followsOperand == followsOperand

/-- Whether the operator changes its operand. -/
def writes : UnaryOp → Bool
  | preIncrement | preDecrement | postIncrement | postDecrement => true
  | _ => false

end UnaryOp

/-- An operator with two operands. -/
inductive BinaryOp where
  | add
  | sub
  | mul
  | div
  | rem
  | shl
  | shr
  | ushr
  | lt
  | gt
  | le
  | ge
  | eq
  | ne
  | bitAnd
  | bitOr
  | bitXor
  | and
  | or
deriving DecidableEq, Inhabited

namespace BinaryOp

/-- All operators. -/
def all : List BinaryOp :=
  [add, sub, mul, div, rem, shl, shr, ushr, lt, gt, le, ge, eq, ne, bitAnd, bitOr, bitXor, and, or]

/-- The operator as written. -/
def symbol : BinaryOp → String
  | add => "+"
  | sub => "-"
  | mul => "*"
  | div => "/"
  | rem => "%"
  | shl => "<<"
  | shr => ">>"
  | ushr => ">>>"
  | lt => "<"
  | gt => ">"
  | le => "<="
  | ge => ">="
  | eq => "=="
  | ne => "!="
  | bitAnd => "&"
  | bitOr => "|"
  | bitXor => "^"
  | and => "&&"
  | or => "||"

/-- The operator that is written so. -/
def ofSymbol? (text : String) : Option BinaryOp :=
  all.find? fun op => op.symbol == text

/-- Whether the operator shifts bits. -/
def isShift (op : BinaryOp) : Bool := op = shl || op = shr || op = ushr

/-- Whether the operator tests equality. -/
def isEquality (op : BinaryOp) : Bool := op = eq || op = ne

/-- Whether the operator compares by order. -/
def isOrder (op : BinaryOp) : Bool := op = lt || op = gt || op = le || op = ge

/-- Whether the operator combines bits. -/
def isBitwise (op : BinaryOp) : Bool := op = bitAnd || op = bitOr || op = bitXor

/-- Whether the operator combines truth values and skips its second operand where it can. -/
def isLogical (op : BinaryOp) : Bool := op = and || op = or

end BinaryOp

/-- The modifiers of a declaration. -/
structure Modifiers where
  /-- Declared public. -/
  isPublic : Bool := false
  /-- Declared private. -/
  isPrivate : Bool := false
  /-- Declared protected. -/
  isProtected : Bool := false
  /-- Declared static. -/
  isStatic : Bool := false
  /-- Declared final. -/
  isFinal : Bool := false
  /-- Declared abstract. -/
  isAbstract : Bool := false
  /-- Declared as a default method. -/
  isDefault : Bool := false
deriving DecidableEq, Inhabited

/-- The modifiers with those keywords. -/
def Modifiers.ofKeywords (words : List String) : Modifiers where
  isPublic := words.contains "public"
  isPrivate := words.contains "private"
  isProtected := words.contains "protected"
  isStatic := words.contains "static"
  isFinal := words.contains "final"
  isAbstract := words.contains "abstract"
  isDefault := words.contains "default"

/-- The declaration of a type parameter. -/
structure TypeParamDecl where
  /-- The name of the type variable. -/
  name : String
  /-- The bounds. -/
  bounds : List TypeRef

/-- A parameter of a method. -/
structure Param where
  /-- The name of the parameter. -/
  name : String
  /-- Its type. -/
  type : TypeRef
  /-- Whether it takes any number of arguments. -/
  isVarargs : Bool

/-- A parameter of a lambda. -/
structure LambdaParam where
  /-- The name of the parameter. -/
  name : String
  /-- Its type, if it is given. -/
  type : Option TypeRef

/-! ### Expressions, statements and declarations -/

mutual

/-- An expression. -/
structure Expr where
  /-- The number of the node. -/
  id : NodeId
  /-- What is written there. -/
  shape : ExprShape

/-- What an expression consists of. -/
inductive ExprShape where
  /-- A literal as written. -/
  | literal (kind : LiteralKind) (text : String)
  /-- A bare identifier: a variable, a type or the first segment of a package name. -/
  | name (name : String)
  /-- A field, a member type or the next segment of a package name. -/
  | field (receiver : Expr) (name : String)
  /-- The call of a method. -/
  | call (receiver : Option Expr) (typeArgs : List TypeRef) (name : String) (args : List Expr)
  /-- The creation of an object, for an inner class with its outer instance, for an anonymous class
  with its body. -/
  | create (outer : Option Expr) (type : TypeRef) (args : List Expr) (body : Option Decl)
  /-- The creation of an array. -/
  | createArray (element : TypeRef) (sizes : List Expr) (extraDims : Nat) (init : Option Expr)
  /-- The elements of an array in braces. -/
  | arrayInit (elements : List Expr)
  /-- The element of an array. -/
  | index (array : Expr) (position : Expr)
  /-- An operator with one operand. -/
  | unary (op : UnaryOp) (operand : Expr)
  /-- An operator with two operands. -/
  | binary (op : BinaryOp) (left right : Expr)
  /-- An assignment, which may combine the old value with the new one. -/
  | assign (op : Option BinaryOp) (target value : Expr)
  /-- The choice between two expressions. -/
  | conditional (condition whenTrue whenFalse : Expr)
  /-- A cast. -/
  | cast (type : TypeRef) (operand : Expr)
  /-- A test of the class of a value. -/
  | instanceOf (operand : Expr) (type : TypeRef)
  /-- A lambda. -/
  | lambda (params : List LambdaParam) (body : LambdaBody)
  /-- A method reference.  A constructor reference is named `new`. -/
  | methodRef (target : RefTarget) (typeArgs : List TypeRef) (name : String)
  /-- The current instance, or that of an enclosing class. -/
  | self (qualifier : Option QualifiedName)
  /-- The current instance seen as its superclass. -/
  | parent
  /-- The object that stands for a class. -/
  | classLiteral (type : TypeRef)

/-- The body of a lambda. -/
inductive LambdaBody where
  /-- The expression whose value is returned. -/
  | expr (e : Expr)
  /-- A block. -/
  | block (s : Stmt)

/-- What stands before the name in a method reference. -/
inductive RefTarget where
  /-- An expression, or a name that turns out to denote a type. -/
  | expr (e : Expr)
  /-- A type. -/
  | type (t : TypeRef)
  /-- The superclass. -/
  | parent

/-- A variable in the declaration of local variables or fields. -/
structure Declarator where
  /-- The name of the variable. -/
  name : String
  /-- The dimensions written after the name. -/
  dims : Nat
  /-- The initial value. -/
  init : Option Expr

/-- A statement. -/
structure Stmt where
  /-- The number of the node. -/
  id : NodeId
  /-- What is written there. -/
  shape : StmtShape

/-- What a statement consists of. -/
inductive StmtShape where
  /-- A block. -/
  | block (body : List Stmt)
  /-- The declaration of local variables. -/
  | vars (type : TypeRef) (declarators : List Declarator)
  /-- The declaration of a class. -/
  | decl (d : Decl)
  /-- An expression. -/
  | expr (e : Expr)
  /-- A branch. -/
  | ifElse (condition : Expr) (thenBranch : Stmt) (elseBranch : Option Stmt)
  /-- A loop that tests first. -/
  | whileLoop (condition : Expr) (body : Stmt)
  /-- A loop that tests last. -/
  | doWhile (body : Stmt) (condition : Expr)
  /-- A loop with initial statements and updates. -/
  | forLoop (init : List Stmt) (condition : Option Expr) (update : List Expr) (body : Stmt)
  /-- A loop over the elements of a value. -/
  | forEach (type : TypeRef) (name : String) (iterable : Expr) (body : Stmt)
  /-- A choice by value. -/
  | switch (selector : Expr) (cases : List SwitchCase)
  /-- The return from a method or lambda. -/
  | ret (value : Option Expr)
  /-- The end of a loop or a labelled statement. -/
  | breakTo (label : Option String)
  /-- The next round of a loop. -/
  | continueTo (label : Option String)
  /-- The raising of an exception. -/
  | throw (value : Expr)
  /-- Statements whose exceptions are handled. -/
  | tryCatch (resources : List Stmt) (body : Stmt) (catches : List CatchClause)
      (final : Option Stmt)
  /-- A labelled statement. -/
  | labeled (label : String) (body : Stmt)
  /-- The empty statement. -/
  | empty

/-- A case of a switch; the default case has no label. -/
structure SwitchCase where
  /-- The labels. -/
  labels : List Expr
  /-- The statements. -/
  body : List Stmt

/-- The handler of an exception. -/
structure CatchClause where
  /-- The types of the exceptions. -/
  types : List TypeRef
  /-- The name of the variable that holds the exception. -/
  name : String
  /-- The statements. -/
  body : Stmt

/-- The declaration of a class. -/
structure Decl where
  /-- The number of the node. -/
  id : NodeId
  /-- The simple name, empty for an anonymous class. -/
  name : String
  /-- The kind of the class. -/
  kind : ClassKind
  /-- The modifiers. -/
  modifiers : Modifiers
  /-- The type parameters. -/
  typeParams : List TypeParamDecl
  /-- The superclass. -/
  parent : Option TypeRef
  /-- The interfaces that a class implements or an interface extends. -/
  interfaces : List TypeRef
  /-- The constants of an enumeration. -/
  constants : List EnumConstant
  /-- The members. -/
  members : List Member
  /-- The place in the source text. -/
  span : Span

/-- A constant of an enumeration. -/
structure EnumConstant where
  /-- The name of the constant. -/
  name : String
  /-- The arguments of the constructor. -/
  args : List Expr
  /-- The body of the class of the constant. -/
  body : Option Decl

/-- A member of a class. -/
inductive Member where
  /-- Fields. -/
  | field (f : FieldDecl)
  /-- A method or a constructor. -/
  | method (m : MethodDecl)
  /-- An initializer. -/
  | initializer (isStatic : Bool) (body : Stmt)
  /-- A member class. -/
  | type (d : Decl)

/-- The declaration of fields of one type. -/
structure FieldDecl where
  /-- The modifiers. -/
  modifiers : Modifiers
  /-- The type. -/
  type : TypeRef
  /-- The fields. -/
  declarators : List Declarator

/-- The declaration of a method, or of a constructor if it has no return type. -/
structure MethodDecl where
  /-- The modifiers. -/
  modifiers : Modifiers
  /-- The type parameters. -/
  typeParams : List TypeParamDecl
  /-- The type of the result. -/
  returnType : Option TypeRef
  /-- The name. -/
  name : String
  /-- The parameters. -/
  params : List Param
  /-- The body. -/
  body : Option Stmt

end

namespace MethodDecl

/-- Whether the declaration is that of a constructor. -/
def isConstructor (m : MethodDecl) : Bool := m.returnType.isNone

/-- Whether the last parameter takes any number of arguments. -/
def isVarargs (m : MethodDecl) : Bool := m.params.getLast?.any Param.isVarargs

end MethodDecl

namespace Decl

/-- Whether the class has no name. -/
def isAnonymous (d : Decl) : Bool := d.name.isEmpty

/-- The declarations of fields. -/
def fields (d : Decl) : List FieldDecl :=
  d.members.filterMap fun
    | .field f => some f
    | _ => none

/-- The methods and constructors. -/
def methodsAndConstructors (d : Decl) : List MethodDecl :=
  d.members.filterMap fun
    | .method m => some m
    | _ => none

/-- The methods. -/
def methods (d : Decl) : List MethodDecl :=
  d.methodsAndConstructors.filter fun m => !m.isConstructor

/-- The constructors. -/
def constructors (d : Decl) : List MethodDecl :=
  d.methodsAndConstructors.filter MethodDecl.isConstructor

/-- The member classes. -/
def nestedTypes (d : Decl) : List Decl :=
  d.members.filterMap fun
    | .type n => some n
    | _ => none

end Decl

/-- An import. -/
inductive Import where
  /-- The import of one type. -/
  | single (path : QualifiedName)
  /-- The import of all types of a package or all member types of a type. -/
  | onDemand (path : QualifiedName)
  /-- The import of one static member. -/
  | staticSingle (type : QualifiedName) (member : String)
  /-- The import of all static members. -/
  | staticOnDemand (type : QualifiedName)
deriving DecidableEq, Inhabited

/-- Reads an import as written between the keyword and the semicolon. -/
def Import.parse (text : String) : Import :=
  let text := Text.trim text
  let (isStatic, path) :=
    match Text.stripStart? "static " text with
    | some rest => (true, Text.trim rest)
    | none => (false, text)
  let (path, isOnDemand) :=
    match Text.stripEnd? ".*" path with
    | some rest => (rest, true)
    | none => (path, false)
  let name := QualifiedName.ofDotted path
  match isStatic, isOnDemand with
  | false, false => .single name
  | false, true => .onDemand name
  | true, true => .staticOnDemand name
  | true, false => .staticSingle (name.parent?.getD {}) (name.segments.getLast?.getD "")

/-- A compilation unit. -/
structure SourceUnit where
  /-- The package, if it is given. -/
  package : Option PackageName := none
  /-- The imports. -/
  imports : List Import := []
  /-- The classes at the top level, in order. -/
  types : List Decl := []

/-- The package of the unit; the unnamed one if none is given. -/
def SourceUnit.packageName (u : SourceUnit) : PackageName := u.package.getD {}

end JavaSema.Source
