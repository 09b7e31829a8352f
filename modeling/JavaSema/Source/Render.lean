import JavaSema.Source.Node

/-!
# The text of nodes

One line of source text for each node, as it is quoted in diagnostics.  Blocks and class bodies are
abbreviated.
-/

namespace JavaSema.Source

/-- What stands for the content of a block. -/
def abbreviated : String := "\x7b ... \x7d"

/-- The text of types in angle brackets; nothing if there is none. -/
def typeArgsText (ts : List TypeRef) : String :=
  if ts.isEmpty then "" else "<" ++ Text.join ", " (ts.map TypeRef.text) ++ ">"

/-- The text of a parameter of a lambda. -/
def LambdaParam.text (p : LambdaParam) : String :=
  match p.type with
  | some t => t.text ++ " " ++ p.name
  | none => p.name

namespace Expr

mutual

/-- The text of an expression. -/
def text : Expr → String
  | ⟨_, shape⟩ => shapeText shape

/-- The text of what an expression consists of. -/
def shapeText : ExprShape → String
  | .literal _ t => t
  | .name n => n
  | .field receiver n => receiver.text ++ "." ++ n
  | .call receiver typeArgs n args =>
    receiverText receiver ++ typeArgsText typeArgs ++ n ++ "(" ++ listText args ++ ")"
  | .create outer type args body =>
    receiverText outer ++ "new " ++ type.text ++ "(" ++ listText args ++ ")"
      ++ (if body.isSome then " " ++ abbreviated else "")
  | .createArray element sizes extraDims init =>
    "new " ++ element.text ++ sizesText sizes ++ brackets extraDims ++ initText init
  | .arrayInit elements => "\x7b" ++ listText elements ++ "\x7d"
  | .index array position => array.text ++ "[" ++ position.text ++ "]"
  | .unary op operand =>
    if op.followsOperand then operand.text ++ op.symbol else op.symbol ++ operand.text
  | .binary op left right => left.text ++ " " ++ op.symbol ++ " " ++ right.text
  | .assign op target value =>
    target.text ++ " " ++ (op.map BinaryOp.symbol).getD "" ++ "= " ++ value.text
  | .conditional c a b => c.text ++ " ? " ++ a.text ++ " : " ++ b.text
  | .cast type operand => "(" ++ type.text ++ ") " ++ operand.text
  | .instanceOf operand type => operand.text ++ " instanceof " ++ type.text
  | .lambda params body =>
    "(" ++ Text.join ", " (params.map LambdaParam.text) ++ ") -> " ++ bodyText body
  | .methodRef target typeArgs n => targetText target ++ "::" ++ typeArgsText typeArgs ++ n
  | .self qualifier =>
    (match qualifier with
      | some q => q.toDotted ++ "."
      | none => "") ++ "this"
  | .parent => "super"
  | .classLiteral type => type.text ++ ".class"

/-- The texts of expressions, separated by commas. -/
def listText : List Expr → String
  | [] => ""
  | [e] => e.text
  | e :: f :: es => e.text ++ ", " ++ listText (f :: es)

/-- The texts of array sizes, each in brackets. -/
def sizesText : List Expr → String
  | [] => ""
  | e :: es => "[" ++ e.text ++ "]" ++ sizesText es

/-- The text of what stands before a dot, and the dot. -/
def receiverText : Option Expr → String
  | none => ""
  | some e => e.text ++ "."

/-- The text of an initial value, after a blank. -/
def initText : Option Expr → String
  | none => ""
  | some e => " " ++ e.text

/-- The text of the body of a lambda. -/
def bodyText : LambdaBody → String
  | .expr e => e.text
  | .block _ => abbreviated

/-- The text of what stands before the name in a method reference. -/
def targetText : RefTarget → String
  | .expr e => e.text
  | .type t => t.text
  | .parent => "super"

end

end Expr

/-- The text of a variable in a declaration. -/
def Declarator.text (d : Declarator) : String :=
  match d.init with
  | some e => d.name ++ " = " ++ e.text
  | none => d.name

/-- The text of a jump to a label that may be absent. -/
def jumpText (word : String) (label : Option String) : String :=
  match label with
  | some l => word ++ " " ++ l ++ ";"
  | none => word ++ ";"

/-- The text of a statement. -/
def Stmt.text (s : Stmt) : String :=
  match s.shape with
  | .block [] => "\x7b\x7d"
  | .block (_ :: _) => abbreviated
  | .expr e => e.text ++ ";"
  | .ret (some e) => "return " ++ e.text ++ ";"
  | .ret none => "return;"
  | .throw e => "throw " ++ e.text ++ ";"
  | .vars type ds =>
    type.text ++ (if ds.isEmpty then "" else " " ++ Text.join ", " (ds.map Declarator.text)) ++ ";"
  | .ifElse c _ _ => "if (" ++ c.text ++ ") ..."
  | .whileLoop c _ => "while (" ++ c.text ++ ") ..."
  | .doWhile _ c => "do ... while (" ++ c.text ++ ");"
  | .forLoop _ _ _ _ => "for (...) ..."
  | .forEach type name iterable _ =>
    "for (" ++ type.text ++ " " ++ name ++ " : " ++ iterable.text ++ ") ..."
  | .switch selector _ => "switch (" ++ selector.text ++ ") ..."
  | .breakTo label => jumpText "break" label
  | .continueTo label => jumpText "continue" label
  | .tryCatch _ _ _ _ => "try ..."
  | .labeled label _ => label ++ ": ..."
  | .decl d => "class " ++ d.name ++ " " ++ abbreviated
  | .empty => ";"

/-- The text of a node.  A declaration is named. -/
def Node.text : Node → String
  | .type t => t.text
  | .expr e => e.text
  | .stmt s => s.text
  | .decl d => "decl " ++ d.name

end JavaSema.Source
