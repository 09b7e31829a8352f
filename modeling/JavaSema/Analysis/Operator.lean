import JavaSema.JType.Basic
import JavaSema.Source.Tree

/-!
# Types of literals and operators

The type of a literal, and the type that an operator gives for operands of given types.  Operands of
wrapper classes are unboxed first.
-/

namespace JavaSema.Source

/-- The type of a literal. -/
def LiteralKind.type : LiteralKind → JType
  | int => .primitive .int
  | long => .primitive .long
  | float => .primitive .float
  | double => .primitive .double
  | char => .primitive .char
  | string => .string
  | boolean => .primitive .boolean
  | null => .null

/-- The type that an operator gives for its operand, if it takes the operand. -/
def UnaryOp.resultType? (op : UnaryOp) (operand : JType) : Option JType :=
  match op, operand.unboxed? with
  | .not, some .boolean => some (.primitive .boolean)
  | .not, _ => none
  | _, some p => if p.isNumeric then some (.primitive p) else none
  | _, none => none

namespace BinaryOp

/-- The numeric type of an operand. -/
def numeric? (t : JType) : Option Primitive := t.unboxed?.filter Primitive.isNumeric

/-- Whether an operand is a truth value. -/
def isTruth (t : JType) : Bool := t.unboxed? == some .boolean

/-- Whether the type holds whole numbers. -/
def isIntegral : Primitive → Bool
  | .byte | .short | .char | .int | .long => true
  | _ => false

/-- Whether both operands are numbers. -/
def bothNumeric (left right : JType) : Bool := (numeric? left).isSome && (numeric? right).isSome

/-- Whether both operands are truth values. -/
def bothTruth (left right : JType) : Bool := isTruth left && isTruth right

/-- Whether values of the two types can be tested for equality. -/
def comparable (left right : JType) : Bool :=
  bothNumeric left right || bothTruth left right || (left.isReference && right.isReference)

/-- The type that an operator on numbers gives for numeric operands. -/
def numericResult? (op : BinaryOp) (a b : Primitive) : Option JType :=
  if op.isShift then if isIntegral a && isIntegral b then some (.primitive a) else none
  else if op.isBitwise && !(isIntegral a && isIntegral b) then none
  else some (.primitive (a.wider b))

/-- The type that an operator gives for its operands, if it takes them. -/
def resultType? (op : BinaryOp) (left right : JType) : Option JType :=
  let truthIf (b : Bool) : Option JType := if b then some (.primitive .boolean) else none
  if op = add ∧ (left.isString || right.isString) then some .string
  else if op.isLogical then truthIf (bothTruth left right)
  else if op.isEquality then truthIf (comparable left right)
  else if op.isOrder then truthIf (bothNumeric left right)
  else if op.isBitwise && bothTruth left right then truthIf true
  else
    match numeric? left, numeric? right with
    | some a, some b => numericResult? op a b
    | _, _ => none

end BinaryOp

end JavaSema.Source
