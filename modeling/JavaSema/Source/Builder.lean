import JavaSema.Source.Literal
import JavaSema.Source.Node
import JavaSema.Source.TypeText

/-!
# Building trees

Nodes are made from the leaves up.  A builder numbers them in order of creation and records the parent
of each child when the parent is made, so that a node has a smaller number than its parent.
-/

namespace JavaSema.Source

/-- The state of a builder. -/
structure Builder where
  /-- The number of the next node. -/
  next : NodeId := 0
  /-- The parents of nodes, by number, the latest entry first. -/
  links : List (NodeId × Node) := []

namespace Builder

/-- The parent of a node, as last recorded. -/
def parent? (b : Builder) (n : Node) : Option Node := b.links.lookup n.id

/-- The innermost declaration above a node, looked for through at most `steps` parents. -/
def declAbove (b : Builder) : Nat → Node → Option Decl
  | 0, _ => none
  | steps + 1, n =>
    match b.parent? n with
    | none => none
    | some (.decl d) => some d
    | some p => declAbove b steps p

/-- The innermost declaration above a node. -/
def enclosingDecl? (b : Builder) (n : Node) : Option Decl := b.declAbove b.next n

/-- Takes the next number. -/
def number : StateM Builder NodeId := do
  let b ← get
  set { b with next := b.next + 1 }
  return b.next

/-- Records a node as the parent of its children. -/
def link (n : Node) : StateM Builder Unit :=
  modify fun b => { b with links := n.children.reverse.map (fun c => (c.id, n)) ++ b.links }

/-- Makes a type reference. -/
def typeNode (shape : TypeShape) : StateM Builder TypeRef := do
  let t : TypeRef := ⟨← number, shape⟩
  link (.type t)
  return t

mutual

/-- Makes the nodes of a type. -/
def type : TypeTree → StateM Builder TypeRef
  | .primitive p => typeNode (.primitive p)
  | .void => typeNode .void
  | .inferred => typeNode .inferred
  | .named name none => typeNode (.named name none)
  | .named name (some args) => do typeNode (.named name (some (← types args)))
  | .array element dims => do typeNode (.array (← type element) dims)
  | .wild => typeNode .wild
  | .wildUpper bound => do typeNode (.wildUpper (← type bound))
  | .wildLower bound => do typeNode (.wildLower (← type bound))

/-- Makes the nodes of several types. -/
def types : List TypeTree → StateM Builder (List TypeRef)
  | [] => return []
  | t :: ts => do
    let r ← type t
    let rs ← types ts
    return r :: rs

end

/-- Makes an expression. -/
def expr (shape : ExprShape) : StateM Builder Expr := do
  let e : Expr := ⟨← number, shape⟩
  link (.expr e)
  return e

/-- Makes a chain of field accesses from the segments after the first one. -/
def path (first : String) (rest : List String) : StateM Builder Expr := do
  rest.foldlM (fun receiver segment => expr (.field receiver segment)) (← expr (.name first))

/-- Makes a dotted name as a chain of field accesses. -/
def dottedPath (dotted : String) : StateM Builder Expr :=
  match Text.split '.' dotted with
  | [] => path "" []
  | first :: rest => path first rest

/-- Makes a statement. -/
def stmt (shape : StmtShape) : StateM Builder Stmt := do
  let s : Stmt := ⟨← number, shape⟩
  link (.stmt s)
  return s

/-- Makes a declaration; its number is set. -/
def decl (d : Decl) : StateM Builder Decl := do
  let d := { d with id := ← number }
  link (.decl d)
  return d

end Builder

/-- The type of a parameter as written.  Three dots at the end make it take any number of arguments,
and its type an array. -/
def Param.typeText (text : String) : String × Bool :=
  match Text.stripEnd? "..." text with
  | some element =>
    (String.ofList (Text.trimStartChars element.toList.reverse).reverse ++ "[]", true)
  | none => (text, false)

end JavaSema.Source
