import JavaSema.Source.Tree

/-!
# Nodes

Types, expressions, statements and declarations seen alike: their children in order of evaluation,
their height and the nodes below them, parents before children.
-/

namespace JavaSema.Source

/-- A node of the tree. -/
inductive Node where
  /-- A type reference. -/
  | type (t : TypeRef)
  /-- An expression. -/
  | expr (e : Expr)
  /-- A statement. -/
  | stmt (s : Stmt)
  /-- A declaration. -/
  | decl (d : Decl)

/-- The direct children of a type reference. -/
def TypeRef.children (t : TypeRef) : List TypeRef :=
  match t.shape with
  | .named _ (some args) => args
  | .array element _ => [element]
  | .wildUpper bound => [bound]
  | .wildLower bound => [bound]
  | _ => []

/-- The initial values of the variables. -/
def Declarator.inits (ds : List Declarator) : List Expr := ds.filterMap Declarator.init

/-- The bounds of the type parameters. -/
def TypeParamDecl.allBounds (ps : List TypeParamDecl) : List TypeRef :=
  ps.flatMap TypeParamDecl.bounds

/-- The direct children of an expression, in order of evaluation. -/
def Expr.children (e : Expr) : List Node :=
  match e.shape with
  | .literal _ _ | .name _ | .self _ | .parent => []
  | .field receiver _ => [.expr receiver]
  | .call receiver typeArgs _ args =>
    receiver.toList.map .expr ++ typeArgs.map .type ++ args.map .expr
  | .create outer type args body =>
    outer.toList.map .expr ++ [.type type] ++ args.map .expr ++ body.toList.map .decl
  | .createArray element sizes _ init =>
    [.type element] ++ sizes.map .expr ++ init.toList.map .expr
  | .arrayInit elements => elements.map .expr
  | .index array position => [.expr array, .expr position]
  | .unary _ operand => [.expr operand]
  | .binary _ left right => [.expr left, .expr right]
  | .assign _ target value => [.expr target, .expr value]
  | .conditional c a b => [.expr c, .expr a, .expr b]
  | .cast type operand => [.type type, .expr operand]
  | .instanceOf operand type => [.expr operand, .type type]
  | .lambda params body =>
    (params.filterMap LambdaParam.type).map .type
      ++ (match body with
        | .expr e => [.expr e]
        | .block s => [.stmt s])
  | .methodRef target typeArgs _ =>
    (match target with
      | .expr e => [.expr e]
      | .type t => [.type t]
      | .parent => [])
      ++ typeArgs.map .type
  | .classLiteral type => [.type type]

/-- The direct children of a case. -/
def SwitchCase.children (c : SwitchCase) : List Node :=
  c.labels.map .expr ++ c.body.map .stmt

/-- The direct children of a handler. -/
def CatchClause.children (c : CatchClause) : List Node :=
  c.types.map .type ++ [.stmt c.body]

/-- The direct children of a statement, in order. -/
def Stmt.children (s : Stmt) : List Node :=
  match s.shape with
  | .block body => body.map .stmt
  | .vars type ds => [.type type] ++ (Declarator.inits ds).map .expr
  | .decl d => [.decl d]
  | .expr e => [.expr e]
  | .throw e => [.expr e]
  | .ifElse c a b => [.expr c, .stmt a] ++ b.toList.map .stmt
  | .whileLoop c body => [.expr c, .stmt body]
  | .doWhile body c => [.stmt body, .expr c]
  | .forLoop init c update body =>
    init.map .stmt ++ c.toList.map .expr ++ update.map .expr ++ [.stmt body]
  | .forEach type _ iterable body => [.type type, .expr iterable, .stmt body]
  | .switch selector cases => [.expr selector] ++ cases.flatMap SwitchCase.children
  | .ret value => value.toList.map .expr
  | .breakTo _ | .continueTo _ | .empty => []
  | .tryCatch resources body catches final =>
    resources.map .stmt ++ [.stmt body] ++ catches.flatMap CatchClause.children
      ++ final.toList.map .stmt
  | .labeled _ body => [.stmt body]

/-- The direct children of a constant. -/
def EnumConstant.children (c : EnumConstant) : List Node :=
  c.args.map .expr ++ c.body.toList.map .decl

/-- The direct children of a member. -/
def Member.children : Member → List Node
  | .field f => [.type f.type] ++ (Declarator.inits f.declarators).map .expr
  | .method m =>
    (TypeParamDecl.allBounds m.typeParams).map .type ++ m.returnType.toList.map .type
      ++ (m.params.map Param.type).map .type ++ m.body.toList.map .stmt
  | .initializer _ body => [.stmt body]
  | .type d => [.decl d]

/-- The direct children of a declaration, in order. -/
def Decl.children (d : Decl) : List Node :=
  (TypeParamDecl.allBounds d.typeParams).map .type ++ d.parent.toList.map .type
    ++ d.interfaces.map .type ++ d.constants.flatMap EnumConstant.children
    ++ d.members.flatMap Member.children

namespace Node

/-- The number of the node. -/
def id : Node → NodeId
  | type t => t.id
  | expr e => e.id
  | stmt s => s.id
  | decl d => d.id

/-- The direct children, in order of evaluation. -/
def children : Node → List Node
  | type t => t.children.map .type
  | expr e => e.children
  | stmt s => s.children
  | decl d => d.children

/-! ### Children are smaller -/

theorem sizeOf_le_of_mem_map {α : Type} [SizeOf α] {f : α → Node} {l : List α} {c : Node}
    (hf : ∀ a, sizeOf (f a) = 1 + sizeOf a) (h : c ∈ l.map f) : sizeOf c ≤ sizeOf l := by
  obtain ⟨a, ha, rfl⟩ := List.mem_map.mp h
  have := List.sizeOf_lt_of_mem ha
  rw [hf]; omega

theorem sizeOf_le_of_mem_opt {α : Type} [SizeOf α] {f : α → Node} {o : Option α} {c : Node}
    (hf : ∀ a, sizeOf (f a) = 1 + sizeOf a) (h : c ∈ o.toList.map f) : sizeOf c ≤ sizeOf o := by
  cases o with
  | none => simp at h
  | some a =>
    simp only [Option.toList_some, List.map_cons, List.map_nil, List.mem_singleton] at h
    subst h
    simp [hf]

theorem sizeOf_le_of_mem_filterMap {α β : Type} [SizeOf α] [SizeOf β] {f : β → Node}
    {g : α → Option β} {l : List α} {c : Node} (hf : ∀ b, sizeOf (f b) = 1 + sizeOf b)
    (hg : ∀ a b, g a = some b → sizeOf b < sizeOf a) (h : c ∈ (l.filterMap g).map f) :
    sizeOf c ≤ sizeOf l := by
  obtain ⟨b, hb, rfl⟩ := List.mem_map.mp h
  obtain ⟨a, ha, hab⟩ := List.mem_filterMap.mp hb
  have := List.sizeOf_lt_of_mem ha
  have := hg a b hab
  rw [hf]; omega

theorem sizeOf_lt_of_mem_flatMap {α : Type} [SizeOf α] {g : α → List Node} {l : List α} {c : Node}
    (hg : ∀ a c, c ∈ g a → sizeOf c ≤ sizeOf a) (h : c ∈ l.flatMap g) : sizeOf c < sizeOf l := by
  obtain ⟨a, ha, hc⟩ := List.mem_flatMap.mp h
  have := List.sizeOf_lt_of_mem ha
  have := hg a c hc
  omega

theorem sizeOf_init_lt {d : Declarator} {e : Expr} (h : d.init = some e) :
    sizeOf e < sizeOf d := by
  obtain ⟨name, dims, init⟩ := d
  subst h
  simp; omega

theorem sizeOf_lambdaParam_lt {p : LambdaParam} {t : TypeRef} (h : p.type = some t) :
    sizeOf t < sizeOf p := by
  obtain ⟨name, type⟩ := p
  subst h
  simp; omega

theorem sizeOf_le_of_mem_allBounds {ps : List TypeParamDecl} {c : Node}
    (h : c ∈ (TypeParamDecl.allBounds ps).map Node.type) : sizeOf c ≤ sizeOf ps := by
  obtain ⟨t, ht, rfl⟩ := List.mem_map.mp h
  obtain ⟨p, hp, hb⟩ := List.mem_flatMap.mp ht
  have := List.sizeOf_lt_of_mem hp
  have := List.sizeOf_lt_of_mem hb
  obtain ⟨name, bounds⟩ := p
  simp only [TypeParamDecl.mk.sizeOf_spec, Node.type.sizeOf_spec] at *
  omega

theorem sizeOf_le_of_mem_params {ps : List Param} {c : Node}
    (h : c ∈ (ps.map Param.type).map Node.type) : sizeOf c ≤ sizeOf ps := by
  rw [List.map_map] at h
  obtain ⟨p, hp, rfl⟩ := List.mem_map.mp h
  have := List.sizeOf_lt_of_mem hp
  obtain ⟨name, type, isVarargs⟩ := p
  simp only [Param.mk.sizeOf_spec, Function.comp_apply, Node.type.sizeOf_spec] at *
  omega

theorem sizeOf_lt_of_mem_typeChildren {t u : TypeRef} (h : u ∈ t.children) :
    sizeOf u < sizeOf t := by
  obtain ⟨id, shape⟩ := t
  cases shape with
  | named name args =>
    cases args with
    | none => simp [TypeRef.children] at h
    | some args =>
      have := List.sizeOf_lt_of_mem (show u ∈ args from h)
      simp; omega
  | primitive | void | inferred | wild => simp [TypeRef.children] at h
  | array | wildUpper | wildLower =>
    simp only [TypeRef.children, List.mem_singleton] at h
    subst h
    simp; omega

theorem sizeOf_lt_of_mem_exprChildren {e : Expr} {c : Node} (h : c ∈ e.children) :
    sizeOf c ≤ sizeOf e := by
  obtain ⟨id, shape⟩ := e
  cases shape with
  | lambda params body =>
    cases body
    all_goals simp only [Expr.children, List.mem_append, List.mem_singleton] at h
    all_goals refine Or.elim h (fun h => ?_) (fun h => ?_)
    all_goals first
      | (subst h; simp; omega)
      | (have hs := sizeOf_le_of_mem_filterMap (fun _ => by simp)
          (fun _ _ => sizeOf_lambdaParam_lt) h; simp; omega)
  | methodRef target typeArgs name =>
    cases target
    all_goals simp only [Expr.children, List.mem_append, List.mem_singleton, List.not_mem_nil,
      false_or] at h
    all_goals repeat' (refine Or.elim h (fun h => ?_) (fun h => ?_))
    all_goals first
      | (subst h; simp; omega)
      | (have hs := sizeOf_le_of_mem_map (fun _ => by simp) h; simp; omega)
  | _ =>
    all_goals simp only [Expr.children, List.mem_append, List.mem_cons, List.not_mem_nil,
      or_false] at h
    all_goals repeat' (refine Or.elim h (fun h => ?_) (fun h => ?_))
    all_goals first
      | (subst h; simp <;> omega)
      | (have hs := sizeOf_le_of_mem_map (fun _ => by simp) h; simp; omega)
      | (have hs := sizeOf_le_of_mem_opt (fun _ => by simp) h; simp; omega)

theorem sizeOf_le_of_mem_caseChildren (s : SwitchCase) (c : Node) (h : c ∈ s.children) :
    sizeOf c ≤ sizeOf s := by
  obtain ⟨labels, body⟩ := s
  simp only [SwitchCase.children, List.mem_append] at h
  rcases h with h | h
  all_goals have := sizeOf_le_of_mem_map (fun _ => by simp) h
  all_goals simp; omega

theorem sizeOf_le_of_mem_catchChildren (s : CatchClause) (c : Node) (h : c ∈ s.children) :
    sizeOf c ≤ sizeOf s := by
  obtain ⟨types, name, body⟩ := s
  simp only [CatchClause.children, List.mem_append, List.mem_singleton] at h
  rcases h with h | h
  · have := sizeOf_le_of_mem_map (fun _ => by simp) h
    simp; omega
  · subst h; simp; omega

theorem sizeOf_lt_of_mem_stmtChildren {s : Stmt} {c : Node} (h : c ∈ s.children) :
    sizeOf c ≤ sizeOf s := by
  obtain ⟨id, shape⟩ := s
  cases shape with
  | _ =>
    all_goals simp only [Stmt.children, List.mem_append, List.mem_cons, List.not_mem_nil,
      or_false] at h
    all_goals repeat' (refine Or.elim h (fun h => ?_) (fun h => ?_))
    all_goals first
      | (subst h; simp <;> omega)
      | (have hs := sizeOf_le_of_mem_map (fun _ => by simp) h; simp; omega)
      | (have hs := sizeOf_le_of_mem_opt (fun _ => by simp) h; simp; omega)
      | (have hs := sizeOf_le_of_mem_filterMap (fun _ => by simp) (fun _ _ => sizeOf_init_lt) h
         simp; omega)
      | (have hs := sizeOf_lt_of_mem_flatMap sizeOf_le_of_mem_caseChildren h; simp; omega)
      | (have hs := sizeOf_lt_of_mem_flatMap sizeOf_le_of_mem_catchChildren h; simp; omega)

theorem sizeOf_le_of_mem_constantChildren (k : EnumConstant) (c : Node) (h : c ∈ k.children) :
    sizeOf c ≤ sizeOf k := by
  obtain ⟨name, args, body⟩ := k
  simp only [EnumConstant.children, List.mem_append] at h
  rcases h with h | h
  · have := sizeOf_le_of_mem_map (fun _ => by simp) h
    simp; omega
  · have := sizeOf_le_of_mem_opt (fun _ => by simp) h
    simp; omega

theorem sizeOf_le_of_mem_memberChildren (m : Member) (c : Node) (h : c ∈ m.children) :
    sizeOf c ≤ sizeOf m := by
  cases m with
  | field f =>
    obtain ⟨modifiers, type, declarators⟩ := f
    simp only [Member.children, List.mem_append, List.mem_singleton] at h
    rcases h with h | h
    · subst h; simp; omega
    · have := sizeOf_le_of_mem_filterMap (fun _ => by simp) (fun _ _ => sizeOf_init_lt) h
      simp; omega
  | method m =>
    obtain ⟨modifiers, typeParams, returnType, name, params, body⟩ := m
    simp only [Member.children, List.mem_append] at h
    rcases h with ((h | h) | h) | h
    · have := sizeOf_le_of_mem_allBounds h
      simp; omega
    · have := sizeOf_le_of_mem_opt (fun _ => by simp) h
      simp; omega
    · have := sizeOf_le_of_mem_params h
      simp; omega
    · have := sizeOf_le_of_mem_opt (fun _ => by simp) h
      simp; omega
  | initializer isStatic body =>
    simp only [Member.children, List.mem_singleton] at h
    subst h; simp
  | type d =>
    simp only [Member.children, List.mem_singleton] at h
    subst h; simp

theorem sizeOf_lt_of_mem_declChildren {d : Decl} {c : Node} (h : c ∈ d.children) :
    sizeOf c ≤ sizeOf d := by
  obtain ⟨id, name, kind, modifiers, typeParams, parent, interfaces, constants, members, span⟩ := d
  simp only [Decl.children, List.mem_append] at h
  rcases h with (((h | h) | h) | h) | h
  · have := sizeOf_le_of_mem_allBounds h
    simp; omega
  · have := sizeOf_le_of_mem_opt (fun _ => by simp) h
    simp; omega
  · have := sizeOf_le_of_mem_map (fun _ => by simp) h
    simp; omega
  · have := sizeOf_lt_of_mem_flatMap sizeOf_le_of_mem_constantChildren h
    simp; omega
  · have := sizeOf_lt_of_mem_flatMap sizeOf_le_of_mem_memberChildren h
    simp; omega

/-- A child is smaller than its parent. -/
theorem sizeOf_lt_of_mem_children {n c : Node} (h : c ∈ n.children) : sizeOf c < sizeOf n := by
  cases n with
  | type t =>
    obtain ⟨u, hu, rfl⟩ := List.mem_map.mp h
    have := sizeOf_lt_of_mem_typeChildren hu
    simpa using this
  | expr e =>
    have := sizeOf_lt_of_mem_exprChildren h
    simp; omega
  | stmt s =>
    have := sizeOf_lt_of_mem_stmtChildren h
    simp; omega
  | decl d =>
    have := sizeOf_lt_of_mem_declChildren h
    simp; omega

/-- The number of nodes on the longest way down, this one included. -/
def height (n : Node) : Nat :=
  1 + (n.children.attach.map fun ⟨c, _⟩ => c.height).foldl max 0
termination_by sizeOf n
decreasing_by exact sizeOf_lt_of_mem_children ‹_›

/-- The node and those below it, parents before children, without what lies below nodes that `enter`
excludes. -/
def below (enter : Node → Bool) (n : Node) : List Node :=
  n :: (if enter n then n.children.attach.flatMap fun ⟨c, _⟩ => c.below enter else [])
termination_by sizeOf n
decreasing_by exact sizeOf_lt_of_mem_children ‹_›

end Node

/-- The nodes of a unit, parents before children. -/
def SourceUnit.nodes (u : SourceUnit) : List Node :=
  u.types.flatMap fun d => (Node.decl d).below fun _ => true

/-- The declarations of the unit, each before those in it. -/
def SourceUnit.decls (u : SourceUnit) : List Decl :=
  u.nodes.filterMap fun
    | .decl d => some d
    | _ => none

/-- The height of a unit: that of its highest declaration. -/
def SourceUnit.height (u : SourceUnit) : Nat :=
  (u.types.map fun d => (Node.decl d).height).foldl max 0

end JavaSema.Source
