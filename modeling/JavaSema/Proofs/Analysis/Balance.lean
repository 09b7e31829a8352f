import JavaSema.Analysis.Basic
import JavaSema.Proofs.Analysis.Lookup

/-!
# Checkers are balanced

Whatever node is checked, the scopes and frames are afterwards those from before: an expression leaves
them all, and a statement only adds to the innermost scope and to the values of the innermost frame.

There are three groups.

* `Checker.Balanced` is the footprint of each kind of node.
* One theorem for each function of the checkers, which takes a balanced checker for the parts.
* The induction over heights, and the result for expressions and statements.
-/

namespace JavaSema.Analysis

open Source

/-- The footprint of an expression: it records types and does nothing else. -/
def Footprint.ofExpr : Footprint := { marks := fun _ => True, binds := false, returns := false }

/-- The footprint of a statement: it may also bind symbols and return values. -/
def Footprint.ofStmt : Footprint := { marks := fun _ => True, binds := true, returns := true }

/-- All types may be recorded. -/
def Footprint.MarksAll (F : Footprint) : Prop := ∀ id, F.marks id

theorem Footprint.MarksAll.allows {F : Footprint} (h : F.MarksAll) (n : Node) : F.Allows n :=
  fun m _ _ => h m.id

theorem Footprint.MarksAll.ofExpr_le {F : Footprint} (h : F.MarksAll) : Footprint.ofExpr.Le F :=
  ⟨fun id _ => h id, fun _ => rfl, fun _ => rfl⟩

/-- The checker leaves scopes and frames as they were, except for what a statement adds to the
innermost ones. -/
structure Checker.Balanced (c : Checker) : Prop where
  /-- Expressions. -/
  expr : ∀ e expected, Has .ofExpr (c.expr e expected)
  /-- Expressions before a dot. -/
  qualifier : ∀ e, Has .ofExpr (c.qualifier e)
  /-- Lambdas and method references. -/
  functional : ∀ e target, Has .ofExpr (c.functional e target)
  /-- The parts of method references. -/
  methodRef : ∀ e, Has .ofExpr (c.methodRef e)
  /-- Statements. -/
  stmt : ∀ s, Has .ofStmt (c.stmt s)
  /-- Declarations. -/
  decl : ∀ d, Has .ofExpr (c.decl d)

variable {F : Footprint} {k : Nat} {c : Checker}

section

variable (hc : c.Balanced) (hF : F.MarksAll)

include hc hF

/-! ## The parts of a node -/

theorem Checker.Balanced.goes_expr (e : Expr) (expected : Option JType) :
    Goes F k k (c.expr e expected) :=
  ((hc.expr e expected).mono hF.ofExpr_le).goes

theorem Checker.Balanced.goes_qualifier (e : Expr) : Goes F k k (c.qualifier e) :=
  ((hc.qualifier e).mono hF.ofExpr_le).goes

theorem Checker.Balanced.goes_functional (e : Expr) (target : JType) :
    Goes F k k (c.functional e target) :=
  ((hc.functional e target).mono hF.ofExpr_le).goes

theorem Checker.Balanced.goes_methodRef (e : Expr) : Goes F k k (c.methodRef e) :=
  ((hc.methodRef e).mono hF.ofExpr_le).goes

theorem Checker.Balanced.goes_decl (d : Decl) : Goes F k k (c.decl d) :=
  ((hc.decl d).mono hF.ofExpr_le).goes

theorem Checker.Balanced.has_stmt (hb : F.binds = true) (hr : F.returns = true) (s : Stmt) :
    Has F (c.stmt s) := by
  refine (hc.stmt s).mono ⟨fun id _ => hF id, ?_, ?_⟩
  · intro h
    rw [hb] at h
    cases h
  · intro h
    rw [hr] at h
    cases h

/-! ## Names, lambdas and method references -/

theorem goes_nameAfterDot (e receiver : Expr) (name : String) (beforeDot : Bool) :
    Goes F k k (nameAfterDot c e receiver name beforeDot) := by
  refine (hc.goes_qualifier hF receiver).bind fun d => ?_
  split
  · exact goes_nameInPackage _ _ _ _
  · refine (goes_namesType receiver).bind fun _ => ?_
    exact .ite (goes_nameInType _ _ _) (goes_nameInValue _ _ _)

theorem goes_refReceiver (e : Expr) (target : RefTarget) : Goes F k k (refReceiver c e target) := by
  cases target with
  | type t => exact (goes_resolveType t (hF.allows _)).bind fun _ => .pure _
  | expr target =>
    refine (goes_typeOf? _).bind fun found => ?_
    split
    · exact Goes.bind (.pure _) fun _ => (goes_namesType target).bind fun _ => .pure _
    · exact (hc.goes_expr hF target none).bind fun _ => (goes_namesType target).bind fun _ => .pure _
  | parent => exact (goes_currentClass _).bind fun _ => .pure _

theorem goes_methodRefOf (e : Expr) : Goes F k k (methodRefOf c e) := by
  unfold methodRefOf
  split
  · refine (goes_resolveTypes _ fun t _ => hF.allows _).bind fun _ => ?_
    exact (goes_refReceiver hc hF e _).bind fun _ => .pure _
  · exact .failAt _ _

theorem has_bodyType (hb : F.binds = true) (expected : JType) (body : LambdaBody) :
    Has F (bodyType c expected body) := by
  cases body with
  | expr e => exact (hc.goes_expr hF e _).bind fun _ => .pure _
  | block s =>
    have hbody : Has F.returning (c.stmt s) := hc.has_stmt (F := F.returning) hF hb rfl s
    refine Goes.bind (.withFrame hbody _) fun r => ?_
    split
    · exact goes_classes.bind fun _ => .pure _
    · exact .pure _

theorem goes_checkLambda (e : Expr) (f : FunctionType) (params : List LambdaParam)
    (body : LambdaBody) : Goes F k k (checkLambda c e f params body) := by
  unfold checkLambda
  refine Goes.get.bind fun s => .ite (.failAt _ _) ?_
  refine Goes.bind (.inBlock ?_ _) fun produced => ?_
  · refine Goes.bind (has_bindParams rfl e f _ _ fun p _ t _ => ?_) fun _ => ?_
    · exact Footprint.MarksAll.allows (F := F.inner) hF _
    · exact has_bodyType (F := F.inner) hc hF rfl _ body
  · exact goes_classes.bind fun _ => .ite (.failAt _ _) (.pure _)

theorem goes_checkMethodRef (e : Expr) (f : FunctionType) : Goes F k k (checkMethodRef c e f) := by
  unfold checkMethodRef
  refine (goes_methodRefOf hc hF e).bind fun ref => ?_
  refine Goes.get.bind fun s => goes_classes.bind fun env => Goes.read.bind fun setting => ?_
  split
  · exact .failAt _ _
  · extract_lets -underBinder next
    have hnext : ∀ r, Goes F k k (next r) := by
      intro r
      refine Goes.get.bind fun s => goes_classes.bind fun env => ?_
      exact .ite (.failAt _ _) (.pure _)
    split
    · exact (goes_recordCall _ _).bind hnext
    · exact hnext ()

theorem goes_checkFunctional (e : Expr) (target : JType) :
    Goes F k k (checkFunctional c e target) := by
  unfold checkFunctional
  refine goes_classes.bind fun env => ?_
  split
  · exact .failAt _ _
  · extract_lets -underBinder next
    have hnext : ∀ r, Goes F k k (next r) := fun r => (Goes.record (hF _) _).bind fun _ => .pure _
    split
    · exact (goes_checkLambda hc hF e _ _ _).bind hnext
    · exact (goes_checkMethodRef hc hF e _).bind hnext
    · exact .failAt _ _

/-! ## Calls -/

theorem goes_classifyArg (e : Expr) : Goes F k k (classifyArg c e) := by
  unfold classifyArg
  split
  · exact (goes_lambdaShape _ _ fun _ _ t _ => hF.allows _).bind fun _ => .pure _
  · exact (hc.goes_methodRef hF e).bind fun _ => .pure _
  · exact (hc.goes_expr hF e none).bind fun _ => .pure _

theorem goes_classifyArgs (args : List Expr) : Goes F k k (classifyArgs c args) :=
  .mapM _ fun e _ => goes_classifyArg hc hF e

theorem goes_completeArg (i : Inference) (arg : Expr) (formal : JType) :
    Goes F k k (completeArg c i arg formal) := by
  unfold completeArg
  refine .ite (.pure _) ((hc.goes_functional hF arg _).bind fun outcome => ?_)
  refine goes_classes.bind fun env => ?_
  extract_lets -underBinder j next
  split
  · exact (Goes.record (hF _) _).bind fun _ => .pure _
  · exact .pure _

theorem goes_completeArgs (i : Inference) (args : List (Expr × JType)) :
    Goes F k k (completeArgs c i args) := by
  induction args generalizing i with
  | nil => exact .pure _
  | cons p rest ih => exact (goes_completeArg hc hF i p.1 p.2).bind fun j => ih j

theorem goes_completeCall (args : List Expr) (a : Applicable) :
    Goes F k k (completeCall c args a) :=
  (goes_completeArgs hc hF _ _).bind fun _ => .pure _

/-- A candidate that is given up leaves no scope open: those of its arguments are unwound. -/
theorem goes_completeFirst (args : List Expr) (failure : Option AnalysisError)
    (candidates : List Applicable) : Goes F k k (completeFirst c args failure candidates) := by
  refine Has.goes ?_
  induction candidates generalizing failure with
  | nil =>
    cases failure with
    | none => exact .pure _
    | some failure => exact .throw _
  | cons a rest ih =>
    refine .of_run fun setting s => ?_
    have hcall : Has F (completeCall c args a) := goes_completeCall hc hF args a
    obtain ⟨⟨j, hj⟩, hok⟩ := hcall.run setting s
    rw [completeFirst, run_bind_ok (run_get _ _), run_bind_ok (exec_attempt _ _ _)]
    rcases hrun : (exec (completeCall c args a setting) s).1 with e | b
    · dsimp only
      split
      · exact F.ends_error hj e
      · refine (ends_unwindTo hj setting).bind fun _ => ?_
        exact Goes.bind (.modifyGet (fun _ => rfl) (fun _ => rfl) fun _ => rfl) fun _ => ih _
    · exact (hok b hrun).ends _

theorem goes_completeBest (args : List Expr) (ranked : List Applicable) :
    Goes F k k (completeBest c args ranked) :=
  goes_completeFirst hc hF args none ranked

theorem goes_callWith (e : Expr) (typeArgs : List JType) (name : String) (args : List Expr)
    (candidates : List MethodCandidate) :
    Goes F k k (callWith c e typeArgs name args candidates) := by
  unfold callWith
  refine (goes_classifyArgs hc hF args).bind fun known => Goes.read.bind fun setting => ?_
  refine goes_classes.bind fun env => (goes_completeBest hc hF args _).bind fun best => ?_
  split
  · exact .failAt _ _
  · exact (goes_recordCall _ _).bind fun _ => .pure _

theorem goes_checkCall (e : Expr) (receiver : Option Expr) (typeArgs : List TypeRef)
    (name : String) (args : List Expr) :
    Goes F k k (checkCall c e receiver typeArgs name args) := by
  unfold checkCall
  refine (goes_resolveTypes _ fun t _ => hF.allows _).bind fun typeArgs => ?_
  split
  · exact (goes_bareMethods e name).bind fun _ => goes_callWith hc hF _ _ _ _ _
  · refine (hc.goes_qualifier hF _).bind fun d => ?_
    split
    · exact .failAt _ _
    · refine .ite (.failAt _ _) (.ite (.pure _) ?_)
      exact (goes_methodsOf _ _ _).bind fun _ => goes_callWith hc hF _ _ _ _ _

/-! ## Creation -/

theorem goes_checkAnonymous (n : Node) (d : Decl) (base : JType) :
    Goes F k k (checkAnonymous c n d base) := by
  unfold checkAnonymous
  refine (goes_currentClassName n).bind fun enclosing => (goes_inCatalog _).bind fun binary => ?_
  refine (goes_inCatalog _).bind fun _ => (goes_loadAt _ _).bind fun parent => ?_
  refine Goes.get.bind fun s => (Goes.record (hF _) _).bind fun _ => ?_
  refine (goes_declareBody d _ (hF.allows _)).bind fun _ => ?_
  exact (hc.goes_decl hF d).bind fun _ => .pure _

theorem goes_createdClass (e : Expr) (outer : Option Expr) (type : TypeRef) (name : QualifiedName) :
    Goes F k k (createdClass c e outer type name) := by
  unfold createdClass
  split
  · refine (goes_namedType? name).bind fun found => ?_
    split
    · exact .pure _
    · exact .failAt _ _
  · refine (hc.goes_expr hF _ none).bind fun owner => ?_
    refine Goes.get.bind fun s => goes_classes.bind fun env => ?_
    split
    · exact .pure _
    · exact .failAt _ _

theorem goes_createdType (e : Expr) (outer : Option Expr) (type : TypeRef) :
    Goes F k k (createdType c e outer type) := by
  unfold createdType
  split
  · refine (goes_createdClass hc hF e outer type _).bind fun base => ?_
    extract_lets -underBinder next
    have hnext : ∀ t, Goes F k k (next t) := fun t => (Goes.record (hF _) t).bind fun _ => .pure _
    split
    · refine (goes_resolveTypes _ fun t _ => hF.allows _).bind fun _ => ?_
      exact Goes.bind (.pure _) hnext
    · exact Goes.bind (.pure _) hnext
  · exact .failAt _ _

theorem goes_selectConstructor (e : Expr) (d : ClassDef) (t : JType) (args : List Expr)
    (isDiamond hasBody : Bool) (expected : Option JType) :
    Goes F k k (selectConstructor c e d t args isDiamond hasBody expected) := by
  unfold selectConstructor
  refine (goes_classifyArgs hc hF args).bind fun known => goes_classes.bind fun env => ?_
  refine Goes.read.bind fun setting => (goes_completeBest hc hF args _).bind fun best => ?_
  split
  · exact .failAt _ _
  · exact (goes_recordCall _ _).bind fun _ => .pure _

theorem goes_checkCreate (e : Expr) (outer : Option Expr) (type : TypeRef) (args : List Expr)
    (body : Option Decl) (expected : Option JType) :
    Goes F k k (checkCreate c e outer type args body expected) := by
  unfold checkCreate
  refine (goes_createdType hc hF e outer type).bind fun created => ?_
  refine (goes_loadAt _ _).bind fun d => .ite (.failAt _ _) ?_
  refine (goes_selectConstructor hc hF e d _ args _ _ expected).bind fun a => ?_
  extract_lets -underBinder result next
  have hnext : ∀ r, Goes F k k (next r) := by
    intro r
    cases body with
    | some body => exact goes_checkAnonymous hc hF _ body result
    | none => exact .pure _
  exact .ite ((Goes.record (hF _) _).bind hnext) (hnext ())

theorem goes_mergedType (acc : Option JType) (elements : List Expr) :
    Goes F k k (mergedType c acc elements) := by
  induction elements generalizing acc with
  | nil => exact .pure _
  | cons e rest ih =>
    exact (hc.goes_expr hF e none).bind fun t => (goes_mergeInto acc t).bind fun _ => ih _

theorem goes_checkArrayInit (elements : List Expr) (expected : Option JType) :
    Goes F k k (checkArrayInit c elements expected) := by
  unfold checkArrayInit
  split
  · exact Goes.bind (.forM _ fun e _ => (hc.goes_expr hF e _).discard) fun _ => .pure _
  · exact (goes_mergedType hc hF none elements).bind fun _ => .pure _

theorem goes_checkCreateArray (element : TypeRef) (sizes : List Expr) (extraDims : Nat)
    (init : Option Expr) : Goes F k k (checkCreateArray c element sizes extraDims init) := by
  unfold checkCreateArray
  refine (goes_resolveType element (hF.allows _)).bind fun element => ?_
  refine Goes.bind (.forM _ fun e _ => (hc.goes_expr hF e _).discard) fun _ => ?_
  split
  · exact (hc.goes_expr hF _ _).discard.bind fun _ => .pure _
  · exact .pure _

/-! ## Bodies of classes -/

theorem goes_checkConstant (d : Decl) (owner : ClassDef) (constant : EnumConstant) :
    Goes F k k (checkConstant c d owner constant) := by
  unfold checkConstant
  refine (goes_classifyArgs hc hF _).bind fun known => goes_classes.bind fun env => ?_
  refine Goes.read.bind fun setting => (goes_completeBest hc hF _ _).bind fun best => ?_
  split
  · exact .failNamed _ _
  · refine (goes_recordCall _ _).bind fun _ => ?_
    split
    · exact (goes_checkAnonymous hc hF _ _ _).discard
    · exact .pure _

theorem goes_checkFieldInits (owner : ClassDef) (f : FieldDecl) :
    Goes F k k (checkFieldInits c owner f) := by
  refine .forM _ fun v _ => ?_
  dsimp only
  split
  · have hinit := hc.goes_expr (F := F.returning) (k := 0) hF
    exact Goes.discard (.withFrame (hinit _ _) _)
  · exact .pure _

theorem has_checkMethodBody (hb : F.binds = true) (m : MethodDecl) (typeParams : List TypeParam)
    (body : Stmt) : Has F (checkMethodBody c m typeParams body) := by
  refine Goes.bind ((Moves.binds_below hb (bindTypeParams_binds _)).inTableFor _) fun _ => ?_
  refine (has_bindMethodParams hb _ fun p _ => hF.allows _).bind fun _ => ?_
  refine Goes.bind (.optionMapM _ fun t _ => goes_resolveType t (hF.allows _)) fun _ => ?_
  have hbody : Has F.returning (c.stmt body) := hc.has_stmt (F := F.returning) hF hb rfl body
  exact Goes.discard (.withFrame hbody _)

theorem goes_checkMethod (d : Decl) (m : MethodDecl) : Goes F k k (checkMethod c d m) := by
  unfold checkMethod
  split
  · refine Has.goes ?_
    refine (goes_typeParamsOf _ fun t _ => hF.allows _).bind fun typeParams => ?_
    refine Goes.bind ((Moves.pushScope _ _).inTable _) fun _ => ?_
    exact .closing (has_checkMethodBody (F := F.inner) hc hF rfl m _ _) (pops_inTable _).discard
  · exact .pure _

theorem has_checkMember (hb : F.binds = true) (d : Decl) (owner : ClassDef) (m : Member) :
    Has F (checkMember c d owner m) := by
  cases m with
  | field f => exact goes_checkFieldInits hc hF owner f
  | method m => exact goes_checkMethod hc hF d m
  | initializer isStatic body =>
    have hbody : Has F.returning (c.stmt body) := hc.has_stmt (F := F.returning) hF hb rfl body
    exact Goes.discard (.withFrame hbody _)
  | type nested => exact hc.goes_decl hF nested

theorem has_checkMembers (hb : F.binds = true) (d : Decl) (binary : String) :
    Has F (checkMembers c d binary) := by
  refine (goes_loadAt _ _).bind fun owner => Goes.read.bind fun setting => ?_
  refine Goes.bind (.forM _ fun s _ => has_bindSymbol hb _ s) fun _ => ?_
  refine Goes.bind (.forM _ fun constant _ => goes_checkConstant hc hF d owner constant) fun _ => ?_
  exact .forM _ fun m _ => has_checkMember hc hF hb d owner m

theorem goes_checkDecl (d : Decl) : Goes F k k (checkDecl c d) := by
  refine Has.goes ?_
  refine (goes_binaryNameOf d).bind fun binary => (goes_observerOf _).bind fun observer => ?_
  refine (goes_openClass d binary observer).bind fun _ => ?_
  exact .closing (has_checkMembers (F := F.inner) hc hF rfl d binary) (pops_closeClass d)

/-! ## Expressions -/

theorem goes_checkUnary (e : Expr) (op : UnaryOp) (operand : Expr) :
    Goes F k k (checkUnary c e op operand) := by
  refine (hc.goes_expr hF operand none).bind fun t => ?_
  split
  · exact .failAt _ _
  · exact .ite ((goes_recordWrite operand).bind fun _ => .pure _) (.pure _)

theorem goes_checkTarget (op : Option BinaryOp) (target : Expr) :
    Goes F k k (checkTarget c op target) := by
  unfold checkTarget
  split
  · refine (goes_lookupForWrite _ _ _).bind fun found => ?_
    split
    · exact (Goes.record (hF _) _).bind fun _ => .pure _
    · exact hc.goes_expr hF target none
  · exact (hc.goes_expr hF target none).bind fun _ => (goes_recordWrite target).bind fun _ => .pure _
  · exact hc.goes_expr hF target none

theorem goes_checkAssign (e : Expr) (op : Option BinaryOp) (target value : Expr) :
    Goes F k k (checkAssign c e op target value) := by
  refine (goes_checkTarget hc hF op target).bind fun t => ?_
  refine (hc.goes_expr hF value _).bind fun v => ?_
  split
  · exact (goes_operatorType _ _ _ _).discard.bind fun _ => .pure _
  · exact .pure _

theorem goes_checkIndex (e array position : Expr) : Goes F k k (checkIndex c e array position) := by
  refine (hc.goes_expr hF array none).bind fun t => (hc.goes_expr hF position _).bind fun p => ?_
  split
  · exact .pure _
  · exact .failAt _ _

theorem goes_exprType (e : Expr) (expected : Option JType) : Goes F k k (exprType c e expected) := by
  unfold exprType
  split
  · exact .pure _
  · exact (goes_bareName _ _ _).bind fun _ => goes_valueOf _ _ _
  · exact (goes_nameAfterDot hc hF _ _ _ _).bind fun _ => goes_valueOf _ _ _
  · exact goes_checkCall hc hF _ _ _ _ _
  · exact goes_checkCreate hc hF _ _ _ _ _ _
  · exact goes_checkCreateArray hc hF _ _ _ _
  · exact goes_checkArrayInit hc hF _ _
  · exact goes_checkIndex hc hF _ _ _
  · exact goes_checkUnary hc hF _ _ _
  · refine (hc.goes_expr hF _ _).bind fun l => (hc.goes_expr hF _ _).bind fun r => ?_
    exact goes_operatorType _ _ _ _
  · exact goes_checkAssign hc hF _ _ _ _
  · refine (hc.goes_expr hF _ _).bind fun _ => (hc.goes_expr hF _ _).bind fun t => ?_
    exact (hc.goes_expr hF _ _).bind fun f => goes_classes.bind fun _ => .pure _
  · refine (goes_resolveType _ (hF.allows _)).bind fun t => ?_
    exact (hc.goes_expr hF _ _).bind fun _ => .pure _
  · refine (hc.goes_expr hF _ _).bind fun _ => ?_
    exact (goes_resolveType _ (hF.allows _)).bind fun _ => .pure _
  · split
    · exact (goes_checkFunctional hc hF _ _).bind fun _ => .pure _
    · exact .failAt _ _
  · split
    · exact (goes_checkFunctional hc hF _ _).bind fun _ => .pure _
    · exact .failAt _ _
  · exact goes_checkSelf _ _
  · exact (goes_currentClass _).bind fun _ => .pure _
  · exact (goes_resolveType _ (hF.allows _)).bind fun _ => .pure _

theorem goes_checkExpr (e : Expr) (expected : Option JType) :
    Goes F k k (checkExpr c e expected) :=
  (goes_exprType hc hF e expected).bind fun t => (Goes.record (hF _) t).bind fun _ => .pure _

theorem goes_checkQualifier (e : Expr) : Goes F k k (checkQualifier c e) := by
  have hrecord : ∀ d, Goes F k k (recordValue e d) := by
    intro d
    cases d with
    | value t => exact (Goes.record (hF _) t).bind fun _ => .pure _
    | package dotted => exact .pure _
  unfold checkQualifier
  split
  · exact (goes_bareName _ _ _).bind hrecord
  · exact (goes_nameAfterDot hc hF _ _ _ _).bind hrecord
  · exact (goes_checkExpr hc hF e none).bind fun _ => .pure _

/-! ## Statements -/

theorem goes_variableType (s : Stmt) (type : TypeRef) (declared : Option JType) (v : Declarator) :
    Goes F k k (variableType c s type declared v) := by
  unfold variableType
  split
  · split
    · exact (hc.goes_expr hF _ _).discard.bind fun _ => .pure _
    · exact .pure _
  · refine (hc.goes_expr hF _ none).bind fun t => .ite (.failAt _ _) ?_
    exact (Goes.record (hF _) _).bind fun _ => .pure _
  · exact .failAt _ _

theorem has_checkVariables (hb : F.binds = true) (s : Stmt) (type : TypeRef)
    (declared : Option JType) (last : JType) (vs : List Declarator) :
    Has F (checkVariables c s type declared last vs) := by
  induction vs generalizing last with
  | nil => exact .pure _
  | cons v rest ih =>
    refine (goes_variableType hc hF s type declared v).bind fun t => ?_
    exact (has_bindVariable hb s v.name t).bind fun _ => ih t

theorem has_checkLocalClass (hb : F.binds = true) (s : Stmt) (d : Decl) :
    Has F (checkLocalClass c s d) := by
  refine (goes_currentClassName _).bind fun enclosing => (goes_inCatalog _).bind fun binary => ?_
  refine (goes_inCatalog _).bind fun _ => (goes_observerOf _).bind fun observer => ?_
  refine (has_bindSymbol hb _ _).bind fun _ => ?_
  refine (goes_classHeader d binary _ _ (hF.allows _)).bind fun header => ?_
  exact (goes_declareBody d header (hF.allows _)).bind fun _ => hc.goes_decl hF d

theorem goes_checkLabel (selector : JType) (e : Expr) : Goes F k k (checkLabel c selector e) := by
  unfold checkLabel
  split
  · refine goes_classes.bind fun env => ?_
    split
    · exact Goes.record (hF _) _
    · exact (hc.goes_expr hF _ _).discard
  · exact (hc.goes_expr hF _ _).discard

variable (hb : F.binds = true) (hr : F.returns = true)

include hb hr

theorem has_checkSequence (last : JType) (body : List Stmt) : Has F (checkSequence c last body) := by
  induction body generalizing last with
  | nil => exact .pure _
  | cons s rest ih => exact (hc.has_stmt hF hb hr s).bind fun t => ih t

theorem has_checkForEach (s : Stmt) (type : TypeRef) (name : String) (iterable : Expr)
    (body : Stmt) : Has F (checkForEach c s type name iterable body) := by
  refine (hc.goes_expr hF iterable none).bind fun source => ?_
  refine (goes_elementType s source).bind fun element => ?_
  have hrest : ∀ t, Has F (do bindVariable s name t; c.stmt body) := fun t =>
    (has_bindVariable hb s name t).bind fun _ => hc.has_stmt hF hb hr body
  split
  · exact (Goes.record (hF _) _).bind fun _ => Goes.bind (.pure _) hrest
  · exact (goes_resolveType type (hF.allows _)).bind hrest

theorem has_checkFor (init : List Stmt) (condition : Option Expr) (update : List Expr)
    (body : Stmt) : Has F (checkFor c init condition update body) := by
  have hrest : Has F (do update.forM fun e => discard (c.expr e none); c.stmt body) :=
    Goes.bind (.forM _ fun e _ => (hc.goes_expr hF e none).discard) fun _ =>
      hc.has_stmt hF hb hr body
  refine Goes.bind (.forM _ fun s _ => (hc.has_stmt hF hb hr s).discard) fun _ => ?_
  split
  · exact (hc.goes_expr hF _ _).discard.bind fun _ => hrest
  · exact hrest

theorem has_checkCases (selector : JType) (acc : Option JType) (cases : List SwitchCase) :
    Has F (checkCases c selector acc cases) := by
  induction cases generalizing acc with
  | nil => exact .pure _
  | cons branch rest ih =>
    refine Goes.bind (.forM _ fun e _ => goes_checkLabel hc hF selector e) fun _ => ?_
    refine (has_checkSequence hc hF hb hr _ _).bind fun t => ?_
    exact (goes_mergeInto acc t).bind fun merged => ih (some merged)

omit hb in
theorem goes_checkReturn (value : Option Expr) : Goes F k k (checkReturn c value) := by
  cases value with
  | none => exact .pure _
  | some e =>
    refine Goes.get.bind fun s => (hc.goes_expr hF e _).bind fun t => ?_
    exact (Goes.noteReturn hr t).bind fun _ => .pure _

omit hb in
theorem goes_checkCatch (clause : CatchClause) : Goes F k k (checkCatch c clause) := by
  refine (goes_caughtType _ _ fun t _ => hF.allows _).bind fun caught => .inBlock ?_ _
  refine (has_bindSymbol rfl _ _).bind fun _ => ?_
  exact hc.has_stmt (F := F.inner) hF rfl hr clause.body

omit hb in
theorem goes_checkCatches (acc : JType) (catches : List CatchClause) :
    Goes F k k (checkCatches c acc catches) := by
  induction catches generalizing acc with
  | nil => exact .pure _
  | cons clause rest ih =>
    exact (goes_checkCatch hc hF hr clause).bind fun t => goes_classes.bind fun env => ih _

theorem has_checkTry (s : Stmt) (resources : List Stmt) (body : Stmt)
    (catches : List CatchClause) (final : Option Stmt) :
    Has F (checkTry c s resources body catches final) := by
  refine Goes.bind (.inBlock ?_ _) fun t => ?_
  · have hstmt : ∀ s, Has F.inner (c.stmt s) := hc.has_stmt (F := F.inner) hF rfl hr
    exact Goes.bind (.forM _ fun r _ => (hstmt r).discard) fun _ => hstmt body
  · refine (goes_checkCatches hc hF hr t catches).bind fun t => ?_
    split
    · exact (hc.has_stmt hF hb hr _).discard.bind fun _ => .pure _
    · exact .pure _

theorem has_stmtType (s : Stmt) : Has F (stmtType c s) := by
  unfold stmtType
  split
  · exact .inBlock (has_checkSequence (F := F.inner) hc hF rfl hr _ _) _
  · split
    · exact Goes.bind (.pure _) fun _ => has_checkVariables hc hF hb _ _ _ _ _
    · refine Goes.bind (Goes.map _ (goes_resolveType _ (hF.allows _))) fun _ => ?_
      exact has_checkVariables hc hF hb _ _ _ _ _
  · exact (has_checkLocalClass hc hF hb s _).bind fun _ => .pure _
  · exact hc.goes_expr hF _ _
  · refine (hc.goes_expr hF _ _).bind fun _ => (hc.has_stmt hF hb hr _).bind fun t => ?_
    split
    · exact .pure _
    · exact (hc.has_stmt hF hb hr _).bind fun f => goes_classes.bind fun _ => .pure _
  · exact (hc.goes_expr hF _ _).bind fun _ => hc.has_stmt hF hb hr _
  · refine (hc.has_stmt hF hb hr _).bind fun t => ?_
    exact (hc.goes_expr hF _ _).bind fun _ => .pure _
  · exact .inBlock (has_checkFor (F := F.inner) hc hF rfl hr _ _ _ _) _
  · exact .inBlock (has_checkForEach (F := F.inner) hc hF rfl hr _ _ _ _ _) _
  · refine (hc.goes_expr hF _ _).bind fun t => Goes.bind (.inBlock ?_ _) fun _ => .pure _
    exact has_checkCases (F := F.inner) hc hF rfl hr _ _ _
  · exact goes_checkReturn hc hF hr _
  · exact .pure _
  · exact .pure _
  · exact .pure _
  · exact (hc.goes_expr hF _ _).bind fun _ => .pure _
  · exact has_checkTry hc hF hb hr _ _ _ _ _
  · exact hc.has_stmt hF hb hr _

theorem has_checkStmt (s : Stmt) : Has F (checkStmt c s) :=
  (has_stmtType hc hF hb hr s).bind fun t => (Goes.record (hF _) t).bind fun _ => .pure _

end

/-! ## All heights -/

namespace Checker

theorem balanced_none : Checker.none.Balanced :=
  ⟨fun _ _ => .failAt _ _, fun _ => .failAt _ _, fun _ _ => .failAt _ _, fun _ => .failAt _ _,
    fun _ => .failAt _ _, fun _ => .failAt _ _⟩

/-- A checker is balanced if the checker of the parts is. -/
theorem Balanced.step (hc : c.Balanced) : c.step.Balanced := by
  have hF : Footprint.ofExpr.MarksAll := fun _ => trivial
  have hF' : Footprint.ofStmt.MarksAll := fun _ => trivial
  exact
    { expr := fun e expected => goes_checkExpr hc hF e expected
      qualifier := fun e => goes_checkQualifier hc hF e
      functional := fun e target => goes_checkFunctional hc hF e target
      methodRef := fun e => goes_methodRefOf hc hF e
      stmt := fun s => has_checkStmt hc hF' rfl rfl s
      decl := fun d => goes_checkDecl hc hF d }

/-- Checkers of all heights are balanced. -/
theorem balanced_upTo (height : Nat) : (upTo height).Balanced := by
  induction height with
  | zero => exact balanced_none
  | succ height ih => exact ih.step

end Checker

/-! ## Reachable states -/

/-- A step with a footprint leads from reachable tables to reachable ones, also where it fails. -/
theorem Has.reachable {α : Type} {m : Check α} (h : Has F m) (setting : Setting) {s : State}
    (hs : s.table.Reachable) : (exec (m setting) s).2.table.Reachable := by
  obtain ⟨⟨j, hj⟩, -⟩ := h.run setting s
  exact (hj.table hs).1

theorem checkUnit_reachable (u : SourceUnit) (setting : Setting) (s : State) :
    (exec (checkUnit u setting) s).2.table.Reachable := by
  let opened : State :=
    { s with table := { observer := setting.observers.ofUnit, rejects := setting.observers.rejects } }
  have hrest : Has .ofExpr (do
      inTableFor u.packageName.toDotted (SymbolTable.pushScope .block none)
      inTableFor u.packageName.toDotted (← get).catalog.populate
      u.types.forM (Checker.upTo u.height).decl
      discard (inTableFor u.packageName.toDotted SymbolTable.popScope)) := by
    refine Goes.bind ((Moves.pushScope _ _).inTableFor _) fun _ => Goes.get.bind fun s => ?_
    refine Goes.bind ((Moves.binds (populate_binds _)).inTableFor _) fun _ => ?_
    refine Goes.bind (.forM _ fun d _ => ((Checker.balanced_upTo _).decl d).goes) fun _ => ?_
    exact (Moves.popScope.inTableFor _).discard
  have hopened : opened.table.Reachable := .empty _ _
  have hread : exec ((read : Check Setting) setting) s = (.ok setting, s) := rfl
  rw [checkUnit, run_bind_ok hread, run_bind_ok (run_modify _ _ _)]
  exact hrest.reachable setting hopened

/-- An analysis ends with a reachable table, also where it fails. -/
theorem analyzeFrom_reachable (setting : Setting) (u : SourceUnit) (typings : Typings) :
    (analyzeFrom setting u typings).2.table.Reachable := by
  have hdeclare : Has .ofExpr (declareUnit u) :=
    has_declareUnit u fun d _ => Footprint.MarksAll.allows (fun _ => trivial) _
  have hstart : (start setting u typings).table.Reachable := .empty none _
  have hdeclared := hdeclare.reachable setting hstart
  show (exec ((do declareUnit u; checkUnit u : Check Unit) setting)
    (start setting u typings)).2.table.Reachable
  rcases hrun : exec (declareUnit u setting) (start setting u typings) with ⟨e | a, s⟩
  · rw [run_bind_error hrun]
    rwa [hrun] at hdeclared
  · rw [run_bind_ok hrun]
    exact checkUnit_reachable u setting s

/-! ## Scopes and frames after a node -/

theorem noteAll_lambda (values returns : List JType) (expected : JType) (rest : List Frame) :
    noteAll values (.lambda expected returns :: rest)
      = .lambda expected (returns ++ values) :: rest := by
  induction values generalizing returns with
  | nil => rw [List.append_nil]; rfl
  | cons t values ih =>
    have hnext := ih (returns ++ [t])
    rw [List.append_assoc] at hnext
    exact hnext

/-- Values are noted in the innermost frame, if that is one of a lambda. -/
theorem noteAll_cases (values : List JType) (frames : List Frame) :
    noteAll values frames = frames ∨
      ∃ expected returns rest, frames = .lambda expected returns :: rest ∧
        noteAll values frames = .lambda expected (returns ++ values) :: rest := by
  have hkept : (∀ t, noteReturn t frames = frames) → noteAll values frames = frames := by
    intro hnote
    induction values with
    | nil => rfl
    | cons t values ih =>
      show noteAll values (noteReturn t frames) = frames
      rw [hnote t]
      exact ih
  cases frames with
  | nil => exact .inl (hkept fun _ => rfl)
  | cons frame rest =>
    cases frame with
    | method returnType => exact .inl (hkept fun _ => rfl)
    | initializer => exact .inl (hkept fun _ => rfl)
    | lambda expected returns =>
      exact .inr ⟨expected, returns, rest, rfl, noteAll_lambda values returns expected rest⟩

/-- From a state with a reachable table, an expression that is checked leaves the scopes with their
symbols, members apart, and the frames.  A statement that is checked lets the innermost scope grow and
leaves the others with their symbols; of the frames it can change the innermost one, and that only by
adding values to what a lambda returned so far. -/
theorem checked_scopes_and_frames (setting : Setting) (height : Nat) (s : State)
    (hs : s.table.Reachable) :
    (∀ (e : Expr) (expected : Option JType) (t : JType) (s' : State),
      exec ((Checker.upTo height).expr e expected setting) s = (.ok t, s') →
        s'.table.Sound ∧ s'.table.scopes.map Scope.bare = s.table.scopes.map Scope.bare ∧
          s'.frames = s.frames) ∧
    (∀ (stmt : Stmt) (t : JType) (s' : State),
      exec ((Checker.upTo height).stmt stmt setting) s = (.ok t, s') →
        s'.table.Sound ∧ Grown s.table.scopes s'.table.scopes ∧
          (s'.frames = s.frames ∨
            ∃ expected returns values rest, s.frames = .lambda expected returns :: rest ∧
              s'.frames = .lambda expected (returns ++ values) :: rest)) := by
  have hbalanced := Checker.balanced_upTo height
  constructor
  · intro e expected t s' hrun
    have hend := ((hbalanced.expr e expected).run setting s).2 t
    rw [hrun] at hend
    obtain ⟨-, ⟨values, hframes, hnone⟩, htable⟩ := hend rfl
    obtain ⟨hreach, top, kept, hscopes, htop, -, hbare⟩ := htable hs
    obtain rfl : top = [] := List.eq_nil_of_length_eq_zero htop
    rw [List.nil_append] at hscopes
    refine ⟨hreach.sound, ?_, ?_⟩
    · rw [hscopes]
      exact hbare rfl
    · rw [hframes, hnone rfl]
      rfl
  · intro stmt t s' hrun
    have hend := ((hbalanced.stmt stmt).run setting s).2 t
    rw [hrun] at hend
    obtain ⟨-, ⟨values, hframes, -⟩, htable⟩ := hend rfl
    obtain ⟨hreach, top, kept, hscopes, htop, hgrown, -⟩ := htable hs
    obtain rfl : top = [] := List.eq_nil_of_length_eq_zero htop
    rw [List.nil_append] at hscopes
    refine ⟨hreach.sound, ?_, ?_⟩
    · rw [hscopes]
      exact hgrown
    · rw [hframes]
      rcases noteAll_cases values s.frames with hsame | ⟨expected, returns, rest, hlambda, hnoted⟩
      · exact .inl hsame
      · exact .inr ⟨expected, returns, values, rest, hlambda, hnoted⟩

/-- A setting without classes. -/
def noClasses : Setting := { classes := ClassTable.toEnv {} }

/-- The state inside the block of a lambda that is the initial value of a field, before any
statement: the scopes of the unit, of the class and of the lambda are open. -/
def insideLambda : State :=
  let ofUnit := (exec (SymbolTable.pushScope .block none) {}).2
  let ofClass := (exec (SymbolTable.pushClassScope "A" none) ofUnit).2
  { table := (exec (SymbolTable.pushScope .block none) ofClass).2
    frames := [.lambda .object [], .initializer] }

theorem insideLambda_reachable : insideLambda.table.Reachable :=
  (((SymbolTable.Reachable.empty none _).pushScope .block none).pushClassScope "A" none).pushScope
    .block none

/-- The statement that returns `null`. -/
def returnNull : Stmt := ⟨1, .ret (some ⟨0, .literal .null "null"⟩)⟩

/-- A `return` in the block of a lambda leaves the scopes and is noted. -/
theorem returnNull_scopes_and_frames :
    insideLambda.table.Reachable ∧
      ∃ t s', exec ((Checker.upTo 2).stmt returnNull noClasses) insideLambda = (.ok t, s') ∧
        Grown insideLambda.table.scopes s'.table.scopes ∧
        ∃ expected returns values rest, insideLambda.frames = .lambda expected returns :: rest ∧
          s'.frames = .lambda expected (returns ++ values) :: rest := by
  refine ⟨insideLambda_reachable, _, _, rfl, ?_⟩
  obtain ⟨-, hgrown, hframes⟩ :=
    (checked_scopes_and_frames noClasses 2 insideLambda insideLambda_reachable).2 returnNull _ _ rfl
  exact ⟨hgrown, hframes.resolve_left nofun⟩

/-- A statement may change the frames: a `return` in the block of a lambda is noted there. -/
theorem returnNull_changes_frames :
    ¬ ∀ (setting : Setting) (height : Nat) (s : State), s.table.Reachable →
      ∀ (stmt : Stmt) (t : JType) (s' : State),
        exec ((Checker.upTo height).stmt stmt setting) s = (.ok t, s') → s'.frames = s.frames := by
  intro hkept
  have hframes := hkept noClasses 2 insideLambda insideLambda_reachable returnNull _ _ rfl
  cases hframes

end JavaSema.Analysis
