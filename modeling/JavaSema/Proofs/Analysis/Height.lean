import JavaSema.Analysis.Basic
import JavaSema.Proofs.Source.Below
import Mathlib.Logic.Function.Iterate

/-!
# Heights suffice

Bodies are checked, and classes are declared, down to a height that the caller gives.  The height of
the tree is enough: more of it changes nothing, and a checker that gives up below it is never asked.

There are four groups.

* `Checker.AgreeOn` compares two checkers at the nodes of a set.
* One theorem for each function that takes the checker of the parts: it does the same with checkers
  that agree on the parts.
* `Checker.full` checks nodes of all heights.  It is the one checker that checks a node with itself
  for the parts (`step_full`, `eq_full`), and it is what the bodies of a unit are checked with
  (`checkUnit_eq`).
* Classes are declared with their member classes, each down to its own height
  (`declareHeader_height`, `declareMembers_height`).

## Implementation notes

That two checkers agree is an equation of steps, not of runs, so that the state does not come in.  A
theorem for a function takes the nodes that the function looks into; `AgreeOn.step` collects them as
the children of the node.
-/

namespace JavaSema.Analysis

open Source

/-! ## Checkers that agree -/

/-- The checkers do the same at each of the nodes. -/
structure Checker.AgreeOn (N : Node → Prop) (c c' : Checker) : Prop where
  /-- Expressions. -/
  expr : ∀ e, N (.expr e) → c.expr e = c'.expr e
  /-- Expressions before a dot. -/
  qualifier : ∀ e, N (.expr e) → c.qualifier e = c'.qualifier e
  /-- Lambdas and method references. -/
  functional : ∀ e, N (.expr e) → c.functional e = c'.functional e
  /-- The parts of method references. -/
  methodRef : ∀ e, N (.expr e) → c.methodRef e = c'.methodRef e
  /-- Statements. -/
  stmt : ∀ s, N (.stmt s) → c.stmt s = c'.stmt s
  /-- Declarations. -/
  decl : ∀ d, N (.decl d) → c.decl d = c'.decl d

theorem forM_congr {α : Type} {l : List α} {f g : α → Check PUnit} (h : ∀ a ∈ l, f a = g a) :
    l.forM f = l.forM g := by
  induction l with
  | nil => rfl
  | cons a l ih =>
    show (f a >>= fun _ => l.forM f) = (g a >>= fun _ => l.forM g)
    rw [h a List.mem_cons_self, ih fun b hb => h b (List.mem_cons_of_mem _ hb)]

theorem mapM_congr {α β : Type} {l : List α} {f g : α → Check β} (h : ∀ a ∈ l, f a = g a) :
    l.mapM f = l.mapM g := by
  induction l with
  | nil => rfl
  | cons a l ih =>
    rw [List.mapM_cons, List.mapM_cons, h a List.mem_cons_self,
      ih fun b hb => h b (List.mem_cons_of_mem _ hb)]

namespace Checker.AgreeOn

section

variable {N : Node → Prop} {c c' : Checker} (h : c.AgreeOn N c')

include h

/-! ## Names and calls -/

theorem nameAfterDot (e receiver : Expr) (name : String) (beforeDot : Bool)
    (hreceiver : N (.expr receiver)) :
    Analysis.nameAfterDot c e receiver name beforeDot
      = Analysis.nameAfterDot c' e receiver name beforeDot := by
  rw [Analysis.nameAfterDot, Analysis.nameAfterDot, h.qualifier receiver hreceiver]

theorem classifyArg (e : Expr) (he : N (.expr e)) :
    Analysis.classifyArg c e = Analysis.classifyArg c' e := by
  rw [Analysis.classifyArg, Analysis.classifyArg, h.methodRef e he, h.expr e he]

theorem classifyArgs (args : List Expr) (hargs : ∀ a ∈ args, N (.expr a)) :
    Analysis.classifyArgs c args = Analysis.classifyArgs c' args :=
  mapM_congr fun a ha => h.classifyArg a (hargs a ha)

theorem completeArg (i : Inference) (arg : Expr) (formal : JType) (harg : N (.expr arg)) :
    Analysis.completeArg c i arg formal = Analysis.completeArg c' i arg formal := by
  rw [Analysis.completeArg, Analysis.completeArg, h.functional arg harg]

theorem completeArgs (i : Inference) (args : List (Expr × JType))
    (hargs : ∀ p ∈ args, N (.expr p.1)) :
    Analysis.completeArgs c i args = Analysis.completeArgs c' i args := by
  induction args generalizing i with
  | nil => rfl
  | cons p rest ih =>
    obtain ⟨hfirst, hrest⟩ := List.forall_mem_cons.mp hargs
    rw [Analysis.completeArgs, Analysis.completeArgs, h.completeArg i p.1 p.2 hfirst]
    exact bind_congr fun i => ih i hrest

theorem completeCall (args : List Expr) (a : Applicable) (hargs : ∀ e ∈ args, N (.expr e)) :
    Analysis.completeCall c args a = Analysis.completeCall c' args a := by
  have hzip : ∀ p ∈ args.zip a.formals, N (.expr p.1) := fun p hp =>
    hargs p.1 (List.of_mem_zip hp).1
  rw [Analysis.completeCall, Analysis.completeCall, h.completeArgs _ _ hzip]

theorem completeFirst (args : List Expr) (hargs : ∀ e ∈ args, N (.expr e))
    (failure : Option AnalysisError) (ranked : List Applicable) :
    Analysis.completeFirst c args failure ranked
      = Analysis.completeFirst c' args failure ranked := by
  induction ranked generalizing failure with
  | nil => cases failure <;> rfl
  | cons a rest ih =>
    rw [Analysis.completeFirst, Analysis.completeFirst, h.completeCall args a hargs]
    simp only [ih]

theorem completeBest (args : List Expr) (ranked : List Applicable)
    (hargs : ∀ e ∈ args, N (.expr e)) :
    Analysis.completeBest c args ranked = Analysis.completeBest c' args ranked :=
  h.completeFirst args hargs .none ranked

theorem callWith (e : Expr) (typeArgs : List JType) (name : String) (args : List Expr)
    (candidates : List MethodCandidate) (hargs : ∀ a ∈ args, N (.expr a)) :
    Analysis.callWith c e typeArgs name args candidates
      = Analysis.callWith c' e typeArgs name args candidates := by
  simp only [Analysis.callWith, h.classifyArgs args hargs, h.completeBest args _ hargs]

theorem checkCall (e : Expr) (receiver : Option Expr) (typeArgs : List TypeRef) (name : String)
    (args : List Expr) (hreceiver : ∀ r ∈ receiver, N (.expr r)) (hargs : ∀ a ∈ args, N (.expr a)) :
    Analysis.checkCall c e receiver typeArgs name args
      = Analysis.checkCall c' e receiver typeArgs name args := by
  cases receiver with
  | none => simp only [Analysis.checkCall, h.callWith _ _ _ args _ hargs]
  | some receiver =>
    simp only [Analysis.checkCall, h.qualifier receiver (hreceiver receiver rfl),
      h.callWith _ _ _ args _ hargs]

/-! ## Lambdas and method references -/

theorem refReceiver (e : Expr) (target : RefTarget) (htarget : ∀ r, target = .expr r → N (.expr r)) :
    Analysis.refReceiver c e target = Analysis.refReceiver c' e target := by
  cases target with
  | expr r => rw [Analysis.refReceiver, Analysis.refReceiver, h.expr r (htarget r rfl)]
  | type t => rfl
  | parent => rfl

theorem methodRefOf (e : Expr) (hparts : ∀ m ∈ e.children, N m) :
    Analysis.methodRefOf c e = Analysis.methodRefOf c' e := by
  obtain ⟨id, shape⟩ := e
  cases shape with
  | methodRef target typeArgs name =>
    have htarget : ∀ r, target = .expr r → N (.expr r) := by
      rintro r rfl
      exact hparts _ (by simp [Expr.children])
    simp only [Analysis.methodRefOf, h.refReceiver _ target htarget]
  | _ => rfl

theorem bodyType (expected : JType) (body : LambdaBody) (hexpr : ∀ e, body = .expr e → N (.expr e))
    (hblock : ∀ s, body = .block s → N (.stmt s)) :
    Analysis.bodyType c expected body = Analysis.bodyType c' expected body := by
  cases body with
  | expr e => rw [Analysis.bodyType, Analysis.bodyType, h.expr e (hexpr e rfl)]
  | block s => rw [Analysis.bodyType, Analysis.bodyType, h.stmt s (hblock s rfl)]

theorem checkLambda (e : Expr) (f : FunctionType) (params : List LambdaParam) (body : LambdaBody)
    (hexpr : ∀ e, body = .expr e → N (.expr e)) (hblock : ∀ s, body = .block s → N (.stmt s)) :
    Analysis.checkLambda c e f params body = Analysis.checkLambda c' e f params body := by
  simp only [Analysis.checkLambda, h.bodyType _ body hexpr hblock]

theorem checkMethodRef (e : Expr) (f : FunctionType) (hparts : ∀ m ∈ e.children, N m) :
    Analysis.checkMethodRef c e f = Analysis.checkMethodRef c' e f := by
  rw [Analysis.checkMethodRef, Analysis.checkMethodRef, h.methodRefOf e hparts]

theorem checkFunctional (e : Expr) (target : JType) (hparts : ∀ m ∈ e.children, N m) :
    Analysis.checkFunctional c e target = Analysis.checkFunctional c' e target := by
  obtain ⟨id, shape⟩ := e
  cases shape with
  | lambda params body =>
    have hexpr : ∀ e, body = .expr e → N (.expr e) := by
      rintro e rfl
      exact hparts _ (by simp [Expr.children])
    have hblock : ∀ s, body = .block s → N (.stmt s) := by
      rintro s rfl
      exact hparts _ (by simp [Expr.children])
    simp only [Analysis.checkFunctional, h.checkLambda _ _ params body hexpr hblock]
  | methodRef target typeArgs name =>
    simp only [Analysis.checkFunctional, h.checkMethodRef _ _ hparts]
  | _ => rfl

/-! ## Creation of objects -/

theorem checkAnonymous (n : Node) (d : Decl) (base : JType) (hd : N (.decl d)) :
    Analysis.checkAnonymous c n d base = Analysis.checkAnonymous c' n d base := by
  rw [Analysis.checkAnonymous, Analysis.checkAnonymous, h.decl d hd]

theorem createdClass (e : Expr) (outer : Option Expr) (type : TypeRef) (name : QualifiedName)
    (houter : ∀ o ∈ outer, N (.expr o)) :
    Analysis.createdClass c e outer type name = Analysis.createdClass c' e outer type name := by
  cases outer with
  | none => rfl
  | some o => rw [Analysis.createdClass, Analysis.createdClass, h.expr o (houter o rfl)]

theorem createdType (e : Expr) (outer : Option Expr) (type : TypeRef)
    (houter : ∀ o ∈ outer, N (.expr o)) :
    Analysis.createdType c e outer type = Analysis.createdType c' e outer type := by
  simp only [Analysis.createdType, h.createdClass e outer type _ houter]

theorem selectConstructor (e : Expr) (d : ClassDef) (t : JType) (args : List Expr)
    (isDiamond hasBody : Bool) (expected : Option JType) (hargs : ∀ a ∈ args, N (.expr a)) :
    Analysis.selectConstructor c e d t args isDiamond hasBody expected
      = Analysis.selectConstructor c' e d t args isDiamond hasBody expected := by
  simp only [Analysis.selectConstructor, h.classifyArgs args hargs, h.completeBest args _ hargs]

theorem checkCreate (e : Expr) (outer : Option Expr) (type : TypeRef) (args : List Expr)
    (body : Option Decl) (expected : Option JType) (houter : ∀ o ∈ outer, N (.expr o))
    (hargs : ∀ a ∈ args, N (.expr a)) (hbody : ∀ d ∈ body, N (.decl d)) :
    Analysis.checkCreate c e outer type args body expected
      = Analysis.checkCreate c' e outer type args body expected := by
  unfold Analysis.checkCreate
  cases body with
  | none =>
    simp only [h.createdType e outer type houter, h.selectConstructor e _ _ args _ _ _ hargs]
  | some d =>
    simp only [h.createdType e outer type houter, h.selectConstructor e _ _ args _ _ _ hargs,
      h.checkAnonymous _ d _ (hbody d rfl)]

theorem mergedType (acc : Option JType) (es : List Expr) (hes : ∀ e ∈ es, N (.expr e)) :
    Analysis.mergedType c acc es = Analysis.mergedType c' acc es := by
  induction es generalizing acc with
  | nil => rfl
  | cons e rest ih =>
    obtain ⟨hfirst, hrest⟩ := List.forall_mem_cons.mp hes
    rw [Analysis.mergedType, Analysis.mergedType, h.expr e hfirst]
    exact bind_congr fun t => bind_congr fun merged => ih _ hrest

theorem checkArrayInit (es : List Expr) (expected : Option JType) (hes : ∀ e ∈ es, N (.expr e)) :
    Analysis.checkArrayInit c es expected = Analysis.checkArrayInit c' es expected := by
  have heach : ∀ t : JType, (es.forM fun e => discard (c.expr e t.component?))
      = es.forM fun e => discard (c'.expr e t.component?) := fun t =>
    forM_congr fun e he => by rw [h.expr e (hes e he)]
  simp only [Analysis.checkArrayInit, h.mergedType .none es hes, heach]

theorem checkCreateArray (element : TypeRef) (sizes : List Expr) (extraDims : Nat)
    (init : Option Expr) (hsizes : ∀ e ∈ sizes, N (.expr e)) (hinit : ∀ e ∈ init, N (.expr e)) :
    Analysis.checkCreateArray c element sizes extraDims init
      = Analysis.checkCreateArray c' element sizes extraDims init := by
  have heach : (sizes.forM fun e => discard (c.expr e (some (.primitive .int))))
      = sizes.forM fun e => discard (c'.expr e (some (.primitive .int))) :=
    forM_congr fun e he => by rw [h.expr e (hsizes e he)]
  cases init with
  | none => simp only [Analysis.checkCreateArray, heach]
  | some e => simp only [Analysis.checkCreateArray, heach, h.expr e (hinit e rfl)]

/-! ## Expressions -/

theorem checkUnary (e : Expr) (op : UnaryOp) (operand : Expr) (hoperand : N (.expr operand)) :
    Analysis.checkUnary c e op operand = Analysis.checkUnary c' e op operand := by
  rw [Analysis.checkUnary, Analysis.checkUnary, h.expr operand hoperand]

theorem checkTarget (op : Option BinaryOp) (target : Expr) (htarget : N (.expr target)) :
    Analysis.checkTarget c op target = Analysis.checkTarget c' op target := by
  simp only [Analysis.checkTarget, h.expr target htarget]

theorem checkAssign (e : Expr) (op : Option BinaryOp) (target value : Expr)
    (htarget : N (.expr target)) (hvalue : N (.expr value)) :
    Analysis.checkAssign c e op target value = Analysis.checkAssign c' e op target value := by
  rw [Analysis.checkAssign, Analysis.checkAssign, h.checkTarget op target htarget,
    h.expr value hvalue]

theorem checkIndex (e array position : Expr) (harray : N (.expr array))
    (hposition : N (.expr position)) :
    Analysis.checkIndex c e array position = Analysis.checkIndex c' e array position := by
  rw [Analysis.checkIndex, Analysis.checkIndex, h.expr array harray, h.expr position hposition]

theorem exprType (e : Expr) (expected : Option JType) (hparts : ∀ m ∈ e.children, N m) :
    Analysis.exprType c e expected = Analysis.exprType c' e expected := by
  obtain ⟨id, shape⟩ := e
  unfold Analysis.exprType
  cases shape with
  | literal | name | self | parent | classLiteral => rfl
  | field receiver name =>
    simp only [Expr.children, List.forall_mem_singleton] at hparts
    simp only [h.nameAfterDot _ receiver name false hparts]
  | call receiver typeArgs name args =>
    simp only [Expr.children, List.forall_mem_append, List.forall_mem_map, Option.mem_toList] at hparts
    obtain ⟨⟨hreceiver, -⟩, hargs⟩ := hparts
    exact h.checkCall _ receiver typeArgs name args hreceiver hargs
  | create outer type args body =>
    simp only [Expr.children, List.forall_mem_append, List.forall_mem_map, Option.mem_toList] at hparts
    obtain ⟨⟨⟨houter, -⟩, hargs⟩, hbody⟩ := hparts
    exact h.checkCreate _ outer type args body expected houter hargs hbody
  | createArray element sizes extraDims init =>
    simp only [Expr.children, List.forall_mem_append, List.forall_mem_map, Option.mem_toList] at hparts
    obtain ⟨⟨-, hsizes⟩, hinit⟩ := hparts
    exact h.checkCreateArray element sizes extraDims init hsizes hinit
  | arrayInit elements =>
    simp only [Expr.children, List.forall_mem_map] at hparts
    exact h.checkArrayInit elements expected hparts
  | index array position =>
    simp only [Expr.children, List.forall_mem_cons] at hparts
    exact h.checkIndex _ array position hparts.1 hparts.2.1
  | unary op operand =>
    simp only [Expr.children, List.forall_mem_singleton] at hparts
    exact h.checkUnary _ op operand hparts
  | binary op left right =>
    simp only [Expr.children, List.forall_mem_cons] at hparts
    simp only [h.expr left hparts.1, h.expr right hparts.2.1]
  | assign op target value =>
    simp only [Expr.children, List.forall_mem_cons] at hparts
    exact h.checkAssign _ op target value hparts.1 hparts.2.1
  | conditional condition whenTrue whenFalse =>
    simp only [Expr.children, List.forall_mem_cons] at hparts
    obtain ⟨hcondition, htrue, hfalse, -⟩ := hparts
    simp only [h.expr condition hcondition, h.expr whenTrue htrue, h.expr whenFalse hfalse]
  | cast type operand =>
    simp only [Expr.children, List.forall_mem_cons] at hparts
    simp only [h.expr operand hparts.2.1]
  | instanceOf operand type =>
    simp only [Expr.children, List.forall_mem_cons] at hparts
    simp only [h.expr operand hparts.1]
  | lambda | methodRef =>
    -- these are handed over on the same level, not to the checker of the parts
    simp only [h.checkFunctional _ _ hparts]

theorem checkExpr (e : Expr) (expected : Option JType) (hparts : ∀ m ∈ e.children, N m) :
    Analysis.checkExpr c e expected = Analysis.checkExpr c' e expected := by
  rw [Analysis.checkExpr, Analysis.checkExpr, h.exprType e expected hparts]

theorem checkQualifier (e : Expr) (hparts : ∀ m ∈ e.children, N m) :
    Analysis.checkQualifier c e = Analysis.checkQualifier c' e := by
  obtain ⟨id, shape⟩ := e
  cases shape with
  | name => rfl
  | field receiver name =>
    simp only [Expr.children, List.forall_mem_singleton] at hparts
    simp only [Analysis.checkQualifier, h.nameAfterDot _ receiver name true hparts]
  | _ => simp only [Analysis.checkQualifier, h.checkExpr _ .none hparts]

/-! ## Statements -/

theorem checkSequence (last : JType) (body : List Stmt) (hbody : ∀ s ∈ body, N (.stmt s)) :
    Analysis.checkSequence c last body = Analysis.checkSequence c' last body := by
  induction body generalizing last with
  | nil => rfl
  | cons s rest ih =>
    obtain ⟨hfirst, hrest⟩ := List.forall_mem_cons.mp hbody
    rw [Analysis.checkSequence, Analysis.checkSequence, h.stmt s hfirst]
    exact bind_congr fun t => ih t hrest

theorem variableType (s : Stmt) (type : TypeRef) (declared : Option JType) (v : Declarator)
    (hinit : ∀ e ∈ v.init, N (.expr e)) :
    Analysis.variableType c s type declared v = Analysis.variableType c' s type declared v := by
  obtain ⟨name, dims, init⟩ := v
  cases init with
  | none => cases declared <;> rfl
  | some e =>
    cases declared with
    | none | some => simp only [Analysis.variableType, h.expr e (hinit e rfl)]

theorem checkVariables (s : Stmt) (type : TypeRef) (declared : Option JType) (last : JType)
    (vs : List Declarator) (hinits : ∀ e ∈ Declarator.inits vs, N (.expr e)) :
    Analysis.checkVariables c s type declared last vs
      = Analysis.checkVariables c' s type declared last vs := by
  have heach : ∀ v ∈ vs, ∀ e ∈ v.init, N (.expr e) := fun v hv e he =>
    hinits e (List.mem_filterMap.mpr ⟨v, hv, he⟩)
  clear hinits
  induction vs generalizing last with
  | nil => rfl
  | cons v rest ih =>
    obtain ⟨hfirst, hrest⟩ := List.forall_mem_cons.mp heach
    rw [Analysis.checkVariables, Analysis.checkVariables, h.variableType s type declared v hfirst]
    exact bind_congr fun t => bind_congr fun _ => ih t hrest

theorem checkLocalClass (s : Stmt) (d : Decl) (hd : N (.decl d)) :
    Analysis.checkLocalClass c s d = Analysis.checkLocalClass c' s d := by
  rw [Analysis.checkLocalClass, Analysis.checkLocalClass, h.decl d hd]

theorem checkForEach (s : Stmt) (type : TypeRef) (name : String) (iterable : Expr) (body : Stmt)
    (hiterable : N (.expr iterable)) (hbody : N (.stmt body)) :
    Analysis.checkForEach c s type name iterable body
      = Analysis.checkForEach c' s type name iterable body := by
  rw [Analysis.checkForEach, Analysis.checkForEach, h.expr iterable hiterable, h.stmt body hbody]

theorem checkFor (init : List Stmt) (condition : Option Expr) (update : List Expr) (body : Stmt)
    (hinit : ∀ s ∈ init, N (.stmt s)) (hcondition : ∀ e ∈ condition, N (.expr e))
    (hupdate : ∀ e ∈ update, N (.expr e)) (hbody : N (.stmt body)) :
    Analysis.checkFor c init condition update body
      = Analysis.checkFor c' init condition update body := by
  have hfirst : (init.forM fun s => discard (c.stmt s)) = init.forM fun s => discard (c'.stmt s) :=
    forM_congr fun s hs => by rw [h.stmt s (hinit s hs)]
  have hlast : (update.forM fun e => discard (c.expr e .none))
      = update.forM fun e => discard (c'.expr e .none) :=
    forM_congr fun e he => by rw [h.expr e (hupdate e he)]
  cases condition with
  | none => simp only [Analysis.checkFor, hfirst, hlast, h.stmt body hbody]
  | some e =>
    simp only [Analysis.checkFor, hfirst, hlast, h.stmt body hbody, h.expr e (hcondition e rfl)]

theorem checkLabel (selector : JType) (e : Expr) (he : N (.expr e)) :
    Analysis.checkLabel c selector e = Analysis.checkLabel c' selector e := by
  simp only [Analysis.checkLabel, h.expr e he]

theorem checkCases (selector : JType) (acc : Option JType) (cases : List SwitchCase)
    (hcases : ∀ k ∈ cases, ∀ m ∈ k.children, N m) :
    Analysis.checkCases c selector acc cases = Analysis.checkCases c' selector acc cases := by
  induction cases generalizing acc with
  | nil => rfl
  | cons k rest ih =>
    obtain ⟨hfirst, hrest⟩ := List.forall_mem_cons.mp hcases
    simp only [SwitchCase.children, List.forall_mem_append, List.forall_mem_map] at hfirst
    obtain ⟨hlabels, hbody⟩ := hfirst
    have heach : k.labels.forM (Analysis.checkLabel c selector)
        = k.labels.forM (Analysis.checkLabel c' selector) :=
      forM_congr fun e he => h.checkLabel selector e (hlabels e he)
    rw [Analysis.checkCases, Analysis.checkCases, heach, h.checkSequence .void k.body hbody]
    exact bind_congr fun _ => bind_congr fun _ => bind_congr fun merged => ih _ hrest

theorem checkReturn (value : Option Expr) (hvalue : ∀ e ∈ value, N (.expr e)) :
    Analysis.checkReturn c value = Analysis.checkReturn c' value := by
  cases value with
  | none => rfl
  | some e => rw [Analysis.checkReturn, Analysis.checkReturn, h.expr e (hvalue e rfl)]

theorem checkCatch (k : CatchClause) (hbody : N (.stmt k.body)) :
    Analysis.checkCatch c k = Analysis.checkCatch c' k := by
  rw [Analysis.checkCatch, Analysis.checkCatch, h.stmt k.body hbody]

theorem checkCatches (acc : JType) (catches : List CatchClause)
    (hcatches : ∀ k ∈ catches, ∀ m ∈ k.children, N m) :
    Analysis.checkCatches c acc catches = Analysis.checkCatches c' acc catches := by
  induction catches generalizing acc with
  | nil => rfl
  | cons k rest ih =>
    obtain ⟨hfirst, hrest⟩ := List.forall_mem_cons.mp hcatches
    have hbody : N (.stmt k.body) := hfirst _ (by simp [CatchClause.children])
    rw [Analysis.checkCatches, Analysis.checkCatches, h.checkCatch k hbody]
    exact bind_congr fun t => bind_congr fun env => ih _ hrest

theorem checkTry (s : Stmt) (resources : List Stmt) (body : Stmt) (catches : List CatchClause)
    (final : Option Stmt) (hresources : ∀ r ∈ resources, N (.stmt r)) (hbody : N (.stmt body))
    (hcatches : ∀ k ∈ catches, ∀ m ∈ k.children, N m) (hfinal : ∀ f ∈ final, N (.stmt f)) :
    Analysis.checkTry c s resources body catches final
      = Analysis.checkTry c' s resources body catches final := by
  have heach : (resources.forM fun r => discard (c.stmt r))
      = resources.forM fun r => discard (c'.stmt r) :=
    forM_congr fun r hr => by rw [h.stmt r (hresources r hr)]
  have hclauses := fun acc => h.checkCatches acc catches hcatches
  cases final with
  | none => simp only [Analysis.checkTry, heach, h.stmt body hbody, hclauses]
  | some f => simp only [Analysis.checkTry, heach, h.stmt body hbody, hclauses, h.stmt f (hfinal f rfl)]

theorem stmtType (s : Stmt) (hparts : ∀ m ∈ s.children, N m) :
    Analysis.stmtType c s = Analysis.stmtType c' s := by
  obtain ⟨id, shape⟩ := s
  unfold Analysis.stmtType
  cases shape with
  | breakTo | continueTo | empty => rfl
  | block body =>
    simp only [Stmt.children, List.forall_mem_map] at hparts
    simp only [h.checkSequence .void body hparts]
  | vars type vs =>
    simp only [Stmt.children, List.forall_mem_append, List.forall_mem_map] at hparts
    simp only [h.checkVariables _ type _ .void vs hparts.2]
  | decl d =>
    simp only [Stmt.children, List.forall_mem_singleton] at hparts
    simp only [h.checkLocalClass _ d hparts]
  | expr e =>
    simp only [Stmt.children, List.forall_mem_singleton] at hparts
    simp only [h.expr e hparts]
  | ifElse condition thenBranch elseBranch =>
    simp only [Stmt.children, List.forall_mem_append, List.forall_mem_cons, List.forall_mem_map,
      Option.mem_toList] at hparts
    obtain ⟨⟨hcondition, hthen, -⟩, helse⟩ := hparts
    cases elseBranch with
    | none => simp only [h.expr condition hcondition, h.stmt thenBranch hthen]
    | some b =>
      simp only [h.expr condition hcondition, h.stmt thenBranch hthen, h.stmt b (helse b rfl)]
  | whileLoop condition body =>
    simp only [Stmt.children, List.forall_mem_cons] at hparts
    simp only [h.expr condition hparts.1, h.stmt body hparts.2.1]
  | doWhile body condition =>
    simp only [Stmt.children, List.forall_mem_cons] at hparts
    simp only [h.stmt body hparts.1, h.expr condition hparts.2.1]
  | forLoop init condition update body =>
    simp only [Stmt.children, List.forall_mem_append, List.forall_mem_map, Option.mem_toList,
      List.forall_mem_singleton] at hparts
    obtain ⟨⟨⟨hinit, hcondition⟩, hupdate⟩, hbody⟩ := hparts
    simp only [h.checkFor init condition update body hinit hcondition hupdate hbody]
  | forEach type name iterable body =>
    simp only [Stmt.children, List.forall_mem_cons] at hparts
    obtain ⟨-, hiterable, hbody, -⟩ := hparts
    simp only [h.checkForEach _ type name iterable body hiterable hbody]
  | switch selector cases =>
    simp only [Stmt.children, List.forall_mem_append, List.forall_mem_singleton,
      List.forall_mem_flatMap] at hparts
    obtain ⟨hselector, hcases⟩ := hparts
    simp only [h.expr selector hselector, h.checkCases _ .none cases hcases]
  | ret value =>
    simp only [Stmt.children, List.forall_mem_map, Option.mem_toList] at hparts
    exact h.checkReturn value hparts
  | throw e =>
    simp only [Stmt.children, List.forall_mem_singleton] at hparts
    simp only [h.expr e hparts]
  | tryCatch resources body catches final =>
    simp only [Stmt.children, List.forall_mem_append, List.forall_mem_map, Option.mem_toList,
      List.forall_mem_flatMap, List.forall_mem_singleton] at hparts
    obtain ⟨⟨⟨hresources, hbody⟩, hcatches⟩, hfinal⟩ := hparts
    exact h.checkTry _ resources body catches final hresources hbody hcatches hfinal
  | labeled label body =>
    simp only [Stmt.children, List.forall_mem_singleton] at hparts
    simp only [h.stmt body hparts]

theorem checkStmt (s : Stmt) (hparts : ∀ m ∈ s.children, N m) :
    Analysis.checkStmt c s = Analysis.checkStmt c' s := by
  rw [Analysis.checkStmt, Analysis.checkStmt, h.stmtType s hparts]

/-! ## Bodies of classes -/

theorem checkConstant (d : Decl) (owner : ClassDef) (k : EnumConstant)
    (hparts : ∀ m ∈ k.children, N m) :
    Analysis.checkConstant c d owner k = Analysis.checkConstant c' d owner k := by
  simp only [EnumConstant.children, List.forall_mem_append, List.forall_mem_map,
    Option.mem_toList] at hparts
  obtain ⟨hargs, hbody⟩ := hparts
  unfold Analysis.checkConstant
  obtain ⟨name, args, body⟩ := k
  cases body with
  | none => simp only [h.classifyArgs args hargs, h.completeBest args _ hargs]
  | some d =>
    simp only [h.classifyArgs args hargs, h.completeBest args _ hargs,
      h.checkAnonymous _ d _ (hbody d rfl)]

theorem checkFieldInits (owner : ClassDef) (f : FieldDecl)
    (hinits : ∀ e ∈ Declarator.inits f.declarators, N (.expr e)) :
    Analysis.checkFieldInits c owner f = Analysis.checkFieldInits c' owner f := by
  refine forM_congr fun v hv => ?_
  have hinit : ∀ e ∈ v.init, N (.expr e) := fun e he =>
    hinits e (List.mem_filterMap.mpr ⟨v, hv, he⟩)
  obtain ⟨name, dims, init⟩ := v
  cases init with
  | none => rfl
  | some e => simp only [h.expr e (hinit e rfl)]

theorem checkMethodBody (m : MethodDecl) (typeParams : List TypeParam) (body : Stmt)
    (hbody : N (.stmt body)) :
    Analysis.checkMethodBody c m typeParams body
      = Analysis.checkMethodBody c' m typeParams body := by
  rw [Analysis.checkMethodBody, Analysis.checkMethodBody, h.stmt body hbody]

theorem checkMethod (d : Decl) (m : MethodDecl) (hbody : ∀ s ∈ m.body, N (.stmt s)) :
    Analysis.checkMethod c d m = Analysis.checkMethod c' d m := by
  unfold Analysis.checkMethod
  cases hm : m.body with
  | none => rfl
  | some body => simp only [h.checkMethodBody m _ body (hbody body hm)]

theorem checkMember (d : Decl) (owner : ClassDef) (m : Member) (hparts : ∀ n ∈ m.children, N n) :
    Analysis.checkMember c d owner m = Analysis.checkMember c' d owner m := by
  cases m with
  | field f =>
    simp only [Member.children, List.forall_mem_append, List.forall_mem_map] at hparts
    exact h.checkFieldInits owner f hparts.2
  | method m =>
    simp only [Member.children, List.forall_mem_append, List.forall_mem_map, Option.mem_toList]
      at hparts
    exact h.checkMethod d m hparts.2
  | initializer isStatic body =>
    simp only [Member.children, List.forall_mem_singleton] at hparts
    simp only [Analysis.checkMember, h.stmt body hparts]
  | type nested =>
    simp only [Member.children, List.forall_mem_singleton] at hparts
    exact h.decl nested hparts

theorem checkMembers (d : Decl) (binary : String) (hparts : ∀ m ∈ d.children, N m) :
    Analysis.checkMembers c d binary = Analysis.checkMembers c' d binary := by
  simp only [Decl.children, List.forall_mem_append, List.forall_mem_flatMap] at hparts
  obtain ⟨⟨-, hconstants⟩, hmembers⟩ := hparts
  have hfirst := fun owner => forM_congr fun k hk => h.checkConstant d owner k (hconstants k hk)
  have hrest := fun owner => forM_congr fun m hm => h.checkMember d owner m (hmembers m hm)
  simp only [Analysis.checkMembers, hfirst, hrest]

theorem checkDecl (d : Decl) (hparts : ∀ m ∈ d.children, N m) :
    Analysis.checkDecl c d = Analysis.checkDecl c' d := by
  simp only [Analysis.checkDecl, h.checkMembers d _ hparts]

end

/-- Checkers that agree on the parts of a node lead to checkers that agree on the node. -/
theorem step {c c' : Checker} {n : Node} (h : c.AgreeOn (· ∈ n.children) c') :
    c.step.AgreeOn (· = n) c'.step where
  expr := by
    rintro e rfl
    exact funext fun expected => h.checkExpr e expected fun _ hm => hm
  qualifier := by
    rintro e rfl
    exact h.checkQualifier e fun _ hm => hm
  functional := by
    rintro e rfl
    exact funext fun target => h.checkFunctional e target fun _ hm => hm
  methodRef := by
    rintro e rfl
    exact h.methodRefOf e fun _ hm => hm
  stmt := by
    rintro s rfl
    exact h.checkStmt s fun _ hm => hm
  decl := by
    rintro d rfl
    exact h.checkDecl d fun _ hm => hm

end Checker.AgreeOn

/-! ## Checkers of all heights -/

namespace Checker

variable {N : Node → Prop} {c c' c'' : Checker} {n : Node}

namespace AgreeOn

theorem symm (h : c.AgreeOn N c') : c'.AgreeOn N c :=
  ⟨fun e he => (h.expr e he).symm, fun e he => (h.qualifier e he).symm,
    fun e he => (h.functional e he).symm, fun e he => (h.methodRef e he).symm,
    fun s hs => (h.stmt s hs).symm, fun d hd => (h.decl d hd).symm⟩

theorem trans (h : c.AgreeOn N c') (h' : c'.AgreeOn N c'') : c.AgreeOn N c'' :=
  ⟨fun e he => (h.expr e he).trans (h'.expr e he),
    fun e he => (h.qualifier e he).trans (h'.qualifier e he),
    fun e he => (h.functional e he).trans (h'.functional e he),
    fun e he => (h.methodRef e he).trans (h'.methodRef e he),
    fun s hs => (h.stmt s hs).trans (h'.stmt s hs), fun d hd => (h.decl d hd).trans (h'.decl d hd)⟩

/-- Checkers that agree on each node of a set agree on the set. -/
theorem of_forall (h : ∀ n, N n → c.AgreeOn (· = n) c') : c.AgreeOn N c' :=
  ⟨fun e he => (h _ he).expr e rfl, fun e he => (h _ he).qualifier e rfl,
    fun e he => (h _ he).functional e rfl, fun e he => (h _ he).methodRef e rfl,
    fun s hs => (h _ hs).stmt s rfl, fun d hd => (h _ hd).decl d rfl⟩

/-- Checkers that agree on all nodes are the same. -/
theorem eq_of_forall (h : ∀ n, c.AgreeOn (· = n) c') : c = c' := by
  have hall : c.AgreeOn (fun _ => True) c' := of_forall fun n _ => h n
  obtain ⟨expr, qualifier, functional, methodRef, stmt, decl⟩ := c
  obtain ⟨expr', qualifier', functional', methodRef', stmt', decl'⟩ := c'
  obtain rfl : expr = expr' := funext fun e => hall.expr e trivial
  obtain rfl : qualifier = qualifier' := funext fun e => hall.qualifier e trivial
  obtain rfl : functional = functional' := funext fun e => hall.functional e trivial
  obtain rfl : methodRef = methodRef' := funext fun e => hall.methodRef e trivial
  obtain rfl : stmt = stmt' := funext fun s => hall.stmt s trivial
  obtain rfl : decl = decl' := funext fun d => hall.decl d trivial
  rfl

end AgreeOn

/-- Whatever checks the nodes farther down, as many steps as a node is high lead to the same check of
the node. -/
theorem agreeOn_iterate (c c' : Checker) {height height' : Nat} (hn : n.height ≤ height)
    (hn' : n.height ≤ height') : (step^[height] c).AgreeOn (· = n) (step^[height'] c') := by
  induction height generalizing height' n with
  | zero => exact absurd n.height_pos (Nat.not_lt.mpr hn)
  | succ height ih =>
    cases height' with
    | zero => exact absurd n.height_pos (Nat.not_lt.mpr hn')
    | succ height' =>
      rw [Function.iterate_succ_apply', Function.iterate_succ_apply']
      refine .step (.of_forall fun m hm => ?_)
      have hlower := Node.height_lt_of_mem_children hm
      exact ih (by omega) (by omega)

theorem upTo_eq_iterate (height : Nat) : upTo height = step^[height] .none := by
  induction height with
  | zero => rfl
  | succ height ih => rw [upTo, ih, Function.iterate_succ_apply']

/-- The checker of nodes of all heights. -/
def full : Checker where
  expr e := (upTo (Node.expr e).height).expr e
  qualifier e := (upTo (Node.expr e).height).qualifier e
  functional e := (upTo (Node.expr e).height).functional e
  methodRef e := (upTo (Node.expr e).height).methodRef e
  stmt s := (upTo (Node.stmt s).height).stmt s
  decl d := (upTo (Node.decl d).height).decl d

/-- A node is checked in full by as many steps as it is high, and by any more. -/
theorem full_agreeOn (c : Checker) {height : Nat} (hn : n.height ≤ height) :
    full.AgreeOn (· = n) (step^[height] c) := by
  have hsteps : (upTo n.height).AgreeOn (· = n) (step^[height] c) := by
    rw [upTo_eq_iterate]
    exact agreeOn_iterate .none c Nat.le.refl hn
  constructor
  · rintro e rfl
    exact hsteps.expr e rfl
  · rintro e rfl
    exact hsteps.qualifier e rfl
  · rintro e rfl
    exact hsteps.functional e rfl
  · rintro e rfl
    exact hsteps.methodRef e rfl
  · rintro s rfl
    exact hsteps.stmt s rfl
  · rintro d rfl
    exact hsteps.decl d rfl

/-- The full checker checks a node with itself for the parts. -/
theorem step_full : full.step = full := by
  refine AgreeOn.eq_of_forall fun n => ?_
  have hparts : full.AgreeOn (· ∈ n.children) (step^[n.height] .none) :=
    .of_forall fun m hm => full_agreeOn .none (Nat.le_of_lt (Node.height_lt_of_mem_children hm))
  have hwhole := full_agreeOn (n := n) .none (Nat.le_succ n.height)
  rw [Function.iterate_succ_apply'] at hwhole
  exact hparts.step.trans hwhole.symm

/-- No other checker does. -/
theorem eq_full (h : c.step = c) : c = full := by
  refine AgreeOn.eq_of_forall fun n => ?_
  have hn := full_agreeOn c n.height.le_refl
  rw [Function.iterate_fixed h] at hn
  exact hn.symm

end Checker

/-- The bodies of a unit are checked in full. -/
theorem checkUnit_eq (u : SourceUnit) : checkUnit u = (do
    let observers := (← read).observers
    let name := u.packageName.toDotted
    modify fun s =>
      { s with table := { observer := observers.ofUnit, rejects := observers.rejects } }
    inTableFor name (SymbolTable.pushScope .block none)
    inTableFor name (← get).catalog.populate
    u.types.forM Checker.full.decl
    discard (inTableFor name SymbolTable.popScope)) := by
  have heach : u.types.forM (Checker.upTo u.height).decl = u.types.forM Checker.full.decl := by
    refine forM_congr fun d hd => ?_
    rw [Checker.upTo_eq_iterate]
    exact ((Checker.full_agreeOn .none (SourceUnit.height_le_of_mem_types hd)).decl d rfl).symm
  rw [checkUnit, heach]

/-! ## Declarations -/

/-- The header of a class is declared in the same way down to any height that suffices. -/
theorem declareHeader_agree {d : Decl} {height height' : Nat} (hd : (Node.decl d).height ≤ height)
    (hd' : (Node.decl d).height ≤ height') (header : ClassDef) :
    declareHeader height d header = declareHeader height' d header := by
  induction height generalizing height' d header with
  | zero => exact absurd (Node.height_pos _) (Nat.not_lt.mpr hd)
  | succ height ih =>
    cases height' with
    | zero => exact absurd (Node.height_pos _) (Nat.not_lt.mpr hd')
    | succ height' =>
      rw [declareHeader, declareHeader]
      refine bind_congr fun _ => bind_congr fun _ => ?_
      congr 1
      refine forM_congr fun member hmember => ?_
      have hlower := Node.height_lt_of_mem_children (Decl.nested_mem_children hmember)
      exact bind_congr fun binary => bind_congr fun inner => ih (by omega) (by omega) inner

/-- The members of a class are declared in the same way down to any height that suffices. -/
theorem declareMembers_agree {d : Decl} {height height' : Nat} (hd : (Node.decl d).height ≤ height)
    (hd' : (Node.decl d).height ≤ height') : declareMembers height d = declareMembers height' d := by
  induction height generalizing height' d with
  | zero => exact absurd (Node.height_pos _) (Nat.not_lt.mpr hd)
  | succ height ih =>
    cases height' with
    | zero => exact absurd (Node.height_pos _) (Nat.not_lt.mpr hd')
    | succ height' =>
      have heach : d.nestedTypes.forM (declareMembers height)
          = d.nestedTypes.forM (declareMembers height') := by
        refine forM_congr fun member hmember => ?_
        have hlower := Node.height_lt_of_mem_children (Decl.nested_mem_children hmember)
        exact ih (by omega) (by omega)
      rw [declareMembers, declareMembers, heach]

/-- The headers of a class and of its member classes are declared, each down to its own height. -/
theorem declareHeader_height (d : Decl) (header : ClassDef) :
    declareHeader (Node.decl d).height d header = (do
      declare header
      openClass d header.name none
      d.nestedTypes.forM fun member => do
        let binary ← binaryNameOf member
        let inner ← classHeader member binary (.member (isStaticMember header member))
          (some header.name)
        declareHeader (Node.decl member).height member inner
      discard (closeClass d)) := by
  rw [declareHeader_agree Nat.le.refl (Nat.le_succ _), declareHeader]
  refine bind_congr fun _ => bind_congr fun _ => ?_
  congr 1
  refine forM_congr fun member hmember => bind_congr fun binary => bind_congr fun inner => ?_
  have hlower := Node.height_lt_of_mem_children (Decl.nested_mem_children hmember)
  exact declareHeader_agree (Nat.le_of_lt hlower) Nat.le.refl inner

/-- The members of a class and of its member classes are declared, each down to its own height. -/
theorem declareMembers_height (d : Decl) :
    declareMembers (Node.decl d).height d = (do
      let binary ← binaryNameOf d
      openClass d binary none
      let header ← loadAt (.decl d) binary
      declare (← classMembers d header)
      d.nestedTypes.forM fun member => declareMembers (Node.decl member).height member
      discard (closeClass d)) := by
  have heach : d.nestedTypes.forM (declareMembers (Node.decl d).height)
      = d.nestedTypes.forM fun member => declareMembers (Node.decl member).height member := by
    refine forM_congr fun member hmember => ?_
    have hlower := Node.height_lt_of_mem_children (Decl.nested_mem_children hmember)
    exact declareMembers_agree (Nat.le_of_lt hlower) Nat.le.refl
  rw [declareMembers_agree Nat.le.refl (Nat.le_succ _), declareMembers, heach]

end JavaSema.Analysis
