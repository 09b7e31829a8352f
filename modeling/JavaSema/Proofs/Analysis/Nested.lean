import JavaSema.Proofs.Analysis.Compositional
import JavaSema.Proofs.Analysis.Coverage
import JavaSema.Proofs.Scope.Depth

/-!
# Checks are nested

What an expression or a statement is checked with are steps of a few kinds and the checks of its parts.
A property of steps that holds of each kind holds of the check of every node of a set that contains the
parts of its nodes.

There are four groups.

* `Nested` is what has to be shown of a property.
* Names, calls and bindings, which do not look into other nodes.
* One theorem for each function that checks expressions or statements, which takes a checker that has
  the property at the nodes of the set.
* The induction over heights.

## Implementation notes

The classes in expressions and statements are fields of `Nested`, because they need other steps than
the nodes around them: a set without declarations asks for none of these.
-/

namespace JavaSema.Analysis

open Source

/-- The checker has the property at each of the nodes. -/
structure Checker.Has (N : Node → Prop) (P : ⦃α : Type⦄ → Check α → Prop) (c : Checker) : Prop where
  /-- Expressions. -/
  expr : ∀ e expected, N (.expr e) → P (c.expr e expected)
  /-- Expressions before a dot. -/
  qualifier : ∀ e, N (.expr e) → P (c.qualifier e)
  /-- Lambdas and method references. -/
  functional : ∀ e target, N (.expr e) → P (c.functional e target)
  /-- The parts of method references. -/
  methodRef : ∀ e, N (.expr e) → P (c.methodRef e)
  /-- Statements. -/
  stmt : ∀ s, N (.stmt s) → P (c.stmt s)
  /-- Declarations. -/
  decl : ∀ d, N (.decl d) → P (c.decl d)

/-- The next candidate is tried after the failure of the first one. -/
theorem completeFirst_cons (c : Checker) (args : List Expr) (failure : Option AnalysisError)
    (a : Applicable) (rest : List Applicable) :
    completeFirst c args failure (a :: rest)
      = retrying (completeCall c args a) (fun a => pure (some a))
        fun e => completeFirst c args (failure.or (some e)) rest := by
  rw [completeFirst, retrying]
  congr 1
  funext before
  congr 1
  funext result
  cases result with
  | ok a => rfl
  | error e => rfl

/-- The nodes have their parts among them.  The property holds of the steps that expressions and
statements are checked with, and of the checks of the classes in them if it holds of the checks of
what is in the classes. -/
structure Nested (N : Node → Prop) (P : ⦃α : Type⦄ → Check α → Prop) : Prop extends Looking P where
  child : ∀ {n m : Node}, N n → m ∈ n.children → N m
  /-- What follows does not look at the identity of a symbol. -/
  inTableThen : ∀ {α β γ : Type} {op : TableM α} {view : α → γ} {k : α → Check β},
    SymbolTable.Uniform view op → SymbolTable.Level op → SymbolTable.KeepsBodies op → ∀ n,
      (∀ a a', view a = view a' → k a = k a') → (∀ a, P (k a)) → P (inTable n op >>= k)
  inBlock : ∀ {α : Type} {step : Check α} n, P step → P (inBlock n step)
  withFrame : ∀ {α : Type} {step : Check α} frame, P step → P (withFrame frame step)
  noteReturn : ∀ t, P (modify fun s => { s with frames := noteReturn t s.frames })
  calls : ∀ f : Nat → Nat, P (modify fun s => { s with calls := f s.calls })
  retrying : ∀ {α β : Type} {m : Check α} {next : α → Check β} {other : AnalysisError → Check β},
    P m → (∀ a, P (next a)) → (∀ e, P (other e)) → P (retrying m next other)
  simpleType? : ∀ simple, P (simpleType? simple)
  namesType : ∀ e, N (.expr e) → P (namesType e)
  markTypeName : ∀ e, N (.expr e) → P (markTypeName e)
  /-- The type of the expression before the colons of a method reference is looked up. -/
  typeOf? : ∀ {n : Node} {r : Expr}, N n → receiver? n = some r → P (typeOf? r.id)
  /-- Classes in expressions. -/
  anonymous : ∀ {c : Checker} {e : Expr} {d : Decl} (base : JType), N (.expr e) →
    Node.decl d ∈ e.children → P (c.decl d) → P (checkAnonymous c (.expr e) d base)
  /-- Classes in statements. -/
  localClass : ∀ {c : Checker} {s : Stmt} {d : Decl}, N (.stmt s) →
    Node.decl d ∈ s.children → P (c.decl d) → P (checkLocalClass c s d)

namespace Nested

open SymbolTable (Uniform Level KeepsBodies)

variable {α β γ : Type} {N : Node → Prop} {P : ⦃α : Type⦄ → Check α → Prop}

section

variable (h : Nested N P)

include h

/-! ## Names -/

theorem inTable {op : TableM α} (hop : Uniform id op) (hlevel : Level op) (hkeeps : KeepsBodies op)
    (n : Node) : P (Analysis.inTable n op) := by
  rw [← bind_pure (Analysis.inTable n op)]
  exact h.inTableThen hop hlevel hkeeps n (fun _ _ => congrArg _) h.pure

/-- An operation whose result is not looked at. -/
theorem discardInTable {op : TableM α} {view : α → γ} (hop : Uniform view op) (hlevel : Level op)
    (hkeeps : KeepsBodies op) (n : Node) : P (Functor.discard (Analysis.inTable n op)) := by
  show P ((fun _ => PUnit.unit) <$> Analysis.inTable n op)
  rw [map_eq_pure_bind]
  exact h.inTableThen hop hlevel hkeeps n (fun _ _ _ => rfl) fun _ => h.pure _

theorem bindSymbol (n : Node) {symbol : Symbol} (hkind : symbol.kind ≠ .method) :
    P (Analysis.inTable n (Analysis.bindSymbol symbol)) :=
  h.inTable (.bindSymbol _) (SymbolTable.level_pushSymbol symbol).discard (.bindSymbol hkind) n

theorem currentClass (n : Node) : P (Analysis.currentClass n) :=
  h.bind (h.currentClassName n) fun _ => h.loadAt _ _

/-- Of a variable no more is looked at than its type. -/
theorem readVariable (e : Expr) (name : String) {k : Option Symbol → Check α}
    (hsame : ∀ a a', a.map Symbol.plain = a'.map Symbol.plain → k a = k a') (hk : ∀ a, P (k a)) :
    P (Analysis.readVariable e name >>= k) := by
  have hlevel := SymbolTable.level_lookupForRead name
  rw [Analysis.readVariable, bind_assoc]
  apply h.inTableThen (SymbolTable.uniform_lookupForRead _ _) (hlevel _) (.lookupForRead _ _)
  · rintro (_ | a) (_ | a') hview
    · rfl
    · cases hview
    · cases hview
    · rw [pure_bind, pure_bind]
      exact hsame _ _ hview
  · rintro (_ | a)
    · exact h.inTableThen (SymbolTable.uniform_lookupForRead _ _) (hlevel _) (.lookupForRead _ _) _ hsame
        hk
    · rw [pure_bind]
      exact hk _

theorem fieldOfClasses (e : Expr) (name : String) (owners : List String) :
    P (Analysis.fieldOfClasses e name owners) := by
  induction owners with
  | nil => exact h.pure _
  | cons owner rest ih =>
    apply h.bind (h.loadAt _ _)
    intro d
    apply h.bind h.classes
    intro env
    split
    · exact h.pure _
    · exact ih

theorem implicitField (e : Expr) (name : String) : P (Analysis.implicitField e name) := by
  apply h.bind h.read
  intro setting
  refine of_ite (h.look ?_ fun _ => h.fieldOfClasses e name _) (h.pure _)
  intro s s' hs
  rw [hs.enclosingClasses]

theorem importedField (name : String) : P (Analysis.importedField name) := by
  apply h.bind h.classes
  intro env
  apply h.look
  · intro s s' hs
    rw [hs.catalog.staticOwners]
  exact fun _ => h.pure _

theorem bareName (e : Expr) (name : String) (beforeDot : Bool) (he : N (.expr e)) :
    P (Analysis.bareName e name beforeDot) := by
  apply h.readVariable e name
  · rintro (_ | a) (_ | a') hview
    · rfl
    · cases hview
    · cases hview
    · have htype : a.type = a'.type := Symbol.type_eq_of_plain (Option.some.inj hview)
      dsimp only
      rw [htype]
  intro found
  split
  · exact h.pure _
  apply h.bind (h.simpleType? name)
  intro found
  split
  · exact h.bind (h.markTypeName e he) fun _ => h.pure _
  apply h.bind (h.implicitField e name)
  intro found
  split
  · exact h.pure _
  apply h.bind (h.importedField name)
  intro found
  split
  · exact h.pure _
  exact of_ite (h.pure _) (h.failAt _ _)

theorem nameInPackage (e : Expr) (package name : String) (beforeDot : Bool)
    (he : N (.expr e)) : P (Analysis.nameInPackage e package name beforeDot) := by
  apply h.bind h.classes
  intro env
  split
  · exact h.bind (h.markTypeName e he) fun _ => h.pure _
  · exact of_ite (h.pure _) (h.failAt _ _)

theorem nameInType (e : Expr) (owner : JType) (name : String) (he : N (.expr e)) :
    P (Analysis.nameInType e owner name) := by
  apply h.bind h.classes
  intro env
  split
  · exact h.pure _
  · apply h.look
    · intro s s' hs
      rw [hs.catalog.memberClass?]
    intro s
    split
    · exact h.bind (h.markTypeName e he) fun _ => h.pure _
    · exact h.failAt _ _

theorem nameInValue (e : Expr) (owner : JType) (name : String) :
    P (Analysis.nameInValue e owner name) := by
  apply of_ite (h.pure _)
  apply h.bind h.classes
  intro env
  split
  · exact h.pure _
  · exact h.failAt _ _

/-! ## Calls and bindings -/

theorem lambdaShape (params : List LambdaParam) (body : LambdaBody) :
    P (Analysis.lambdaShape params body) :=
  h.bind (h.optionMapM _ fun ts _ => h.resolveTypes ts) fun _ => h.pure _

theorem recordCall (n : Node) (candidate : MethodCandidate) :
    P (Analysis.recordCall n candidate) := by
  apply h.bind (h.calls fun n => n + 1)
  intro _
  apply h.bind h.classes
  intro env
  split
  · have hlevel := SymbolTable.level_lookupMethodForRead
    exact h.discardInTable (SymbolTable.uniform_lookupMethodForRead _ _) (hlevel _ _)
      (.lookupMethodForRead _ _) _
  · exact h.pure _

theorem methodsOfClasses (e : Expr) (name : String) (owners : List String) :
    P (Analysis.methodsOfClasses e name owners) := by
  induction owners with
  | nil => exact h.pure _
  | cons owner rest ih =>
    apply h.bind (h.loadAt _ _)
    intro d
    apply h.bind h.classes
    intro env
    split
    · exact ih
    · exact h.pure _

theorem bareMethods (e : Expr) (name : String) : P (Analysis.bareMethods e name) := by
  apply h.look
  · intro s s' hs
    rw [hs.enclosingClasses]
  intro s
  apply h.bind (h.methodsOfClasses e name _)
  intro found
  split
  · apply h.bind h.classes
    intro env
    apply h.look
    · intro s s' hs
      rw [hs.catalog.staticOwners]
    exact fun _ => h.pure _
  · exact h.pure _

theorem methodsOf (receiver : Expr) (t : JType) (name : String)
    (hreceiver : N (.expr receiver)) : P (Analysis.methodsOf receiver t name) := by
  apply h.bind h.classes
  intro env
  apply h.bind (h.namesType receiver hreceiver)
  intro isType
  exact of_ite (h.pure _) (h.pure _)

theorem valueOf (e : Expr) (cause : String → ResolveError) (d : Denotation) :
    P (Analysis.valueOf e cause d) := by
  cases d with
  | value t => exact h.pure _
  | package dotted => exact h.failAt _ _

theorem recordWrite (e : Expr) : P (Analysis.recordWrite e) := by
  unfold Analysis.recordWrite
  split
  · have hlevel := SymbolTable.level_lookupForWrite
    exact h.discardInTable (SymbolTable.uniform_lookupForWrite _ _) (hlevel _ _)
      (.lookupForWrite _ _) _
  · exact h.pure _

theorem operatorType (e : Expr) (op : BinaryOp) (left right : JType) :
    P (Analysis.operatorType e op left right) := by
  unfold Analysis.operatorType
  split
  · exact h.pure _
  · exact h.failAt _ _

theorem checkSelf (e : Expr) (qualifier : Option QualifiedName) :
    P (Analysis.checkSelf e qualifier) := by
  cases qualifier with
  | none => exact h.bind (h.currentClass _) fun _ => h.pure _
  | some qualifier =>
    apply h.bind (h.namedType? qualifier trivial)
    intro found
    split
    · exact h.failAt _ _
    · apply h.look
      · intro s s' hs
        rw [hs.enclosingClasses]
      intro s
      exact of_ite (h.failAt _ _) (h.bind (h.loadAt _ _) fun _ => h.pure _)

theorem mergeInto (before : Option JType) (t : JType) : P (Analysis.mergeInto before t) := by
  cases before with
  | none => exact h.pure _
  | some s => exact h.bind h.classes fun _ => h.pure _

theorem elementType (s : Stmt) (source : JType) : P (Analysis.elementType s source) := by
  unfold Analysis.elementType
  split
  · exact h.pure _
  · apply h.bind h.classes
    intro env
    split
    · exact h.failAt _ _
    · exact h.pure _

theorem caughtType (acc : Option JType) (types : List TypeRef) :
    P (Analysis.caughtType acc types) := by
  induction types generalizing acc with
  | nil => exact h.pure _
  | cons t rest ih =>
    apply h.bind (h.resolveType t)
    intro t
    exact h.bind (h.mergeInto acc t) fun _ => ih _

theorem bindVariable (s : Stmt) (name : String) (type : JType) :
    P (Analysis.bindVariable s name type) :=
  h.bind (h.observerOf _) fun _ => h.bindSymbol _ (by simp)

theorem paramType (e : Expr) (f : FunctionType) (sam : List JType) (p : LambdaParam)
    (given : JType) : P (Analysis.paramType e f sam p given) := by
  unfold Analysis.paramType
  split
  · exact h.pure _
  · apply of_ite (h.bind (h.record _ _) fun _ => h.pure _)
    apply h.bind (h.resolveType _)
    intro written
    exact of_ite (h.failAt _ _) (h.pure _)

theorem bindParams (e : Expr) (f : FunctionType) (sam : List JType)
    (params : List (LambdaParam × JType)) : P (Analysis.bindParams e f sam params) := by
  induction params with
  | nil => exact h.pure _
  | cons p rest ih =>
    apply h.bind (h.paramType e f sam p.1 p.2)
    intro type
    exact h.bind (h.bindSymbol _ (by simp)) fun _ => ih

end

/-! ## Lambdas and method references -/

section

variable {c : Checker} (h : Nested N P) (hc : c.Has N P)

include h hc

theorem nameAfterDot (e receiver : Expr) (name : String) (beforeDot : Bool)
    (he : N (.expr e)) (hreceiver : N (.expr receiver)) :
    P (Analysis.nameAfterDot c e receiver name beforeDot) := by
  apply h.bind (hc.qualifier receiver hreceiver)
  intro d
  split
  · exact h.nameInPackage _ _ _ _ he
  · apply h.bind (h.namesType receiver hreceiver)
    intro isType
    exact of_ite (h.nameInType _ _ _ he) (h.nameInValue _ _ _)

/-- The only step that looks at a recorded type. -/
theorem refReceiver {e : Expr} {target : RefTarget} {typeArgs : List TypeRef} {name : String}
    (hshape : e.shape = .methodRef target typeArgs name) (he : N (.expr e)) :
    P (Analysis.refReceiver c e target) := by
  cases target with
  | type t => exact h.bind (h.resolveType t) fun _ => h.pure _
  | expr target =>
    obtain ⟨id, shape⟩ := e
    subst hshape
    have htarget : N (.expr target) :=
      h.child he (by simp [Node.children, Expr.children])
    apply h.bind (h.typeOf? he rfl)
    intro found
    cases found with
    | some t =>
      exact h.bind (h.pure _) fun _ => h.bind (h.namesType target htarget) fun _ => h.pure _
    | none =>
      apply h.bind (hc.expr target none htarget)
      intro t
      exact h.bind (h.namesType target htarget) fun _ => h.pure _
  | parent => exact h.bind (h.currentClass _) fun _ => h.pure _

theorem methodRefOf (e : Expr) (he : N (.expr e)) : P (Analysis.methodRefOf c e) := by
  unfold Analysis.methodRefOf
  split
  · rename_i target typeArgs name hshape
    apply h.bind (h.resolveTypes _)
    intro typeArgs
    exact h.bind (h.refReceiver hc hshape he) fun _ => h.pure _
  · exact h.failAt _ _

theorem bodyType (expected : JType) (body : LambdaBody) (hbody : N (bodyNode body)) :
    P (Analysis.bodyType c expected body) := by
  cases body with
  | expr e => exact h.bind (hc.expr e _ hbody) fun _ => h.pure _
  | block s =>
    apply h.bind (h.withFrame _ (hc.stmt s hbody))
    intro r
    split
    · exact h.bind h.classes fun _ => h.pure _
    · exact h.pure _

theorem checkLambda (e : Expr) (f : FunctionType) (params : List LambdaParam) (body : LambdaBody)
    (hbody : N (bodyNode body)) : P (Analysis.checkLambda c e f params body) := by
  unfold Analysis.checkLambda
  apply h.look
  · intro s s' hs
    dsimp only
    rw [hs.eraseOpen]
  intro s
  apply of_ite (h.failAt _ _)
  refine h.bind (h.inBlock _ ?_) fun produced => ?_
  · exact h.bind (h.bindParams e f _ _) fun _ => h.bodyType hc _ body hbody
  · apply h.bind h.classes
    intro env
    exact of_ite (h.failAt _ _) (h.pure _)

theorem checkMethodRef (e : Expr) (f : FunctionType) (he : N (.expr e)) :
    P (Analysis.checkMethodRef c e f) := by
  unfold Analysis.checkMethodRef
  apply h.bind (h.methodRefOf hc e he)
  intro ref
  apply h.look
  · intro s s' hs
    dsimp only
    rw [hs.eraseOpen]
  intro s
  apply h.bind h.classes
  intro env
  apply h.bind h.read
  intro setting
  split
  · exact h.failAt _ _
  · extract_lets -underBinder next
    have hnext : ∀ r, P (next r) := by
      intro r
      apply h.look
      · intro s s' hs
        rw [hs.eraseOpen]
      intro s
      apply h.bind h.classes
      intro env
      exact of_ite (h.failAt _ _) (h.pure _)
    split
    · exact h.bind (h.recordCall _ _) hnext
    · exact hnext ()

theorem checkFunctional (e : Expr) (target : JType) (he : N (.expr e)) :
    P (Analysis.checkFunctional c e target) := by
  unfold Analysis.checkFunctional
  apply h.bind h.classes
  intro env
  split
  · exact h.failAt _ _
  · extract_lets -underBinder next
    have hnext : ∀ r, P (next r) := fun r => h.bind (h.record _ _) fun _ => h.pure _
    split
    · rename_i params body hshape
      have hbody := h.child he (bodyNode_mem_children hshape)
      exact h.bind (h.checkLambda hc e _ _ _ hbody) hnext
    · exact h.bind (h.checkMethodRef hc e _ he) hnext
    · exact h.failAt _ _

/-! ## Calls -/

theorem classifyArg (e : Expr) (he : N (.expr e)) : P (Analysis.classifyArg c e) := by
  unfold Analysis.classifyArg
  split
  · exact h.bind (h.lambdaShape _ _) fun _ => h.pure _
  · exact h.bind (hc.methodRef e he) fun _ => h.pure _
  · exact h.bind (hc.expr e none he) fun _ => h.pure _

theorem completeArg (i : Inference) (arg : Expr) (formal : JType) (harg : N (.expr arg)) :
    P (Analysis.completeArg c i arg formal) := by
  unfold Analysis.completeArg
  apply of_ite (h.pure _)
  apply h.bind (hc.functional arg _ harg)
  intro outcome
  apply h.bind h.classes
  intro env
  extract_lets -underBinder j next
  split
  · exact h.bind (h.record _ _) fun _ => h.pure _
  · exact h.pure _

theorem completeArgs (i : Inference) (args : List (Expr × JType))
    (hargs : ∀ p ∈ args, N (.expr p.1)) : P (Analysis.completeArgs c i args) := by
  induction args generalizing i with
  | nil => exact h.pure _
  | cons p rest ih =>
    obtain ⟨hfirst, hrest⟩ := List.forall_mem_cons.mp hargs
    exact h.bind (h.completeArg hc i p.1 p.2 hfirst) fun j => ih j hrest

variable (args : List Expr) (hargs : ∀ a ∈ args, N (.expr a))

include hargs

theorem classifyArgs : P (Analysis.classifyArgs c args) :=
  h.mapM _ fun e he => h.classifyArg hc e (hargs e he)

theorem completeCall (a : Applicable) : P (Analysis.completeCall c args a) := by
  refine h.bind (h.completeArgs hc _ _ fun p hp => ?_) fun _ => h.pure _
  exact hargs p.1 (List.of_mem_zip hp).1

theorem completeFirst (failure : Option AnalysisError) (candidates : List Applicable) :
    P (Analysis.completeFirst c args failure candidates) := by
  induction candidates generalizing failure with
  | nil =>
    cases failure with
    | none => exact h.pure _
    | some failure => exact h.throw _
  | cons a rest ih =>
    rw [completeFirst_cons]
    exact h.retrying (h.completeCall hc args hargs a) (fun _ => h.pure _) fun _ => ih _

theorem completeBest (ranked : List Applicable) : P (Analysis.completeBest c args ranked) :=
  h.completeFirst hc args hargs none ranked

theorem callWith (e : Expr) (typeArgs : List JType) (name : String)
    (candidates : List MethodCandidate) :
    P (Analysis.callWith c e typeArgs name args candidates) := by
  unfold Analysis.callWith
  apply h.bind (h.classifyArgs hc args hargs)
  intro known
  apply h.bind h.read
  intro setting
  apply h.bind h.classes
  intro env
  apply h.bind (h.completeBest hc args hargs _)
  intro best
  split
  · exact h.failAt _ _
  · exact h.bind (h.recordCall _ _) fun _ => h.pure _

theorem checkCall (e : Expr) (receiver : Option Expr) (typeArgs : List TypeRef) (name : String)
    (hreceiver : ∀ r ∈ receiver, N (.expr r)) :
    P (Analysis.checkCall c e receiver typeArgs name args) := by
  unfold Analysis.checkCall
  apply h.bind (h.resolveTypes _)
  intro typeArgs
  cases receiver with
  | none => exact h.bind (h.bareMethods e name) fun _ => h.callWith hc args hargs _ _ _ _
  | some r =>
    apply h.bind (hc.qualifier r (hreceiver r rfl))
    intro d
    cases d with
    | package package => exact h.failAt _ _
    | value t =>
      apply of_ite (h.failAt _ _)
      apply of_ite (h.pure _)
      exact h.bind (h.methodsOf _ _ _ (hreceiver r rfl)) fun _ => h.callWith hc args hargs _ _ _ _

theorem selectConstructor (e : Expr) (d : ClassDef) (t : JType) (isDiamond hasBody : Bool)
    (expected : Option JType) :
    P (Analysis.selectConstructor c e d t args isDiamond hasBody expected) := by
  unfold Analysis.selectConstructor
  apply h.bind (h.classifyArgs hc args hargs)
  intro known
  apply h.bind h.classes
  intro env
  apply h.bind h.read
  intro setting
  apply h.bind (h.completeBest hc args hargs _)
  intro best
  split
  · exact h.failAt _ _
  · exact h.bind (h.recordCall _ _) fun _ => h.pure _

omit hargs

/-! ## Creation -/

theorem createdType (e : Expr) (outer : Option Expr) (type : TypeRef)
    (houter : ∀ o ∈ outer, N (.expr o)) : P (Analysis.createdType c e outer type) := by
  have hclass : ∀ name, P (createdClass c e outer type name) := by
    intro name
    cases outer with
    | none =>
      apply h.bind (h.namedType? name trivial)
      intro found
      split
      · exact h.pure _
      · exact h.failAt _ _
    | some o =>
      apply h.bind (hc.expr o none (houter o rfl))
      intro owner
      apply h.look
      · intro s s' hs
        simp only [hs.catalog.memberClass?]
      intro s
      apply h.bind h.classes
      intro env
      split
      · exact h.pure _
      · exact h.failAt _ _
  unfold Analysis.createdType
  split
  · apply h.bind (hclass _)
    intro base
    extract_lets -underBinder next
    have hnext : ∀ t, P (next t) := fun t => h.bind (h.record _ t) fun _ => h.pure _
    split
    · exact h.bind (h.resolveTypes _) fun _ => h.bind (h.pure _) hnext
    · exact h.bind (h.pure _) hnext
  · exact h.failAt _ _

theorem checkCreate (e : Expr) (outer : Option Expr) (type : TypeRef) (body : Option Decl)
    (expected : Option JType) (houter : ∀ o ∈ outer, N (.expr o))
    (hargs : ∀ a ∈ args, N (.expr a))
    (hbody : ∀ d ∈ body, ∀ base, P (checkAnonymous c (.expr e) d base)) :
    P (Analysis.checkCreate c e outer type args body expected) := by
  unfold Analysis.checkCreate
  apply h.bind (h.createdType hc e outer type houter)
  intro created
  apply h.bind (h.loadAt _ _)
  intro d
  apply of_ite (h.failAt _ _)
  apply h.bind (h.selectConstructor hc args hargs e d _ _ _ expected)
  intro a
  extract_lets -underBinder result next
  have hnext : ∀ r, P (next r) := by
    intro r
    cases body with
    | some body => exact hbody body rfl result
    | none => exact h.pure _
  exact of_ite (h.bind (h.record _ _) hnext) (hnext ())

theorem mergedType (acc : Option JType) (elements : List Expr)
    (helements : ∀ e ∈ elements, N (.expr e)) :
    P (Analysis.mergedType c acc elements) := by
  induction elements generalizing acc with
  | nil => exact h.pure _
  | cons e rest ih =>
    obtain ⟨hfirst, hrest⟩ := List.forall_mem_cons.mp helements
    apply h.bind (hc.expr e none hfirst)
    intro t
    exact h.bind (h.mergeInto acc t) fun _ => ih _ hrest

theorem checkArrayInit (elements : List Expr) (expected : Option JType)
    (helements : ∀ e ∈ elements, N (.expr e)) :
    P (Analysis.checkArrayInit c elements expected) := by
  unfold Analysis.checkArrayInit
  split
  · refine h.bind (h.forM _ fun e he => ?_) fun _ => h.pure _
    exact h.discard (hc.expr e _ (helements e he))
  · exact h.bind (h.mergedType hc none elements helements) fun _ => h.pure _

theorem checkCreateArray (element : TypeRef) (sizes : List Expr) (extraDims : Nat)
    (init : Option Expr) (hsizes : ∀ e ∈ sizes, N (.expr e))
    (hinit : ∀ e ∈ init, N (.expr e)) :
    P (Analysis.checkCreateArray c element sizes extraDims init) := by
  unfold Analysis.checkCreateArray
  apply h.bind (h.resolveType element)
  intro element
  apply h.bind (h.forM _ fun e he => h.discard (hc.expr e _ (hsizes e he)))
  intro _
  cases init with
  | some e => exact h.bind (h.discard (hc.expr e _ (hinit e rfl))) fun _ => h.pure _
  | none => exact h.pure _

/-! ## Expressions -/

theorem checkUnary (e : Expr) (op : UnaryOp) (operand : Expr)
    (hoperand : N (.expr operand)) : P (Analysis.checkUnary c e op operand) := by
  apply h.bind (hc.expr operand none hoperand)
  intro t
  split
  · exact h.failAt _ _
  · split
    · exact h.bind (h.recordWrite _) fun _ => h.pure _
    · exact h.pure _

theorem checkTarget (op : Option BinaryOp) (target : Expr) (htarget : N (.expr target)) :
    P (Analysis.checkTarget c op target) := by
  unfold Analysis.checkTarget
  split
  · apply h.inTableThen (SymbolTable.uniform_lookupForWrite _ _) (SymbolTable.level_lookupForWrite _ _)
      (.lookupForWrite _ _)
    · rintro (_ | a) (_ | a') hview
      · rfl
      · cases hview
      · cases hview
      · have htype : a.type = a'.type := Symbol.type_eq_of_plain (Option.some.inj hview)
        dsimp only
        rw [htype]
    intro found
    split
    · exact h.bind (h.record _ _) fun _ => h.pure _
    · exact hc.expr target none htarget
  · apply h.bind (hc.expr target none htarget)
    intro t
    exact h.bind (h.recordWrite _) fun _ => h.pure _
  · exact hc.expr target none htarget

theorem checkAssign (e : Expr) (op : Option BinaryOp) (target value : Expr)
    (htarget : N (.expr target)) (hvalue : N (.expr value)) :
    P (Analysis.checkAssign c e op target value) := by
  apply h.bind (h.checkTarget hc op target htarget)
  intro t
  apply h.bind (hc.expr value _ hvalue)
  intro v
  cases op with
  | some op => exact h.bind (h.discard (h.operatorType _ _ _ _)) fun _ => h.pure _
  | none => exact h.pure _

theorem checkIndex (e array position : Expr) (harray : N (.expr array))
    (hposition : N (.expr position)) : P (Analysis.checkIndex c e array position) := by
  apply h.bind (hc.expr array none harray)
  intro t
  apply h.bind (hc.expr position _ hposition)
  intro p
  split
  · exact h.pure _
  · exact h.failAt _ _

theorem exprType (e : Expr) (expected : Option JType) (he : N (.expr e)) :
    P (Analysis.exprType c e expected) := by
  have hparts : ∀ n ∈ e.children, N n := fun n hn => h.child he hn
  obtain ⟨id, shape⟩ := e
  cases shape with
  | literal kind text => exact h.pure _
  | name name => exact h.bind (h.bareName _ _ _ he) fun d => h.valueOf _ _ d
  | field receiver name =>
    simp only [Expr.children, List.forall_mem_singleton] at hparts
    exact h.bind (h.nameAfterDot hc _ receiver name false he hparts) fun d => h.valueOf _ _ d
  | call receiver typeArgs name args =>
    simp only [Expr.children, List.forall_mem_append, List.forall_mem_map,
      Option.mem_toList] at hparts
    exact h.checkCall hc args hparts.2 _ receiver typeArgs name hparts.1.1
  | create outer type args body =>
    simp only [Expr.children, List.forall_mem_append, List.forall_mem_map,
      Option.mem_toList] at hparts
    obtain ⟨⟨⟨houter, -⟩, hargs⟩, hbody⟩ := hparts
    refine h.checkCreate hc args _ outer type body expected houter hargs fun d hd base => ?_
    obtain rfl : body = some d := hd
    exact h.anonymous base he (by simp [Expr.children]) (hc.decl d (hbody d rfl))
  | createArray element sizes extraDims init =>
    simp only [Expr.children, List.forall_mem_append, List.forall_mem_map,
      Option.mem_toList] at hparts
    exact h.checkCreateArray hc element sizes extraDims init hparts.1.2 hparts.2
  | arrayInit elements =>
    simp only [Expr.children, List.forall_mem_map] at hparts
    exact h.checkArrayInit hc elements expected hparts
  | index array position =>
    simp only [Expr.children, List.mem_cons, List.not_mem_nil, or_false, forall_eq_or_imp,
      forall_eq] at hparts
    exact h.checkIndex hc _ array position hparts.1 hparts.2
  | unary op operand =>
    simp only [Expr.children, List.forall_mem_singleton] at hparts
    exact h.checkUnary hc _ op operand hparts
  | binary op left right =>
    simp only [Expr.children, List.mem_cons, List.not_mem_nil, or_false, forall_eq_or_imp,
      forall_eq] at hparts
    apply h.bind (hc.expr left none hparts.1)
    intro l
    exact h.bind (hc.expr right none hparts.2) fun r => h.operatorType _ op l r
  | assign op target value =>
    simp only [Expr.children, List.mem_cons, List.not_mem_nil, or_false, forall_eq_or_imp,
      forall_eq] at hparts
    exact h.checkAssign hc _ op target value hparts.1 hparts.2
  | conditional condition whenTrue whenFalse =>
    simp only [Expr.children, List.mem_cons, List.not_mem_nil, or_false, forall_eq_or_imp,
      forall_eq] at hparts
    obtain ⟨hcondition, htrue, hfalse⟩ := hparts
    apply h.bind (hc.expr condition _ hcondition)
    intro _
    apply h.bind (hc.expr whenTrue expected htrue)
    intro t
    apply h.bind (hc.expr whenFalse expected hfalse)
    intro f
    exact h.bind h.classes fun _ => h.pure _
  | cast type operand =>
    simp only [Expr.children, List.mem_cons, List.not_mem_nil, or_false, forall_eq_or_imp,
      forall_eq] at hparts
    apply h.bind (h.resolveType type)
    intro t
    exact h.bind (hc.expr operand _ hparts.2) fun _ => h.pure _
  | instanceOf operand type =>
    simp only [Expr.children, List.mem_cons, List.not_mem_nil, or_false, forall_eq_or_imp,
      forall_eq] at hparts
    apply h.bind (hc.expr operand none hparts.1)
    intro _
    exact h.bind (h.resolveType type) fun _ => h.pure _
  | lambda | methodRef =>
    cases expected with
    | some target => exact h.bind (h.checkFunctional hc _ target he) fun _ => h.pure _
    | none => exact h.failAt _ _
  | self qualifier => exact h.checkSelf _ qualifier
  | parent => exact h.bind (h.currentClass _) fun _ => h.pure _
  | classLiteral type => exact h.bind (h.resolveType type) fun _ => h.pure _

theorem checkExpr (e : Expr) (expected : Option JType) (he : N (.expr e)) :
    P (Analysis.checkExpr c e expected) := by
  apply h.bind (h.exprType hc e expected he)
  intro t
  exact h.bind (h.record _ _) fun _ => h.pure _

theorem checkQualifier (e : Expr) (he : N (.expr e)) :
    P (Analysis.checkQualifier c e) := by
  have hrecord : ∀ d, P (recordValue e d) := by
    intro d
    cases d with
    | value t => exact h.bind (h.record _ _) fun _ => h.pure _
    | package dotted => exact h.pure _
  unfold Analysis.checkQualifier
  split
  · exact h.bind (h.bareName _ _ _ he) hrecord
  · rename_i receiver name hshape
    have hreceiver : N (.expr receiver) :=
      h.child he (by simp [Node.children, Expr.children, hshape])
    exact h.bind (h.nameAfterDot hc e receiver name true he hreceiver) hrecord
  · exact h.bind (h.checkExpr hc e none he) fun _ => h.pure _

/-! ## Statements -/

theorem checkSequence (last : JType) (body : List Stmt)
    (hbody : ∀ s ∈ body, N (.stmt s)) : P (Analysis.checkSequence c last body) := by
  induction body generalizing last with
  | nil => exact h.pure _
  | cons s rest ih =>
    obtain ⟨hfirst, hrest⟩ := List.forall_mem_cons.mp hbody
    exact h.bind (hc.stmt s hfirst) fun t => ih t hrest

theorem checkVariables (s : Stmt) (type : TypeRef) (declared : Option JType) (last : JType)
    (vs : List Declarator) (hinits : ∀ v ∈ vs, ∀ e ∈ v.init, N (.expr e)) :
    P (Analysis.checkVariables c s type declared last vs) := by
  have hvariable : ∀ v : Declarator, (∀ e ∈ v.init, N (.expr e)) →
      P (variableType c s type declared v) := by
    rintro ⟨name, dims, init⟩ hinit
    unfold variableType
    cases declared with
    | some base =>
      cases init with
      | some e => exact h.bind (h.discard (hc.expr e _ (hinit e rfl))) fun _ => h.pure _
      | none => exact h.pure _
    | none =>
      cases init with
      | some e =>
        apply h.bind (hc.expr e none (hinit e rfl))
        intro t
        exact of_ite (h.failAt _ _) (h.bind (h.record _ _) fun _ => h.pure _)
      | none => exact h.failAt _ _
  induction vs generalizing last with
  | nil => exact h.pure _
  | cons v rest ih =>
    obtain ⟨hfirst, hrest⟩ := List.forall_mem_cons.mp hinits
    apply h.bind (hvariable v hfirst)
    intro t
    exact h.bind (h.bindVariable s v.name t) fun _ => ih t hrest

theorem checkForEach (s : Stmt) (type : TypeRef) (name : String) (iterable : Expr) (body : Stmt)
    (hiterable : N (.expr iterable)) (hbody : N (.stmt body)) :
    P (Analysis.checkForEach c s type name iterable body) := by
  unfold Analysis.checkForEach
  apply h.bind (hc.expr iterable none hiterable)
  intro source
  apply h.bind (h.elementType s source)
  intro element
  have hrest : ∀ t, P (do Analysis.bindVariable s name t; c.stmt body) :=
    fun t => h.bind (h.bindVariable s name t) fun _ => hc.stmt body hbody
  split
  · exact h.bind (h.record _ _) fun _ => h.bind (h.pure _) hrest
  · exact h.bind (h.resolveType type) hrest

theorem checkFor (init : List Stmt) (condition : Option Expr) (update : List Expr) (body : Stmt)
    (hinit : ∀ s ∈ init, N (.stmt s))
    (hcondition : ∀ e ∈ condition, N (.expr e))
    (hupdate : ∀ e ∈ update, N (.expr e)) (hbody : N (.stmt body)) :
    P (Analysis.checkFor c init condition update body) := by
  unfold Analysis.checkFor
  apply h.bind (h.forM _ fun s hs => h.discard (hc.stmt s (hinit s hs)))
  intro _
  have hrest : P (do update.forM fun e => Functor.discard (c.expr e none); c.stmt body) := by
    apply h.bind (h.forM _ fun e he => h.discard (hc.expr e none (hupdate e he)))
    intro _
    exact hc.stmt body hbody
  cases condition with
  | some e => exact h.bind (h.discard (hc.expr e _ (hcondition e rfl))) fun _ => hrest
  | none => exact hrest

theorem checkLabel (selector : JType) (e : Expr) (he : N (.expr e)) :
    P (Analysis.checkLabel c selector e) := by
  unfold Analysis.checkLabel
  split
  · apply h.bind h.classes
    intro env
    split
    · exact h.record _ _
    · exact h.discard (hc.expr e _ he)
  · exact h.discard (hc.expr e _ he)

theorem checkCases (selector : JType) (acc : Option JType) (cases : List SwitchCase)
    (hparts : ∀ k ∈ cases, ∀ n ∈ k.children, N n) :
    P (Analysis.checkCases c selector acc cases) := by
  induction cases generalizing acc with
  | nil => exact h.pure _
  | cons branch rest ih =>
    obtain ⟨hbranch, hrest⟩ := List.forall_mem_cons.mp hparts
    simp only [SwitchCase.children, List.forall_mem_append, List.forall_mem_map] at hbranch
    apply h.bind (h.forM _ fun e he => h.checkLabel hc selector e (hbranch.1 e he))
    intro _
    apply h.bind (h.checkSequence hc _ _ hbranch.2)
    intro t
    exact h.bind (h.mergeInto acc t) fun merged => ih _ hrest

theorem checkReturn (value : Option Expr) (hvalue : ∀ e ∈ value, N (.expr e)) :
    P (Analysis.checkReturn c value) := by
  cases value with
  | none => exact h.pure _
  | some e =>
    apply h.look
    · intro s s' hs
      rw [hs.frames]
    intro s
    apply h.bind (hc.expr e _ (hvalue e rfl))
    intro t
    exact h.bind (h.noteReturn t) fun _ => h.pure _

theorem checkCatches (acc : JType) (catches : List CatchClause)
    (hparts : ∀ k ∈ catches, ∀ n ∈ k.children, N n) :
    P (Analysis.checkCatches c acc catches) := by
  induction catches generalizing acc with
  | nil => exact h.pure _
  | cons clause rest ih =>
    obtain ⟨hclause, hrest⟩ := List.forall_mem_cons.mp hparts
    simp only [CatchClause.children, List.forall_mem_append, List.forall_mem_map,
      List.forall_mem_singleton] at hclause
    have hcatch : P (checkCatch c clause) := by
      apply h.bind (h.caughtType _ _)
      intro caught
      exact h.inBlock _ (h.bind (h.bindSymbol _ (by simp)) fun _ => hc.stmt _ hclause.2)
    apply h.bind hcatch
    intro t
    exact h.bind h.classes fun _ => ih _ hrest

theorem checkTry (s : Stmt) (resources : List Stmt) (body : Stmt) (catches : List CatchClause)
    (final : Option Stmt) (hresources : ∀ r ∈ resources, N (.stmt r))
    (hbody : N (.stmt body)) (hcatches : ∀ k ∈ catches, ∀ n ∈ k.children, N n)
    (hfinal : ∀ f ∈ final, N (.stmt f)) :
    P (Analysis.checkTry c s resources body catches final) := by
  unfold Analysis.checkTry
  refine h.bind (h.inBlock _ ?_) fun t => ?_
  · apply h.bind (h.forM _ fun r hr => h.discard (hc.stmt r (hresources r hr)))
    intro _
    exact hc.stmt body hbody
  · apply h.bind (h.checkCatches hc t catches hcatches)
    intro t
    cases final with
    | some f => exact h.bind (h.discard (hc.stmt f (hfinal f rfl))) fun _ => h.pure _
    | none => exact h.pure _

theorem stmtType (s : Stmt) (hs : N (.stmt s)) : P (Analysis.stmtType c s) := by
  have hparts : ∀ n ∈ s.children, N n := fun n hn => h.child hs hn
  obtain ⟨id, shape⟩ := s
  cases shape with
  | block body =>
    simp only [Stmt.children, List.forall_mem_map] at hparts
    exact h.inBlock _ (h.checkSequence hc .void body hparts)
  | vars type vs =>
    simp only [Stmt.children, List.forall_mem_append, List.forall_mem_singleton,
      List.forall_mem_map, forall_mem_inits] at hparts
    unfold Analysis.stmtType
    dsimp only
    split
    · exact h.bind (h.pure _) fun _ => h.checkVariables hc _ type _ .void vs hparts.2
    · apply h.bind (h.map _ (h.resolveType type))
      intro declared
      exact h.checkVariables hc _ type _ .void vs hparts.2
  | decl d =>
    simp only [Stmt.children, List.forall_mem_singleton] at hparts
    have hdecl := h.localClass hs (by simp [Stmt.children]) (hc.decl d hparts)
    exact h.bind hdecl fun _ => h.pure _
  | expr e =>
    simp only [Stmt.children, List.forall_mem_singleton] at hparts
    exact hc.expr e none hparts
  | ifElse condition thenBranch elseBranch =>
    simp only [Stmt.children, List.forall_mem_append, List.forall_mem_map, Option.mem_toList,
      List.mem_cons, List.not_mem_nil, or_false, forall_eq_or_imp, forall_eq] at hparts
    obtain ⟨⟨hcondition, hthen⟩, helse⟩ := hparts
    apply h.bind (hc.expr condition _ hcondition)
    intro _
    apply h.bind (hc.stmt thenBranch hthen)
    intro t
    cases elseBranch with
    | none => exact h.pure _
    | some b =>
      apply h.bind (hc.stmt b (helse b rfl))
      intro f
      exact h.bind h.classes fun _ => h.pure _
  | whileLoop condition body =>
    simp only [Stmt.children, List.mem_cons, List.not_mem_nil, or_false, forall_eq_or_imp,
      forall_eq] at hparts
    exact h.bind (hc.expr condition _ hparts.1) fun _ => hc.stmt body hparts.2
  | doWhile body condition =>
    simp only [Stmt.children, List.mem_cons, List.not_mem_nil, or_false, forall_eq_or_imp,
      forall_eq] at hparts
    apply h.bind (hc.stmt body hparts.1)
    intro t
    exact h.bind (hc.expr condition _ hparts.2) fun _ => h.pure _
  | forLoop init condition update body =>
    simp only [Stmt.children, List.forall_mem_append, List.forall_mem_map, Option.mem_toList,
      List.forall_mem_singleton] at hparts
    obtain ⟨⟨⟨hinit, hcondition⟩, hupdate⟩, hbody⟩ := hparts
    exact h.inBlock _ (h.checkFor hc init condition update body hinit hcondition hupdate hbody)
  | forEach type name iterable body =>
    simp only [Stmt.children, List.mem_cons, List.not_mem_nil, or_false, forall_eq_or_imp,
      forall_eq] at hparts
    obtain ⟨-, hiterable, hbody⟩ := hparts
    exact h.inBlock _ (h.checkForEach hc _ type name iterable body hiterable hbody)
  | switch selector cases =>
    simp only [Stmt.children, List.forall_mem_append, List.forall_mem_flatMap,
      List.forall_mem_singleton] at hparts
    apply h.bind (hc.expr selector none hparts.1)
    intro t
    exact h.bind (h.inBlock _ (h.checkCases hc t none cases hparts.2)) fun _ => h.pure _
  | ret value =>
    simp only [Stmt.children, List.forall_mem_map, Option.mem_toList] at hparts
    exact h.checkReturn hc value hparts
  | breakTo label => exact h.pure _
  | continueTo label => exact h.pure _
  | empty => exact h.pure _
  | throw e =>
    simp only [Stmt.children, List.forall_mem_singleton] at hparts
    exact h.bind (hc.expr e none hparts) fun _ => h.pure _
  | tryCatch resources body catches final =>
    simp only [Stmt.children, List.forall_mem_append, List.forall_mem_map, Option.mem_toList,
      List.forall_mem_flatMap, List.forall_mem_singleton] at hparts
    obtain ⟨⟨⟨hresources, hbody⟩, hcatches⟩, hfinal⟩ := hparts
    exact h.checkTry hc _ resources body catches final hresources hbody hcatches hfinal
  | labeled label body =>
    simp only [Stmt.children, List.forall_mem_singleton] at hparts
    exact hc.stmt body hparts

theorem checkStmt (s : Stmt) (hs : N (.stmt s)) : P (Analysis.checkStmt c s) := by
  apply h.bind (h.stmtType hc s hs)
  intro t
  exact h.bind (h.record _ _) fun _ => h.pure _

end

/-! ## All heights -/

section

variable (h : Nested N P)

include h

/-- A checker has the property if the checker of the parts has, given that for declarations. -/
theorem step {c : Checker} (hc : c.Has N P)
    (hdecl : ∀ d, N (.decl d) → P (Analysis.checkDecl c d)) : c.step.Has N P where
  expr e expected he := h.checkExpr hc e expected he
  qualifier e he := h.checkQualifier hc e he
  functional e target he := h.checkFunctional hc e target he
  methodRef e he := h.methodRefOf hc e he
  stmt s hs := h.checkStmt hc s hs
  decl := hdecl

theorem upTo (hdecl : ∀ c : Checker, c.Has N P → ∀ d, N (.decl d) → P (Analysis.checkDecl c d))
    (height : Nat) : (Checker.upTo height).Has N P := by
  induction height with
  | zero =>
    exact ⟨fun _ _ _ => h.failAt _ _, fun _ _ => h.failAt _ _, fun _ _ _ => h.failAt _ _,
      fun _ _ => h.failAt _ _, fun _ _ => h.failAt _ _, fun _ _ => h.failAt _ _⟩
  | succ height ih => exact h.step ih (hdecl _ ih)

end

end Nested

end JavaSema.Analysis
