import JavaSema.Analysis.Expr
import JavaSema.Proofs.Analysis.Typed

/-!
# Checkers cover expressions

Where an expression is checked with success, it and all nodes below it have a type at the end, except
for the segments of package names.

There are three groups.

* `Checker.Covering` is what checking a node of each kind establishes.
* Children.  When the children of an expression are covered.
* One theorem for each function that types expressions, which takes a covering checker for the parts.
-/

namespace JavaSema.Analysis

open Source

/-- What is known at the end of an expression before a dot. -/
def Denotation.Known (u : SourceUnit) (T : Typings) (e : Expr) : Denotation → Prop
  | .value _ => Covered u T (.expr e)
  | .package _ => isName e = true ∧ Filled u T (.expr e)

/-- Where the checker succeeds at a node of the unit, the nodes at and below it are settled at the
end. -/
structure Checker.Covering (u : SourceUnit) (T : Typings) (c : Checker) : Prop where
  /-- Expressions. -/
  expr : ∀ e expected, Node.expr e ∈ u.nodes →
    Covers u T True (c.expr e expected) fun _ => Covered u T (.expr e)
  /-- Expressions before a dot. -/
  qualifier : ∀ e, Node.expr e ∈ u.nodes → Covers u T True (c.qualifier e) fun d => d.Known u T e
  /-- Lambdas and method references. -/
  functional : ∀ e target, Node.expr e ∈ u.nodes →
    Covers u T True (c.functional e target) fun _ => Covered u T (.expr e)
  /-- The parts of method references. -/
  methodRef : ∀ e, Node.expr e ∈ u.nodes →
    Covers u T True (c.methodRef e) fun _ => Filled u T (.expr e)
  /-- Statements. -/
  stmt : ∀ s, Node.stmt s ∈ u.nodes →
    Covers u T True (c.stmt s) fun _ => Covered u T (.stmt s)
  /-- Declarations. -/
  decl : ∀ d, Node.decl d ∈ u.nodes →
    Covers u T True (c.decl d) fun _ => Covered u T (.decl d)

variable {u : SourceUnit} {T : Typings} {c : Checker}

/-- The node of the body of a lambda. -/
def bodyNode : LambdaBody → Node
  | .expr e => .expr e
  | .block s => .stmt s

theorem bodyNode_mem_children {e : Expr} {params : List LambdaParam} {body : LambdaBody}
    (hshape : e.shape = .lambda params body) : bodyNode body ∈ (Node.expr e).children := by
  cases body <;> simp [Node.children, Expr.children, hshape, bodyNode]

theorem lambdaType_mem_children {e : Expr} {params : List LambdaParam} {body : LambdaBody}
    (hshape : e.shape = .lambda params body) {p : LambdaParam} (hp : p ∈ params) {t : TypeRef}
    (ht : t ∈ p.type) : Node.type t ∈ (Node.expr e).children := by
  simp only [Node.children, Expr.children, hshape, List.mem_append]
  exact .inl (List.mem_map_of_mem (List.mem_filterMap.mpr ⟨p, hp, ht⟩))

theorem filled_lambda {e : Expr} {params : List LambdaParam} {body : LambdaBody}
    (hshape : e.shape = .lambda params body) (hbody : Covered u T (bodyNode body)) :
    Filled u T (.expr e) := by
  intro n hn
  cases body <;> simp only [Node.children, Expr.children, hshape, List.mem_append, List.mem_map,
    List.mem_singleton] at hn
  all_goals rcases hn with ⟨t, -, rfl⟩ | rfl
  all_goals first
    | exact covered_type t
    | exact hbody

theorem filled_methodRef {e : Expr} {target : RefTarget} {typeArgs : List TypeRef} {name : String}
    (hshape : e.shape = .methodRef target typeArgs name)
    (htarget : ∀ e, target = .expr e → Covered u T (.expr e)) : Filled u T (.expr e) := by
  intro n hn
  cases target <;> simp only [Node.children, Expr.children, hshape, List.mem_append, List.mem_map,
    List.mem_singleton, List.not_mem_nil, false_or] at hn
  case expr target =>
    rcases hn with rfl | ⟨t, -, rfl⟩
    · exact htarget target rfl
    · exact covered_type t
  case type target =>
    rcases hn with rfl | ⟨t, -, rfl⟩
    · exact covered_type target
    · exact covered_type t
  case parent =>
    obtain ⟨t, -, rfl⟩ := hn
    exact covered_type t

theorem filled_call {e : Expr} {receiver : Option Expr} {typeArgs : List TypeRef} {name : String}
    {args : List Expr} (hshape : e.shape = .call receiver typeArgs name args)
    (hreceiver : ∀ r ∈ receiver, Covered u T (.expr r))
    (hargs : ∀ a ∈ args, Covered u T (.expr a)) : Filled u T (.expr e) := by
  intro n hn
  simp only [Node.children, Expr.children, hshape, List.mem_append, List.mem_map,
    Option.mem_toList] at hn
  rcases hn with (⟨r, hr, rfl⟩ | ⟨t, -, rfl⟩) | ⟨a, ha, rfl⟩
  · exact hreceiver r hr
  · exact covered_type t
  · exact hargs a ha

theorem filled_create {e : Expr} {outer : Option Expr} {type : TypeRef} {args : List Expr}
    {body : Option Decl} (hshape : e.shape = .create outer type args body)
    (houter : ∀ o ∈ outer, Covered u T (.expr o)) (hargs : ∀ a ∈ args, Covered u T (.expr a))
    (hbody : ∀ d ∈ body, Covered u T (.decl d)) : Filled u T (.expr e) := by
  intro n hn
  simp only [Node.children, Expr.children, hshape, List.mem_append, List.mem_map,
    List.mem_singleton, Option.mem_toList] at hn
  rcases hn with ((⟨o, ho, rfl⟩ | rfl) | ⟨a, ha, rfl⟩) | ⟨d, hd, rfl⟩
  · exact houter o ho
  · exact covered_type type
  · exact hargs a ha
  · exact hbody d hd

theorem forall_mem_none {α : Type} {p : α → Prop} : ∀ b ∈ (none : Option α), p b := by
  simp

theorem forall_mem_some {α : Type} {a : α} {p : α → Prop} : (∀ b ∈ some a, p b) ↔ p a := by
  simp

section

variable (hids : (u.nodes.map Node.id).Nodup) (hc : c.Covering u T)

include hc

/-! ## Names -/

/-- A name before the dot that is a package needs no type. -/
theorem covers_nameAfterDot {e receiver : Expr} {name : String}
    (hshape : e.shape = .field receiver name) (he : Node.expr e ∈ u.nodes) (beforeDot : Bool) :
    Covers u T True (nameAfterDot c e receiver name beforeDot) fun _ => Filled u T (.expr e) := by
  have hreceiver : Node.expr receiver ∈ u.nodes :=
    SourceUnit.child_mem_nodes he (by simp [Node.children, Expr.children, hshape])
  have hfilled : Covered u T (.expr receiver) → Filled u T (.expr e) := by
    intro h
    simpa [Filled, Node.children, Expr.children, hshape] using h
  refine .seq (hc.qualifier receiver hreceiver) fun d => ?_
  cases d with
  | package package =>
    refine .leaf (goes_nameInPackage e package name beforeDot) ?_
    rintro ⟨-, hname, hbelow⟩ -
    exact hfilled (hbelow.covered (.inr ⟨hname, e, name, he, hshape⟩))
  | value owner =>
    refine .skip (goes_namesType receiver) fun _ => .ite ?_ ?_
    · exact .leaf (goes_nameInType e owner name) fun h _ => hfilled h.2
    · exact .leaf (goes_nameInValue e owner name) fun h _ => hfilled h.2

/-! ## Lambdas and method references -/

include hids

/-- A receiver that was typed before is covered already. -/
theorem covers_refReceiver (e : Expr) (target : RefTarget)
    (h : ∀ e, target = .expr e → Node.expr e ∈ u.nodes)
    (ht : ∀ t, target = .type t → Node.type t ∈ u.nodes) :
    Covers u T True (refReceiver c e target) fun _ =>
      ∀ e, target = .expr e → Covered u T (.expr e) := by
  cases target with
  | type t =>
    exact .skip (goes_resolveType t (sparing_allows hids (ht t rfl))) fun _ => .pure fun _ => nofun
  | expr target =>
    refine .seq (.typeOf? (h target rfl)) fun found => ?_
    cases found with
    | some t =>
      refine .skip (.pure t) fun t => .skip (goes_namesType target) fun _ => .pure ?_
      rintro ⟨-, hcovered⟩ _ ⟨⟩
      exact hcovered rfl
    | none =>
      refine .seq (hc.expr target none (h target rfl)) fun t => ?_
      refine .skip (goes_namesType target) fun _ => .pure ?_
      rintro ⟨-, hcovered⟩ _ ⟨⟩
      exact hcovered
  | parent => exact .skip (goes_currentClass _) fun _ => .pure fun _ => nofun

theorem covers_methodRefOf (e : Expr) (he : Node.expr e ∈ u.nodes) :
    Covers u T True (methodRefOf c e) fun _ => Filled u T (.expr e) := by
  have hparts : ∀ n ∈ (Node.expr e).children, n ∈ u.nodes :=
    fun n hn => SourceUnit.child_mem_nodes he hn
  unfold methodRefOf
  split
  · rename_i target typeArgs name hshape
    have htypes : ∀ t ∈ typeArgs, (sparing u).Allows (.type t) := by
      intro t ht
      exact sparing_allows hids (hparts _ (by simp [Node.children, Expr.children, hshape, ht]))
    refine .skip (goes_resolveTypes typeArgs htypes) fun _ => ?_
    refine .seq (covers_refReceiver hids hc e target ?_ ?_) fun _ => .pure ?_
    · rintro e rfl
      exact hparts _ (by simp [Node.children, Expr.children, hshape])
    · rintro t rfl
      exact hparts _ (by simp [Node.children, Expr.children, hshape])
    · rintro ⟨-, htarget⟩
      exact filled_methodRef hshape htarget
  · exact .failAt _ _

omit hids in
theorem covers_bodyType (expected : JType) (body : LambdaBody) (h : bodyNode body ∈ u.nodes) :
    Covers u T True (bodyType c expected body) fun _ => Covered u T (bodyNode body) := by
  cases body with
  | expr e => exact .seq (hc.expr e _ h) fun _ => .pure And.right
  | block s =>
    refine .seq (.withFrame (hc.stmt s h) _) fun r => ?_
    split
    · exact .skip goes_classes fun _ => .pure And.right
    · exact .pure And.right

theorem covers_checkLambda {e : Expr} (f : FunctionType) {params : List LambdaParam}
    {body : LambdaBody} (hshape : e.shape = .lambda params body) (he : Node.expr e ∈ u.nodes) :
    Covers u T True (checkLambda c e f params body) fun _ => Filled u T (.expr e) := by
  have hbody : bodyNode body ∈ u.nodes :=
    SourceUnit.child_mem_nodes he (bodyNode_mem_children hshape)
  have hparams : ∀ p ∈ params, ∀ t ∈ p.type, (sparing u).Allows (.type t) := by
    intro p hp t ht
    exact sparing_allows hids
      (SourceUnit.child_mem_nodes he (lambdaType_mem_children hshape hp ht))
  unfold checkLambda
  refine .skip .get fun s => .ite (.failAt _ _) ?_
  refine .seq (R := fun _ => Covered u T (bodyNode body)) (.inBlock ?_ _) fun produced => ?_
  · refine .skip (has_bindParams rfl e f _ _ fun p hp => ?_) fun _ => ?_
    · exact hparams p.1 (List.of_mem_zip hp).1
    · exact covers_bodyType hc _ body hbody
  · refine .skip goes_classes fun env => .ite (.failAt _ _) (.pure ?_)
    rintro ⟨-, hcovered⟩
    exact filled_lambda hshape hcovered

theorem covers_checkMethodRef (e : Expr) (f : FunctionType) (he : Node.expr e ∈ u.nodes) :
    Covers u T True (checkMethodRef c e f) fun _ => Filled u T (.expr e) := by
  unfold checkMethodRef
  refine .seq (covers_methodRefOf hids hc e he) fun ref => ?_
  refine .skip .get fun s => .skip goes_classes fun env => .skip .read fun setting => ?_
  split
  · exact .failAt _ _
  · extract_lets -underBinder next
    have hnext : ∀ r, Covers u T (True ∧ Filled u T (.expr e)) (next r) fun _ =>
        Filled u T (.expr e) := by
      intro r
      refine .skip .get fun s => .skip goes_classes fun env => ?_
      exact .ite (.failAt _ _) (.pure And.right)
    split
    · exact .skip (goes_recordCall _ _) hnext
    · exact hnext ()

theorem covers_checkFunctional (e : Expr) (target : JType) (he : Node.expr e ∈ u.nodes) :
    Covers u T True (checkFunctional c e target) fun _ => Covered u T (.expr e) := by
  unfold checkFunctional
  refine .skip goes_classes fun env => ?_
  split
  · exact .failAt _ _
  · extract_lets -underBinder next
    have hnext : ∀ r, Covers u T (True ∧ Filled u T (.expr e)) (next r) fun _ =>
        Covered u T (.expr e) := by
      intro r
      refine .bind (.record hids he And.right _) fun _ => .pure ?_
      rintro ⟨⟨-, hfilled⟩, htyped⟩
      exact hfilled.covered_expr htyped
    split
    · rename_i params body hshape
      exact .seq (covers_checkLambda hids hc _ hshape he) hnext
    · exact .seq (covers_checkMethodRef hids hc e _ he) hnext
    · exact .failAt _ _

/-! ## Calls -/

theorem covers_classifyArg (e : Expr) (he : Node.expr e ∈ u.nodes) :
    Covers u T True (classifyArg c e) fun _ =>
      isFunctional e = false → Covered u T (.expr e) := by
  unfold classifyArg
  split
  · rename_i params body hshape
    refine .skip (goes_lambdaShape params body fun p hp t ht => ?_) fun _ => .pure ?_
    · exact sparing_allows hids
        (SourceUnit.child_mem_nodes he (lambdaType_mem_children hshape hp ht))
    · intro _ hfun
      simp [isFunctional, hshape] at hfun
  · rename_i target typeArgs name hshape
    refine .seq (hc.methodRef e he) fun _ => .pure ?_
    intro _ hfun
    simp [isFunctional, hshape] at hfun
  · refine .seq (hc.expr e none he) fun _ => .pure ?_
    rintro ⟨-, hcovered⟩ -
    exact hcovered

theorem covers_classifyArgs (args : List Expr) (hargs : ∀ a ∈ args, Node.expr a ∈ u.nodes) :
    Covers u T True (classifyArgs c args) fun known => known.length = args.length ∧
      ∀ a ∈ args, isFunctional a = false → Covered u T (.expr a) :=
  .mapM args fun a ha => covers_classifyArg hids hc a (hargs a ha)

theorem covers_completeArg (i : Inference) (arg : Expr) (formal : JType)
    (harg : Node.expr arg ∈ u.nodes) :
    Covers u T True (completeArg c i arg formal) fun _ =>
      isFunctional arg = true → Covered u T (.expr arg) := by
  unfold completeArg
  split
  · rename_i hplain
    refine .pure ?_
    intro _ hfun
    simp [hfun] at hplain
  · refine .seq (hc.functional arg _ harg) fun outcome => .skip goes_classes fun env => ?_
    extract_lets -underBinder j next
    split
    · refine .bind (.record hids harg (fun h => h.2.filled) _) fun _ => .pure ?_
      rintro ⟨⟨-, hcovered⟩, -⟩ -
      exact hcovered
    · exact .pure fun h _ => h.2

theorem covers_completeArgs (i : Inference) (args : List (Expr × JType))
    (hargs : ∀ p ∈ args, Node.expr p.1 ∈ u.nodes) :
    Covers u T True (completeArgs c i args) fun _ =>
      ∀ p ∈ args, isFunctional p.1 = true → Covered u T (.expr p.1) := by
  induction args generalizing i with
  | nil => exact .pure fun _ => List.forall_mem_nil _
  | cons p rest ih =>
    have hfirst := covers_completeArg hids hc i p.1 p.2 (hargs p List.mem_cons_self)
    refine .seq hfirst fun j => ?_
    refine .last (ih j fun q hq => hargs q (List.mem_cons_of_mem _ hq)) ?_
    rintro _ ⟨-, hp⟩ hrest q hq
    rcases List.mem_cons.mp hq with rfl | hq
    · exact hp
    · exact hrest q hq

variable (args : List Expr) (hargs : ∀ a ∈ args, Node.expr a ∈ u.nodes)

include hargs

/-- Each argument has a parameter of the candidate, so that none is left out. -/
theorem covers_completeCall (a : Applicable) :
    Covers u T (a.formals.length = args.length) (completeCall c args a) fun _ =>
      ∀ arg ∈ args, isFunctional arg = true → Covered u T (.expr arg) := by
  refine .seq (covers_completeArgs hids hc _ _ fun p hp => ?_) fun _ => .pure ?_
  · exact hargs p.1 (List.of_mem_zip hp).1
  · rintro ⟨hlength, hpairs⟩ arg harg
    have hfst : (args.zip a.formals).map Prod.fst = args :=
      List.map_fst_zip (Nat.le_of_eq hlength.symm)
    rw [← hfst] at harg
    obtain ⟨p, hp, rfl⟩ := List.mem_map.mp harg
    exact hpairs p hp

theorem covers_completeFirst (failure : Option AnalysisError) (candidates : List Applicable) :
    Covers u T (∀ a ∈ candidates, a.formals.length = args.length)
      (completeFirst c args failure candidates) fun best => best.isSome = true →
        ∀ arg ∈ args, isFunctional arg = true → Covered u T (.expr arg) := by
  induction candidates generalizing failure with
  | nil =>
    cases failure with
    | none => exact .pure fun _ => nofun
    | some failure => exact .throw _
  | cons a rest ih =>
    have hcall := covers_completeCall hids hc args hargs a
    rw [completeFirst]
    refine .skip .get fun before => ?_
    refine .bind (.attempt (hcall.imp (fun h => h a List.mem_cons_self) fun _ _ h => h)) fun r => ?_
    cases r with
    | ok b => exact .pure fun h _ => h.2 b rfl
    | error e =>
      -- The types that the candidate recorded before it failed stay: `Covers` speaks of failures too.
      refine .ite (.throw _) (.after (.unwindTo _) fun _ => ?_)
      refine .skip (.modifyGet (fun _ => rfl) (fun _ => rfl) fun _ => rfl) fun _ => ?_
      refine (ih _).imp ?_ fun _ _ h => h
      exact fun h b hb => h.1 b (List.mem_cons_of_mem _ hb)

/-- The arguments are covered if a candidate takes them: those that need no target type were typed
before, and the candidate has a parameter for each of the others. -/
theorem covers_completeBest {known : List Arg} {ranked : List Applicable}
    (hranked : ∀ a ∈ ranked, a.formals.length = known.length) :
    Covers u T (True ∧ known.length = args.length ∧
        ∀ arg ∈ args, isFunctional arg = false → Covered u T (.expr arg))
      (completeBest c args ranked) fun best =>
        best.isSome = true → ∀ arg ∈ args, Covered u T (.expr arg) := by
  refine (covers_completeFirst hids hc args hargs none ranked).imp ?_ ?_
  · rintro ⟨-, hlength, -⟩ a ha
    exact (hranked a ha).trans hlength
  · rintro best ⟨-, -, hplain⟩ hfunctional hbest arg harg
    cases hfun : isFunctional arg with
    | false => exact hplain arg harg hfun
    | true => exact hfunctional hbest arg harg hfun

theorem covers_callWith (e : Expr) (typeArgs : List JType) (name : String)
    (candidates : List MethodCandidate) :
    Covers u T True (callWith c e typeArgs name args candidates) fun _ =>
      ∀ arg ∈ args, Covered u T (.expr arg) := by
  unfold callWith
  refine .seq (covers_classifyArgs hids hc args hargs) fun known => .skip .read fun setting => ?_
  refine .skip goes_classes fun env => ?_
  refine .bind (covers_completeBest hids hc args hargs ?_) fun best => ?_
  · exact fun _ => CallSite.length_of_ranked
  · cases best with
    | none => exact .failAt _ _
    | some a => exact .skip (goes_recordCall _ _) fun _ => .pure fun h => h.2 rfl

omit hargs

theorem covers_checkCall {e : Expr} {receiver : Option Expr} {typeArgs : List TypeRef}
    {name : String} (hshape : e.shape = .call receiver typeArgs name args)
    (he : Node.expr e ∈ u.nodes) :
    Covers u T True (checkCall c e receiver typeArgs name args) fun _ => Filled u T (.expr e) := by
  have hparts : ∀ n ∈ (Node.expr e).children, n ∈ u.nodes :=
    fun n hn => SourceUnit.child_mem_nodes he hn
  have hargs : ∀ a ∈ args, Node.expr a ∈ u.nodes := by
    intro a ha
    exact hparts _ (by simp [Node.children, Expr.children, hshape, ha])
  have htypes : ∀ t ∈ typeArgs, (sparing u).Allows (.type t) := by
    intro t ht
    exact sparing_allows hids (hparts _ (by simp [Node.children, Expr.children, hshape, ht]))
  refine .skip (goes_resolveTypes typeArgs htypes) fun typeArgs => ?_
  cases receiver with
  | none =>
    refine .skip (goes_bareMethods e name) fun candidates => ?_
    refine .last (covers_callWith hids hc args hargs e typeArgs name candidates) ?_
    exact fun _ _ hcovered => filled_call hshape forall_mem_none hcovered
  | some r =>
    have hr : Node.expr r ∈ u.nodes :=
      hparts _ (by simp [Node.children, Expr.children, hshape])
    refine .seq (hc.qualifier r hr) fun d => ?_
    cases d with
    | package package => exact .failAt _ _
    | value t =>
      have hreceiver : True ∧ Covered u T (.expr r) → ∀ r' ∈ some r, Covered u T (.expr r') :=
        fun h => forall_mem_some.mpr h.2
      refine .ite (.failAt _ _) ?_
      split
      · rename_i hclone
        simp only [Bool.and_eq_true, List.isEmpty_iff] at hclone
        obtain ⟨-, rfl⟩ := hclone
        exact .pure fun h => filled_call hshape (hreceiver h) (List.forall_mem_nil _)
      · refine .skip (goes_methodsOf r t name) fun candidates => ?_
        refine .last (covers_callWith hids hc args hargs e typeArgs name candidates) ?_
        exact fun _ h hcovered => filled_call hshape (hreceiver h) hcovered

/-! ## Creation -/

theorem covers_checkAnonymous (n : Node) (d : Decl) (base : JType) (hd : Node.decl d ∈ u.nodes) :
    Covers u T True (checkAnonymous c n d base) fun _ => Covered u T (.decl d) := by
  have hallows : (sparing u).Allows (.decl d) := sparing_allows hids hd
  unfold checkAnonymous
  refine .skip (goes_currentClassName n) fun enclosing => .skip (goes_inCatalog _) fun binary => ?_
  refine .skip (goes_inCatalog _) fun _ => .skip (goes_loadAt _ _) fun parent => ?_
  refine .skip .get fun s => .skip (.record hallows.decl _) fun _ => ?_
  refine .skip (goes_declareBody d _ hallows) fun _ => ?_
  exact .seq (hc.decl d hd) fun _ => .pure And.right

omit hids in
theorem covers_createdClass (e : Expr) (outer : Option Expr) (type : TypeRef)
    (name : QualifiedName) (houter : ∀ o ∈ outer, Node.expr o ∈ u.nodes) :
    Covers u T True (createdClass c e outer type name) fun _ =>
      ∀ o ∈ outer, Covered u T (.expr o) := by
  unfold createdClass
  cases outer with
  | none =>
    refine .skip (goes_namedType? name) fun found => ?_
    split
    · exact .pure fun _ => forall_mem_none
    · exact .failAt _ _
  | some o =>
    refine .seq (hc.expr o none (houter o rfl)) fun owner => ?_
    refine .skip .get fun s => .skip goes_classes fun env => ?_
    split
    · refine .pure ?_
      exact fun h => forall_mem_some.mpr h.2
    · exact .failAt _ _

theorem covers_createdType (e : Expr) (outer : Option Expr) (type : TypeRef)
    (houter : ∀ o ∈ outer, Node.expr o ∈ u.nodes) (htype : Node.type type ∈ u.nodes) :
    Covers u T True (createdType c e outer type) fun _ => ∀ o ∈ outer, Covered u T (.expr o) := by
  have hallows : (sparing u).Allows (.type type) := sparing_allows hids htype
  unfold createdType
  split
  · rename_i name typeArgs hshape
    refine .seq (covers_createdClass hc e outer type name houter) fun base => ?_
    extract_lets -underBinder next
    have hnext : ∀ t, Covers u T (True ∧ ∀ o ∈ outer, Covered u T (.expr o)) (next t) fun _ =>
        ∀ o ∈ outer, Covered u T (.expr o) :=
      fun t => .skip (.record hallows.type t) fun _ => .pure And.right
    split
    · refine .skip (goes_resolveTypes _ fun t ht => hallows.child ?_) fun _ => ?_
      · simpa [Node.children, TypeRef.children, hshape] using ht
      · exact .skip (.pure _) hnext
    · exact .skip (.pure _) hnext
  · exact .failAt _ _

theorem covers_selectConstructor (e : Expr) (d : ClassDef) (t : JType)
    (hargs : ∀ a ∈ args, Node.expr a ∈ u.nodes) (isDiamond hasBody : Bool)
    (expected : Option JType) :
    Covers u T True (selectConstructor c e d t args isDiamond hasBody expected) fun _ =>
      ∀ arg ∈ args, Covered u T (.expr arg) := by
  unfold selectConstructor
  refine .seq (covers_classifyArgs hids hc args hargs) fun known => .skip goes_classes fun env => ?_
  refine .skip .read fun setting => ?_
  refine .bind (covers_completeBest hids hc args hargs ?_) fun best => ?_
  · intro a ha
    split at ha
    · obtain ⟨b, hb, hformals⟩ := formals_of_aimAt ha
      rw [hformals]
      exact CallSite.length_of_ranked hb
    · exact CallSite.length_of_ranked ha
  · cases best with
    | none => exact .failAt _ _
    | some a => exact .skip (goes_recordCall _ _) fun _ => .pure fun h => h.2 rfl

theorem covers_checkCreate {e : Expr} {outer : Option Expr} {type : TypeRef} {body : Option Decl}
    (hshape : e.shape = .create outer type args body) (he : Node.expr e ∈ u.nodes)
    (expected : Option JType) :
    Covers u T True (checkCreate c e outer type args body expected) fun _ =>
      Filled u T (.expr e) := by
  have hparts : ∀ n ∈ (Node.expr e).children, n ∈ u.nodes :=
    fun n hn => SourceUnit.child_mem_nodes he hn
  simp only [Node.children, Expr.children, hshape, List.forall_mem_append, List.forall_mem_map,
    List.forall_mem_singleton, Option.mem_toList] at hparts
  obtain ⟨⟨⟨houter, htype⟩, hargs⟩, hbody⟩ := hparts
  unfold checkCreate
  refine .seq (covers_createdType hids hc e outer type houter htype) fun created => ?_
  refine .skip (goes_loadAt _ _) fun d => .ite (.failAt _ _) ?_
  refine .seq (covers_selectConstructor hids hc args e d _ hargs _ _ expected) fun a => ?_
  extract_lets -underBinder result next
  have hnext : ∀ r, Covers u T ((True ∧ ∀ o ∈ outer, Covered u T (.expr o)) ∧
      ∀ arg ∈ args, Covered u T (.expr arg)) (next r) fun _ => Filled u T (.expr e) := by
    intro r
    cases body with
    | some body =>
      refine .last (covers_checkAnonymous hids hc (.expr e) body result (hbody body rfl)) ?_
      rintro _ ⟨⟨-, houter⟩, hargs⟩ hbody
      exact filled_create hshape houter hargs (forall_mem_some.mpr hbody)
    | none =>
      refine .pure ?_
      rintro ⟨⟨-, houter⟩, hargs⟩
      exact filled_create hshape houter hargs forall_mem_none
  exact .ite (.skip (.record (sparing_allows hids htype).type _) hnext) (hnext ())

omit hids in
theorem covers_mergedType (acc : Option JType) (elements : List Expr)
    (helements : ∀ e ∈ elements, Node.expr e ∈ u.nodes) :
    Covers u T True (mergedType c acc elements) fun _ =>
      ∀ e ∈ elements, Covered u T (.expr e) := by
  induction elements generalizing acc with
  | nil => exact .pure fun _ => List.forall_mem_nil _
  | cons e rest ih =>
    refine .seq (hc.expr e none (helements e List.mem_cons_self)) fun t => ?_
    refine .skip (goes_mergeInto acc t) fun merged => ?_
    refine .last (ih _ fun f hf => helements f (List.mem_cons_of_mem _ hf)) ?_
    rintro _ ⟨-, hfirst⟩ hrest
    exact List.forall_mem_cons.mpr ⟨hfirst, hrest⟩

omit hids in
theorem covers_checkArrayInit (elements : List Expr) (expected : Option JType)
    (helements : ∀ e ∈ elements, Node.expr e ∈ u.nodes) :
    Covers u T True (checkArrayInit c elements expected) fun _ =>
      ∀ e ∈ elements, Covered u T (.expr e) := by
  unfold checkArrayInit
  split
  · refine .seq (.forM elements fun e he => (hc.expr e _ (helements e he)).discard) fun _ => ?_
    exact .pure And.right
  · exact .seq (covers_mergedType hc none elements helements) fun _ => .pure And.right

theorem covers_checkCreateArray (element : TypeRef) (sizes : List Expr) (extraDims : Nat)
    (init : Option Expr) (helement : Node.type element ∈ u.nodes)
    (hsizes : ∀ e ∈ sizes, Node.expr e ∈ u.nodes) (hinit : ∀ e ∈ init, Node.expr e ∈ u.nodes) :
    Covers u T True (checkCreateArray c element sizes extraDims init) fun _ =>
      (∀ e ∈ sizes, Covered u T (.expr e)) ∧ ∀ e ∈ init, Covered u T (.expr e) := by
  unfold checkCreateArray
  refine .skip (goes_resolveType element (sparing_allows hids helement)) fun element => ?_
  refine .seq (.forM sizes fun e he => (hc.expr e _ (hsizes e he)).discard) fun _ => ?_
  cases init with
  | some e =>
    refine .seq (hc.expr e _ (hinit e rfl)).discard fun _ => .pure ?_
    rintro ⟨⟨-, hcovered⟩, he⟩
    exact ⟨hcovered, forall_mem_some.mpr he⟩
  | none => exact .pure fun h => ⟨h.2, forall_mem_none⟩

/-! ## Expressions -/

omit hids in
theorem covers_checkUnary (e : Expr) (op : UnaryOp) (operand : Expr)
    (hoperand : Node.expr operand ∈ u.nodes) :
    Covers u T True (checkUnary c e op operand) fun _ => Covered u T (.expr operand) := by
  refine .seq (hc.expr operand none hoperand) fun t => ?_
  split
  · exact .failAt _ _
  · exact .ite (.skip (goes_recordWrite operand) fun _ => .pure And.right) (.pure And.right)

/-- A variable that is written is not checked as an expression, but has its type. -/
theorem covers_checkTarget (op : Option BinaryOp) (target : Expr)
    (htarget : Node.expr target ∈ u.nodes) :
    Covers u T True (checkTarget c op target) fun _ => Covered u T (.expr target) := by
  unfold checkTarget
  split
  · rename_i name hshape
    refine .skip (goes_lookupForWrite _ _ _) fun found => ?_
    have hfilled : Filled u T (.expr target) := by
      simp [Filled, Node.children, Expr.children, hshape]
    split
    · refine .bind (.record hids htarget (fun _ => hfilled) _) fun _ => .pure ?_
      exact fun htyped => hfilled.covered_expr htyped.2
    · exact hc.expr target none htarget
  · refine .seq (hc.expr target none htarget) fun _ => ?_
    exact .skip (goes_recordWrite target) fun _ => .pure And.right
  · exact hc.expr target none htarget

theorem covers_checkAssign (e : Expr) (op : Option BinaryOp) (target value : Expr)
    (htarget : Node.expr target ∈ u.nodes) (hvalue : Node.expr value ∈ u.nodes) :
    Covers u T True (checkAssign c e op target value) fun _ =>
      Covered u T (.expr target) ∧ Covered u T (.expr value) := by
  refine .seq (covers_checkTarget hids hc op target htarget) fun t => ?_
  refine .seq (hc.expr value _ hvalue) fun v => ?_
  split
  · refine .skip (goes_operatorType e _ t v).discard fun _ => .pure ?_
    exact fun h => ⟨h.1.2, h.2⟩
  · exact .pure fun h => ⟨h.1.2, h.2⟩

omit hids in
theorem covers_checkIndex (e array position : Expr) (harray : Node.expr array ∈ u.nodes)
    (hposition : Node.expr position ∈ u.nodes) :
    Covers u T True (checkIndex c e array position) fun _ =>
      Covered u T (.expr array) ∧ Covered u T (.expr position) := by
  refine .seq (hc.expr array none harray) fun t => .seq (hc.expr position _ hposition) fun p => ?_
  split
  · exact .pure fun h => ⟨h.1.2, h.2⟩
  · exact .failAt _ _

theorem covers_exprType (e : Expr) (expected : Option JType) (he : Node.expr e ∈ u.nodes) :
    Covers u T True (exprType c e expected) fun _ => Filled u T (.expr e) := by
  have hparts : ∀ n ∈ e.children, n ∈ u.nodes := fun n hn => SourceUnit.child_mem_nodes he hn
  have hleaf : e.children = [] → Filled u T (.expr e) := by
    intro hnone n hn
    rw [show (Node.expr e).children = [] from hnone] at hn
    cases hn
  have hall : (∀ n ∈ e.children, Covered u T n) → Filled u T (.expr e) := id
  obtain ⟨id, shape⟩ := e
  cases shape with
  | literal kind text => exact .pure fun _ => hleaf rfl
  | name name =>
    refine .skip (goes_bareName _ _ _) fun d => ?_
    exact .leaf (goes_valueOf _ _ d) fun _ _ => hleaf rfl
  | field receiver name =>
    refine .seq (covers_nameAfterDot hc rfl he false) fun d => ?_
    exact .leaf (goes_valueOf _ _ d) fun h _ => h.2
  | call receiver typeArgs name args => exact covers_checkCall hids hc args rfl he
  | create outer type args body => exact covers_checkCreate hids hc args rfl he expected
  | createArray element sizes extraDims init =>
    simp only [Expr.children, List.forall_mem_append, List.forall_mem_map,
      List.forall_mem_singleton, Option.mem_toList] at hparts hall
    obtain ⟨⟨helement, hsizes⟩, hinit⟩ := hparts
    refine (covers_checkCreateArray hids hc element sizes extraDims init helement hsizes hinit).imp
      (fun h => h) ?_
    exact fun _ _ h => hall ⟨⟨covered_type element, h.1⟩, h.2⟩
  | arrayInit elements =>
    simp only [Expr.children, List.forall_mem_map] at hparts hall
    refine (covers_checkArrayInit hc elements expected hparts).imp (fun h => h) ?_
    exact fun _ _ h => hall h
  | index array position =>
    simp only [Expr.children, List.mem_cons, List.not_mem_nil, or_false, forall_eq_or_imp,
      forall_eq] at hparts hall
    refine (covers_checkIndex hc _ array position hparts.1 hparts.2).imp (fun h => h) ?_
    exact fun _ _ h => hall h
  | unary op operand =>
    simp only [Expr.children, List.forall_mem_singleton] at hparts hall
    exact (covers_checkUnary hc _ op operand hparts).imp (fun h => h) fun _ _ h => hall h
  | binary op left right =>
    simp only [Expr.children, List.mem_cons, List.not_mem_nil, or_false, forall_eq_or_imp,
      forall_eq] at hparts hall
    refine .seq (hc.expr left none hparts.1) fun l => .seq (hc.expr right none hparts.2) fun r => ?_
    exact .leaf (goes_operatorType _ op l r) fun h _ => hall ⟨h.1.2, h.2⟩
  | assign op target value =>
    simp only [Expr.children, List.mem_cons, List.not_mem_nil, or_false, forall_eq_or_imp,
      forall_eq] at hparts hall
    refine (covers_checkAssign hids hc _ op target value hparts.1 hparts.2).imp (fun h => h) ?_
    exact fun _ _ h => hall h
  | conditional condition whenTrue whenFalse =>
    simp only [Expr.children, List.mem_cons, List.not_mem_nil, or_false, forall_eq_or_imp,
      forall_eq] at hparts hall
    obtain ⟨hcondition, htrue, hfalse⟩ := hparts
    refine .seq (hc.expr condition _ hcondition) fun _ => ?_
    refine .seq (hc.expr whenTrue expected htrue) fun t => ?_
    refine .seq (hc.expr whenFalse expected hfalse) fun f => ?_
    exact .skip goes_classes fun _ => .pure fun h => hall ⟨h.1.1.2, h.1.2, h.2⟩
  | cast type operand =>
    simp only [Expr.children, List.mem_cons, List.not_mem_nil, or_false, forall_eq_or_imp,
      forall_eq] at hparts hall
    refine .skip (goes_resolveType type (sparing_allows hids hparts.1)) fun t => ?_
    refine .seq (hc.expr operand _ hparts.2) fun _ => .pure ?_
    exact fun h => hall ⟨covered_type type, h.2⟩
  | instanceOf operand type =>
    simp only [Expr.children, List.mem_cons, List.not_mem_nil, or_false, forall_eq_or_imp,
      forall_eq] at hparts hall
    refine .seq (hc.expr operand none hparts.1) fun _ => ?_
    refine .skip (goes_resolveType type (sparing_allows hids hparts.2)) fun _ => .pure ?_
    exact fun h => hall ⟨h.2, covered_type type⟩
  | lambda params body =>
    cases expected with
    | some target =>
      refine .seq (covers_checkFunctional hids hc _ target he) fun _ => .pure ?_
      exact fun h => h.2.filled
    | none => exact .failAt _ _
  | methodRef target typeArgs name =>
    cases expected with
    | some target =>
      refine .seq (covers_checkFunctional hids hc _ target he) fun _ => .pure ?_
      exact fun h => h.2.filled
    | none => exact .failAt _ _
  | self qualifier => exact .leaf (goes_checkSelf _ qualifier) fun _ _ => hleaf rfl
  | parent => exact .skip (goes_currentClass _) fun _ => .pure fun _ => hleaf rfl
  | classLiteral type =>
    simp only [Expr.children, List.forall_mem_singleton] at hparts hall
    refine .skip (goes_resolveType type (sparing_allows hids hparts)) fun _ => .pure ?_
    exact fun _ => hall (covered_type type)

theorem covers_checkExpr (e : Expr) (expected : Option JType) (he : Node.expr e ∈ u.nodes) :
    Covers u T True (checkExpr c e expected) fun _ => Covered u T (.expr e) := by
  refine .seq (covers_exprType hids hc e expected he) fun t => ?_
  refine .bind (.record hids he And.right t) fun _ => .pure ?_
  rintro ⟨⟨-, hfilled⟩, htyped⟩
  exact hfilled.covered_expr htyped

theorem covers_checkQualifier (e : Expr) (he : Node.expr e ∈ u.nodes) :
    Covers u T True (checkQualifier c e) fun d => d.Known u T e := by
  have hrecord : isName e = true → ∀ d, Covers u T (True ∧ Filled u T (.expr e)) (recordValue e d)
      fun d => d.Known u T e := by
    intro hname d
    cases d with
    | value t =>
      refine .bind (.record hids he And.right t) fun _ => .pure ?_
      rintro ⟨⟨-, hfilled⟩, htyped⟩
      exact hfilled.covered_expr htyped
    | package dotted => exact .pure fun h => ⟨hname, h.2⟩
  unfold checkQualifier
  split
  · rename_i name hshape
    refine .skip (goes_bareName e name true) fun d => ?_
    refine (hrecord (by simp [isName, hshape]) d).imp ?_ fun _ _ h => h
    refine fun _ => ⟨trivial, ?_⟩
    simp [Filled, Node.children, Expr.children, hshape]
  · rename_i receiver name hshape
    exact .seq (covers_nameAfterDot hc hshape he true) (hrecord (by simp [isName, hshape]))
  · exact .seq (covers_checkExpr hids hc e none he) fun _ => .pure And.right

end

end JavaSema.Analysis
