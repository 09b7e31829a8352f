import JavaSema.Proofs.Analysis.TourExpr

/-!
# The tours of statements

Checking a statement visits each node below it once and in order.

There are three groups.

* Variables, loops and choices.
* Exceptions.
* The stops below each kind of statement.
-/

namespace JavaSema.Analysis

open Source

variable {c : Checker} {M : NodeId → Prop}

theorem inits_map (vs : List Declarator) :
    (vs.flatMap fun v => v.init.toList.map fun e => Stop.node (.expr e))
      = (Declarator.inits vs).map fun e => .node (.expr e) := by
  induction vs with
  | nil => rfl
  | cons v vs ih =>
    rw [List.flatMap_cons, ih]
    rcases hinit : v.init with _ | e
    · simp [Declarator.inits, hinit]
    · simp [Declarator.inits, hinit]

section

variable (hc : c.Touring)

include hc

/-! ## Variables, loops and choices -/

theorem visits_checkSequence (last : JType) (body : List Stmt) :
    Visits M (body.map fun s => .node (.stmt s)) (checkSequence c last body) := by
  induction body generalizing last with
  | nil => exact .pure _
  | cons s rest ih => exact .cons (hc.stmt M s) fun t => ih t

theorem visits_variableType (s : Stmt) (type : TypeRef) (declared : Option JType) (v : Declarator)
    (htype : (resolving M).Allows (.type type)) :
    Visits M (v.init.toList.map fun e => .node (.expr e)) (variableType c s type declared v) := by
  unfold variableType
  rcases v.init with _ | e
  · cases declared with
    | some base => exact .pure _
    | none => exact .failAt _ _
  · cases declared with
    | some base => exact (hc.expr M e _).discard.done (fun _ => .pure _) fun _ => .pure _
    | none =>
      refine (hc.expr M e none).done (fun t => ?_) fun t => ?_
      · exact .ite (.failAt _ _) (Goes.bind (.record htype.type _) fun _ => .pure _)
      · exact .ite (.failAt _ _) ((Still.record _ _).bind fun _ => .pure _)

theorem visits_checkVariables (s : Stmt) (type : TypeRef) (declared : Option JType) (last : JType)
    (vs : List Declarator) (htype : (resolving M).Allows (.type type)) :
    Visits M ((Declarator.inits vs).map fun e => .node (.expr e))
      (checkVariables c s type declared last vs) := by
  rw [← inits_map]
  induction vs generalizing last with
  | nil => exact .pure _
  | cons v rest ih =>
    refine .append (visits_variableType hc s type declared v htype) fun t => ?_
    exact .skip (has_bindVariable rfl s v.name t) (still_bindVariable s v.name t) fun _ => ih t

theorem visits_checkForEach (s : Stmt) (type : TypeRef) (name : String) (iterable : Expr)
    (body : Stmt) (htype : (resolving M).Allows (.type type)) :
    Visits M [.node (.expr iterable), .node (.stmt body)]
      (checkForEach c s type name iterable body) := by
  refine .cons (hc.expr M iterable none) fun source => ?_
  refine .skip (goes_elementType s source) (still_elementType s source) fun element => ?_
  have hbound : ∀ t, Visits M [.node (.stmt body)] (do
      bindVariable s name t
      c.stmt body) := by
    intro t
    refine .skip (has_bindVariable rfl s name t) (still_bindVariable s name t) fun _ => ?_
    exact hc.stmt M body
  extract_lets -underBinder next
  have hnext : ∀ r, Visits M [.node (.stmt body)] (next r) := by
    intro r
    refine .ite (.skip (.pure _) (.pure _) hbound) ?_
    exact .skip (goes_resolveType type htype) (still_resolveType type) hbound
  exact .ite (.skip (.record htype.type _) (.record _ _) hnext) (hnext ())

theorem visits_checkFor (init : List Stmt) (condition : Option Expr) (update : List Expr)
    (body : Stmt) :
    Visits M ((init.map fun s => .node (.stmt s)) ++ ((condition.toList.map fun e => .node (.expr e))
      ++ ((update.map fun e => .node (.expr e)) ++ [.node (.stmt body)])))
      (checkFor c init condition update body) := by
  refine .append (.each init fun s _ => (hc.stmt M s).discard) fun _ => ?_
  have hrest : Visits M ((update.map fun e => .node (.expr e)) ++ [.node (.stmt body)]) (do
      update.forM fun e => discard (c.expr e none)
      c.stmt body) :=
    .append (.each update fun e _ => (hc.expr M e none).discard) fun _ => hc.stmt M body
  cases condition with
  | some e => exact .append (hc.expr M e truth).discard fun _ => hrest
  | none => exact hrest

/-- A constant that is named without its class is not checked as an expression, but is given its
type. -/
theorem visits_checkLabel (selector : JType) (e : Expr) :
    Visits M [.node (.expr e)] (checkLabel c selector e) := by
  obtain ⟨id, shape⟩ := e
  cases shape with
  | name name =>
    refine .skip goes_classes still_classes fun env => ?_
    split
    · exact .childless rfl rfl rfl (.leaf (.record (atNode_self _) _) (.record _ _))
    · exact (hc.expr M _ _).discard
  | _ => exact (hc.expr M _ _).discard

theorem visits_checkCases (selector : JType) (acc : Option JType) (cases : List SwitchCase) :
    Visits M (cases.flatMap fun k => k.children.filterMap (Node.stop? fun d => .bodyClass d d.name))
      (checkCases c selector acc cases) := by
  induction cases generalizing acc with
  | nil => exact .pure _
  | cons k rest ih =>
    rw [List.flatMap_cons, SwitchCase.children, List.filterMap_append, Node.filterMap_stop?_expr,
      Node.filterMap_stop?_stmt, List.append_assoc]
    refine .append (.each k.labels fun e _ => visits_checkLabel hc selector e) fun _ => ?_
    refine .append (visits_checkSequence hc .void k.body) fun t => ?_
    exact .skip (goes_mergeInto acc t) (still_mergeInto acc t) fun merged => ih _

theorem visits_checkReturn (value : Option Expr) :
    Visits M (value.toList.map fun e => .node (.expr e)) (checkReturn c value) := by
  cases value with
  | none => exact .pure _
  | some e =>
    refine .skip .get .get fun s => (hc.expr M e _).done (fun t => ?_) fun t => ?_
    · exact Goes.bind (.noteReturn rfl t) fun _ => .pure _
    · exact Still.bind (.modify fun _ => ⟨rfl, rfl⟩) fun _ => .pure _

/-! ## Exceptions -/

theorem visits_checkCatch (k : CatchClause)
    (htypes : ∀ t ∈ k.types, (resolving M).Allows (.type t)) :
    Visits M [.node (.stmt k.body)] (checkCatch c k) := by
  refine .skip (goes_caughtType _ _ htypes) (still_caughtType _ _) fun caught => ?_
  refine Travels.inBlock (.skip (has_bindSymbol rfl _ _) (.inTable _ _) fun _ => ?_) _
  exact hc.stmt M k.body

theorem visits_checkCatches (acc : JType) (catches : List CatchClause)
    (htypes : ∀ k ∈ catches, ∀ t ∈ k.types, (resolving M).Allows (.type t)) :
    Visits M (catches.map fun k => .node (.stmt k.body)) (checkCatches c acc catches) := by
  induction catches generalizing acc with
  | nil => exact .pure _
  | cons k rest ih =>
    obtain ⟨hfirst, hrest⟩ := List.forall_mem_cons.mp htypes
    refine .cons (visits_checkCatch hc k hfirst) fun t => ?_
    exact .skip goes_classes still_classes fun env => ih _ hrest

theorem visits_checkTry (s : Stmt) (resources : List Stmt) (body : Stmt)
    (catches : List CatchClause) (final : Option Stmt)
    (htypes : ∀ k ∈ catches, ∀ t ∈ k.types, (resolving M).Allows (.type t)) :
    Visits M (((resources.map fun r => .node (.stmt r)) ++ [.node (.stmt body)])
      ++ ((catches.map fun k => .node (.stmt k.body)) ++ final.toList.map fun f => .node (.stmt f)))
      (checkTry c s resources body catches final) := by
  refine .append (Travels.inBlock ?_ _) fun t => ?_
  · exact .append (.each resources fun r _ => (hc.stmt M r).discard) fun _ => hc.stmt M body
  refine .append (visits_checkCatches hc t catches htypes) fun t => ?_
  cases final with
  | some f => exact (hc.stmt M f).discard.done (fun _ => .pure _) fun _ => .pure _
  | none => exact .pure _

end

/-! ## All statements -/

theorem stops_catches (catches : List CatchClause) :
    (catches.flatMap CatchClause.children).filterMap (Node.stop? fun d => .bodyClass d d.name)
      = catches.map fun k => .node (.stmt k.body) := by
  induction catches with
  | nil => rfl
  | cons k rest ih =>
    rw [List.flatMap_cons, List.filterMap_append, ih, CatchClause.children, List.filterMap_append,
      Node.filterMap_stop?_type]
    rfl

section

variable (hc : c.Touring)

include hc

theorem visits_stmtType (s : Stmt) : Visits M [.node (.stmt s)] (stmtType c s) := by
  have htypes : ∀ t, Node.type t ∈ s.children → (resolving (atNode M (.stmt s))).Allows (.type t) :=
    fun t ht => atNode_allows (Node.mem_types.mpr ht)
  obtain ⟨id, shape⟩ := s
  cases shape with
  | block body =>
    refine .stops rfl rfl ?_ (.inBlock (visits_checkSequence hc .void body) _)
    exact Node.filterMap_stop?_stmt _ body
  | vars type vs =>
    have htype := htypes type (by simp [Stmt.children])
    have hvars := fun declared => visits_checkVariables hc ⟨id, .vars type vs⟩ type declared .void vs
      htype
    refine .stops rfl rfl (Node.filterMap_stop?_expr _ (Declarator.inits vs)) ?_
    unfold stmtType
    dsimp only
    split
    · exact .skip (.pure _) (.pure _) hvars
    · exact .skip (.map _ (goes_resolveType type htype)) ((still_resolveType type).map _) hvars
  | decl d =>
    refine .stops rfl rfl rfl ((visits_checkLocalClass (hc.decl _ d) _).done ?_ ?_)
    · exact fun _ => .pure _
    · exact fun _ => .pure _
  | expr e => exact .stops rfl rfl rfl (hc.expr _ e none)
  | ifElse condition thenBranch elseBranch =>
    have hstops : (Node.stmt ⟨id, .ifElse condition thenBranch elseBranch⟩).stops
        = .node (.expr condition) :: .node (.stmt thenBranch)
          :: elseBranch.toList.map fun b => .node (.stmt b) :=
      congrArg _ (congrArg _ (Node.filterMap_stop?_stmt _ elseBranch.toList))
    refine .stops rfl rfl hstops (.cons (hc.expr _ condition truth) fun _ => ?_)
    refine .cons (hc.stmt _ thenBranch) fun t => ?_
    cases elseBranch with
    | none => exact .pure _
    | some b =>
      refine (hc.stmt _ b).done (fun f => ?_) fun f => ?_
      · exact goes_classes.bind fun _ => .pure _
      · exact still_classes.bind fun _ => .pure _
  | whileLoop condition body =>
    exact .stops rfl rfl rfl (.cons (hc.expr _ condition truth) fun _ => hc.stmt _ body)
  | doWhile body condition =>
    refine .stops rfl rfl rfl (.cons (hc.stmt _ body) fun t => ?_)
    exact (hc.expr _ condition truth).done (fun _ => .pure _) fun _ => .pure _
  | forLoop init condition update body =>
    refine .stops rfl rfl ?_ (.inBlock (visits_checkFor hc init condition update body) _)
    show (init.map Node.stmt ++ condition.toList.map Node.expr ++ update.map Node.expr
      ++ [Node.stmt body]).filterMap (Node.stop? _) = _
    simp only [List.filterMap_append, Node.filterMap_stop?_expr, Node.filterMap_stop?_stmt,
      List.append_assoc]
    rfl
  | forEach type name iterable body =>
    have htype := htypes type (by simp [Stmt.children])
    exact .stops rfl rfl rfl (.inBlock (visits_checkForEach hc _ type name iterable body htype) _)
  | switch selector cases =>
    have hcases : ∀ t, Visits (atNode M (.stmt ⟨id, .switch selector cases⟩)) _ (do
        return (← inBlock (.stmt ⟨id, .switch selector cases⟩)
          (checkCases c t none cases)).getD .void) :=
      fun t => ((visits_checkCases hc t none cases).inBlock _).done (fun _ => .pure _) fun _ => .pure _
    refine .stops rfl rfl ?_ (.cons (hc.expr _ selector none) hcases)
    exact congrArg _ List.filterMap_flatMap
  | ret value =>
    refine .stops rfl rfl ?_ (visits_checkReturn hc value)
    exact Node.filterMap_stop?_expr _ value.toList
  | breakTo | continueTo | empty => exact .childless rfl rfl rfl (.pure _)
  | throw e =>
    refine .stops rfl rfl rfl ((hc.expr _ e none).done ?_ ?_)
    · exact fun _ => .pure _
    · exact fun _ => .pure _
  | tryCatch resources body catches final =>
    refine .stops rfl rfl ?_ (visits_checkTry hc _ resources body catches final ?_)
    · show (resources.map Node.stmt ++ [Node.stmt body] ++ catches.flatMap CatchClause.children
        ++ final.toList.map Node.stmt).filterMap (Node.stop? _) = _
      simp only [List.filterMap_append, Node.filterMap_stop?_stmt, stops_catches, List.append_assoc]
      rfl
    · intro k hk t ht
      refine htypes t ?_
      have hchild : Node.type t ∈ k.children := by simp [CatchClause.children, ht]
      simp only [Stmt.children, List.mem_append]
      exact .inl (.inr (List.mem_flatMap.mpr ⟨k, hk, hchild⟩))
  | labeled label body => exact .stops rfl rfl rfl (hc.stmt _ body)

theorem visits_checkStmt (s : Stmt) : Visits M [.node (.stmt s)] (checkStmt c s) :=
  (visits_stmtType hc s).recorded id

end

end JavaSema.Analysis
