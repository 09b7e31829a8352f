import JavaSema.Proofs.Analysis.Balance
import JavaSema.Proofs.Analysis.BodyClass
import Mathlib.Algebra.BigOperators.Group.List.Basic

/-!
# What the block of a lambda returns

The shape of a lambda comes from a search for `return` statements in its block, and its type from the
values that are noted while the block is checked.  Both see the same statements: other lambdas and
classes have returns of their own, whose values go to other frames.

There are three groups.

* `valueReturns` is the number of statements that the search meets.  Expressions have none, because
  statements stand in them only below a lambda or a class.
* `Notes` says how many values a step notes where it succeeds.  There is one theorem for each function
  that checks statements.
* The induction over heights, and the result for the frame and the shape of a lambda.
-/

namespace JavaSema.Analysis

open Source

variable {α β : Type}

/-! ## Returns below a node -/

/-- The number of `return` statements with a value that are met by the search for the returns of a
lambda, at the node and below it. -/
def valueReturns (n : Node) : Nat := (n.below sharesReturns).countP returnsValue

/-- The number of those `return` statements at the nodes and below them. -/
def returnsAmong (l : List Node) : Nat := (l.map valueReturns).sum

@[simp] theorem returnsAmong_nil : returnsAmong [] = 0 := rfl

@[simp] theorem returnsAmong_cons (n : Node) (l : List Node) :
    returnsAmong (n :: l) = valueReturns n + returnsAmong l := by
  simp [returnsAmong]

@[simp] theorem returnsAmong_append (l m : List Node) :
    returnsAmong (l ++ m) = returnsAmong l + returnsAmong m := by
  simp [returnsAmong]

theorem returnsAmong_eq_zero {l : List Node} (h : ∀ n ∈ l, valueReturns n = 0) :
    returnsAmong l = 0 := by
  induction l with
  | nil => rfl
  | cons n l ih =>
    rw [returnsAmong_cons, h n List.mem_cons_self, ih fun m hm => h m (List.mem_cons_of_mem _ hm)]

theorem valueReturns_eq (n : Node) :
    valueReturns n = (if returnsValue n then 1 else 0)
      + if sharesReturns n then returnsAmong n.children else 0 := by
  have hbelow : n.below sharesReturns
      = n :: if sharesReturns n then n.children.flatMap (Node.below sharesReturns) else [] := by
    rw [Node.below]
    simp
  rw [valueReturns, hbelow, List.countP_cons, Nat.add_comm]
  congr 1
  split
  · rw [List.countP_flatMap]
    rfl
  · rfl

/-- A node that is no `return` statement has none below it if none of its children has. -/
theorem valueReturns_eq_zero {n : Node} (hself : returnsValue n = false)
    (h : sharesReturns n = true → ∀ c ∈ n.children, valueReturns c = 0) : valueReturns n = 0 := by
  rw [valueReturns_eq, hself, if_neg Bool.false_ne_true, Nat.zero_add]
  split
  · rename_i hshares
    exact returnsAmong_eq_zero (h hshares)
  · rfl

@[simp] theorem valueReturns_type (t : TypeRef) : valueReturns (.type t) = 0 := by
  refine valueReturns_eq_zero rfl fun _ c hc => ?_
  obtain ⟨u, hu, rfl⟩ := List.mem_map.mp hc
  exact valueReturns_type u
termination_by sizeOf t
decreasing_by exact Node.sizeOf_lt_of_mem_typeChildren hu

@[simp] theorem valueReturns_decl (d : Decl) : valueReturns (.decl d) = 0 :=
  valueReturns_eq_zero rfl nofun

/-- Only the body of a lambda is a statement right below an expression. -/
theorem stmt_notMem_children {e : Expr} (h : sharesReturns (.expr e) = true) (s : Stmt) :
    Node.stmt s ∉ e.children := by
  obtain ⟨id, shape⟩ := e
  cases shape with
  | lambda => cases h
  | methodRef target => cases target <;> simp [Expr.children]
  | _ => simp [Expr.children]

@[simp] theorem valueReturns_expr (e : Expr) : valueReturns (.expr e) = 0 := by
  refine valueReturns_eq_zero rfl fun hshares c hc => ?_
  cases c with
  | type t => exact valueReturns_type t
  | expr e' => exact valueReturns_expr e'
  | stmt s => exact absurd hc (stmt_notMem_children hshares s)
  | decl d => exact valueReturns_decl d
termination_by sizeOf e
decreasing_by
  have hsmaller := Node.sizeOf_lt_of_mem_exprChildren hc
  simp only [Node.expr.sizeOf_spec] at hsmaller
  omega

@[simp] theorem returnsAmong_types (ts : List TypeRef) : returnsAmong (ts.map .type) = 0 :=
  returnsAmong_eq_zero (by simp)

@[simp] theorem returnsAmong_exprs (es : List Expr) : returnsAmong (es.map .expr) = 0 :=
  returnsAmong_eq_zero (by simp)

theorem valueReturns_stmt (s : Stmt) :
    valueReturns (.stmt s)
      = (if returnsValue (.stmt s) then 1 else 0) + returnsAmong s.children :=
  valueReturns_eq _

/-! ## Noted values -/

/-- A step that succeeds notes so many values in the innermost frame. -/
def Notes (k : Nat) (m : Check α) : Prop :=
  ∀ setting s a s', exec (m setting) s = (.ok a, s') →
    ∃ values : List JType, values.length = k ∧ s'.frames = noteAll values s.frames

namespace Notes

variable {k k' : Nat} {m : Check α}

theorem pure (a : α) : Notes 0 (Pure.pure a : Check α) := by
  rintro setting s _ _ ⟨⟩
  exact ⟨[], rfl, rfl⟩

theorem failAt (n : Node) (cause : ResolveError) : Notes k (Analysis.failAt n cause : Check α) :=
  nofun

/-- A step whose footprint holds no returns notes nothing. -/
theorem of_has {F : Footprint} (h : Has F m) (hF : F.returns = false) : Notes 0 m := by
  intro setting s a s' hrun
  have hat := (h.run setting s).2 a (congrArg Prod.fst hrun)
  obtain ⟨values, hframes, hnone⟩ := hat.frames
  rw [hrun] at hframes
  exact ⟨values, by rw [hnone hF]; rfl, hframes⟩

theorem bind {f : α → Check β} (hm : Notes k m) (hf : ∀ a, Notes k' (f a)) :
    Notes (k + k') (m >>= f) := by
  intro setting s b s' hrun
  obtain ⟨a, t, hfirst, hrest⟩ := ok_of_run_bind hrun
  obtain ⟨values, hlength, hframes⟩ := hm setting s a t hfirst
  obtain ⟨values', hlength', hframes'⟩ := hf a setting t b s' hrest
  refine ⟨values ++ values', by rw [List.length_append, hlength, hlength'], ?_⟩
  rw [hframes', hframes, noteAll, noteAll, noteAll, List.foldl_append]

/-- A step that notes nothing comes first. -/
theorem skip {f : α → Check β} (hm : Notes 0 m) (hf : ∀ a, Notes k (f a)) : Notes k (m >>= f) := by
  have hboth := hm.bind hf
  rwa [Nat.zero_add] at hboth

/-- A step that notes nothing comes last. -/
theorem done {f : α → Check β} (hm : Notes k m) (hf : ∀ a, Notes 0 (f a)) : Notes k (m >>= f) :=
  hm.bind hf

theorem discard (hm : Notes k m) : Notes k (Functor.discard m) := by
  show Notes k (_ <$> m)
  rw [map_eq_pure_bind]
  exact hm.done fun _ => pure _

theorem forM_stmts (ss : List Stmt) {f : Stmt → Check PUnit}
    (hf : ∀ s, Notes (valueReturns (.stmt s)) (f s)) :
    Notes (returnsAmong (ss.map .stmt)) (ss.forM f) := by
  induction ss with
  | nil => exact pure _
  | cons s ss ih =>
    rw [List.map_cons, returnsAmong_cons]
    exact (hf s).bind fun _ => ih

/-- An operation on the symbol table leaves the frames. -/
theorem inTable (n : Node) (op : TableM α) : Notes 0 (inTable n op) := by
  intro setting s a s' hrun
  have hstate := exec_inTable n op setting s
  rw [hrun] at hstate
  exact ⟨[], rfl, by rw [show s' = _ from hstate]; rfl⟩

/-- What is noted inside a block is noted outside of it. -/
theorem inBlock {step : Check α} (n : Node) (hstep : Notes k step) : Notes k (inBlock n step) := by
  refine skip (of_has (F := .ofExpr) (goes_observerOf n) rfl) fun observer => ?_
  refine (inTable n _).skip fun _ => ?_
  intro setting s a s' hrun
  obtain ⟨hstate, hvalue⟩ :=
    exec_closing (Functor.discard (Analysis.inTable n SymbolTable.popScope)) step setting s
  rw [hrun] at hstate hvalue
  obtain ⟨values, hlength, hframes⟩ :=
    hstep setting s a (exec (step setting) s).2 (Prod.ext (hvalue a rfl) rfl)
  have hclosed : Keeps (fun s s' : State => s'.frames = s.frames)
      (Functor.discard (Analysis.inTable n SymbolTable.popScope) setting) := by
    refine Keeps.discard fun s => ?_
    rw [exec_inTable]
  refine ⟨values, hlength, ?_⟩
  rw [← hframes]
  show s'.frames = _
  rw [show s' = _ from hstate]
  exact hclosed _

end Notes

/-! ## Statements -/

section

variable {c : Checker} (hc : c.Balanced) (hs : ∀ s, Notes (valueReturns (.stmt s)) (c.stmt s))

/-- What a step may leave behind that notes nothing. -/
def Footprint.noReturns : Footprint := Footprint.ofExpr.inner

theorem Footprint.noReturns_marksAll : Footprint.noReturns.MarksAll := fun _ => trivial

omit hs in
include hc in
theorem notes_expr (e : Expr) (expected : Option JType) : Notes 0 (c.expr e expected) :=
  .of_has (hc.expr e expected) rfl

include hs in
theorem notes_checkSequence (last : JType) (body : List Stmt) :
    Notes (returnsAmong (body.map .stmt)) (checkSequence c last body) := by
  induction body generalizing last with
  | nil => exact .pure _
  | cons s rest ih =>
    rw [List.map_cons, returnsAmong_cons]
    exact (hs s).bind fun t => ih t

include hc hs

theorem notes_checkForEach (s : Stmt) (type : TypeRef) (name : String) (iterable : Expr)
    (body : Stmt) : Notes (valueReturns (.stmt body)) (checkForEach c s type name iterable body) := by
  have hF := Footprint.noReturns_marksAll
  refine (notes_expr hc iterable none).skip fun source => ?_
  refine Notes.skip (.of_has (F := .noReturns) (goes_elementType s source) rfl) fun element => ?_
  have hrest : ∀ t, Notes (valueReturns (.stmt body)) (do bindVariable s name t; c.stmt body) :=
    fun t => Notes.skip (.of_has (F := .noReturns) (has_bindVariable rfl s name t) rfl) fun _ =>
      hs body
  split
  · refine Notes.skip (.of_has (F := .noReturns) (.record (hF _) _) rfl) fun _ => ?_
    exact (Notes.pure _).skip hrest
  · exact Notes.skip (.of_has (F := .noReturns) (goes_resolveType type (hF.allows _)) rfl) hrest

theorem notes_checkFor (init : List Stmt) (condition : Option Expr) (update : List Expr)
    (body : Stmt) :
    Notes (returnsAmong (init.map .stmt) + valueReturns (.stmt body))
      (checkFor c init condition update body) := by
  have hF := Footprint.noReturns_marksAll
  have hupdate : Notes (valueReturns (.stmt body))
      (do update.forM fun e => discard (c.expr e none); c.stmt body) := by
    refine Notes.skip (.of_has (F := .noReturns) ?_ rfl) fun _ => hs body
    exact .forM _ fun e _ => (hc.goes_expr hF e none).discard
  refine (Notes.forM_stmts init fun s => (hs s).discard).bind fun _ => ?_
  split
  · exact (notes_expr hc _ _).discard.skip fun _ => hupdate
  · exact hupdate

theorem notes_checkCases (selector : JType) (acc : Option JType) (cases : List SwitchCase) :
    Notes (returnsAmong (cases.flatMap SwitchCase.children)) (checkCases c selector acc cases) := by
  have hF := Footprint.noReturns_marksAll
  induction cases generalizing acc with
  | nil => exact .pure _
  | cons branch rest ih =>
    rw [List.flatMap_cons, SwitchCase.children, returnsAmong_append, returnsAmong_append,
      returnsAmong_exprs, Nat.zero_add]
    have hlabels : Notes 0 (branch.labels.forM (checkLabel c selector)) :=
      .of_has (F := .noReturns) (.forM _ fun e _ => goes_checkLabel hc hF selector e) rfl
    refine hlabels.skip fun _ => (notes_checkSequence hs _ branch.body).bind fun t => ?_
    exact Notes.skip (.of_has (F := .noReturns) (goes_mergeInto acc t) rfl) fun merged => ih _

omit hs in
/-- A `return` with a value notes it. -/
theorem notes_checkReturn (value : Option Expr) :
    Notes (if value.isSome then 1 else 0) (checkReturn c value) := by
  cases value with
  | none => exact .pure _
  | some e =>
    refine Notes.skip (.of_has (F := .noReturns) .get rfl) fun s => ?_
    refine (notes_expr hc e _).skip fun t => ?_
    rintro setting s _ _ ⟨⟩
    exact ⟨[t], rfl, rfl⟩

omit hc in
theorem notes_checkCatch (clause : CatchClause) :
    Notes (valueReturns (.stmt clause.body)) (checkCatch c clause) := by
  have hF := Footprint.noReturns_marksAll
  have hcaught : Notes 0 (caughtType none clause.types) :=
    .of_has (F := .noReturns) (goes_caughtType _ _ fun t _ => hF.allows _) rfl
  refine hcaught.skip fun caught => .inBlock _ ?_
  exact (Notes.inTable _ _).skip fun _ => hs clause.body

omit hc in
theorem notes_checkCatches (acc : JType) (catches : List CatchClause) :
    Notes (returnsAmong (catches.flatMap CatchClause.children)) (checkCatches c acc catches) := by
  induction catches generalizing acc with
  | nil => exact .pure _
  | cons clause rest ih =>
    rw [List.flatMap_cons, CatchClause.children, returnsAmong_append, returnsAmong_append,
      returnsAmong_types, Nat.zero_add, returnsAmong_cons, returnsAmong_nil, Nat.add_zero]
    refine (notes_checkCatch hs clause).bind fun t => ?_
    exact Notes.skip (.of_has (F := .noReturns) goes_classes rfl) fun env => ih _

omit hc in
theorem notes_checkTry (s : Stmt) (resources : List Stmt) (body : Stmt)
    (catches : List CatchClause) (final : Option Stmt) :
    Notes (returnsAmong (resources.map .stmt) + valueReturns (.stmt body)
        + returnsAmong (catches.flatMap CatchClause.children)
        + returnsAmong (final.toList.map .stmt))
      (checkTry c s resources body catches final) := by
  rw [Nat.add_assoc (_ + _)]
  refine Notes.bind (.inBlock _ ?_) fun t => ?_
  · exact (Notes.forM_stmts resources fun s => (hs s).discard).bind fun _ => hs body
  · refine (notes_checkCatches hs t catches).bind fun t => ?_
    cases final with
    | none => exact .pure _
    | some f =>
      rw [Option.toList_some, List.map_cons, returnsAmong_cons]
      exact (hs f).discard.bind fun _ => .pure _

theorem notes_stmtType (s : Stmt) : Notes (valueReturns (.stmt s)) (stmtType c s) := by
  have hF := Footprint.noReturns_marksAll
  obtain ⟨id, shape⟩ := s
  rw [valueReturns_stmt]
  unfold stmtType
  cases shape
  all_goals simp only [returnsValue, Stmt.children, List.cons_append, List.nil_append,
    returnsAmong_nil, returnsAmong_cons, returnsAmong_append, returnsAmong_exprs, valueReturns_type,
    valueReturns_expr, valueReturns_decl, Bool.false_eq_true, if_false, Nat.zero_add, Nat.add_zero]
  case block body => exact (notes_checkSequence hs _ body).inBlock _
  case vars type vs =>
    refine .of_has (F := .noReturns) ?_ rfl
    split
    · exact Goes.bind (.pure _) fun _ => has_checkVariables hc hF rfl _ _ _ _ _
    · refine Goes.bind (Goes.map _ (goes_resolveType _ (hF.allows _))) fun _ => ?_
      exact has_checkVariables hc hF rfl _ _ _ _ _
  case decl d =>
    refine .of_has (F := .noReturns) ?_ rfl
    exact (has_checkLocalClass hc hF rfl _ d).bind fun _ => .pure _
  case expr e => exact notes_expr hc e none
  case ifElse condition thenBranch elseBranch =>
    refine (notes_expr hc condition _).skip fun _ => (hs thenBranch).bind fun t => ?_
    cases elseBranch with
    | none => exact .pure _
    | some b =>
      refine (hs b).done fun f => ?_
      exact Notes.skip (.of_has (F := .noReturns) goes_classes rfl) fun _ => .pure _
  case whileLoop condition body => exact (notes_expr hc condition _).skip fun _ => hs body
  case doWhile body condition =>
    exact (hs body).done fun t => (notes_expr hc condition _).done fun _ => .pure _
  case forLoop init condition update body =>
    exact (notes_checkFor hc hs init condition update body).inBlock _
  case forEach type name iterable body =>
    exact (notes_checkForEach hc hs _ type name iterable body).inBlock _
  case switch selector cases =>
    refine (notes_expr hc selector none).skip fun t => ?_
    exact Notes.done (.inBlock _ (notes_checkCases hc hs t none cases)) fun _ => .pure _
  case ret value =>
    cases value with
    | none => exact notes_checkReturn hc none
    | some e => exact notes_checkReturn hc (some e)
  case throw e => exact (notes_expr hc e none).done fun _ => .pure _
  case tryCatch resources body catches final =>
    exact notes_checkTry hs _ resources body catches final
  case labeled label body => exact hs body
  all_goals exact .pure _

theorem notes_checkStmt (s : Stmt) : Notes (valueReturns (.stmt s)) (checkStmt c s) := by
  refine (notes_stmtType hc hs s).done fun t => ?_
  exact Notes.skip (.of_has (F := .noReturns) (.record trivial t) rfl) fun _ => .pure _

end

/-! ## All heights -/

/-- A statement that is checked notes one value for each `return` that the search meets. -/
theorem notes_upTo (height : Nat) (s : Stmt) :
    Notes (valueReturns (.stmt s)) ((Checker.upTo height).stmt s) := by
  induction height generalizing s with
  | zero => exact .failAt _ _
  | succ height ih => exact notes_checkStmt (Checker.balanced_upTo height) ih s

/-- What a frame holds after the step that ran inside it. -/
theorem last_of_withFrame {frame : Frame} {step : Check α} {setting : Setting} {s s' : State}
    {a : α} {last : Option Frame}
    (h : exec (withFrame frame step setting) s = (.ok (a, last), s')) :
    ∃ t, exec (step setting) (s.enter frame) = (.ok a, t) ∧ last = t.frames.head? := by
  have hpush : exec ((modify fun s => { s with frames := frame :: s.frames } : Check PUnit) setting) s
      = (.ok ⟨⟩, s.enter frame) := rfl
  rw [withFrame, run_bind_ok hpush, run_bind_ok (exec_attempt _ _ _)] at h
  rcases hrun : exec (step setting) (s.enter frame) with ⟨e | b, t⟩
  · rw [hrun] at h
    cases h
  · rw [hrun] at h
    cases h
    exact ⟨t, rfl, rfl⟩

/-- The frame of a lambda holds one type for each `return` in its block. -/
theorem frame_of_block {height : Nat} {block : Stmt} {expected t : JType} {last : Option Frame}
    {setting : Setting} {s s' : State}
    (h : exec (withFrame (.lambda expected []) ((Checker.upTo height).stmt block) setting) s
      = (.ok (t, last), s')) :
    ∃ returns, last = some (.lambda expected returns) ∧
      returns.length = valueReturns (.stmt block) := by
  obtain ⟨u, hrun, hlast⟩ := last_of_withFrame h
  obtain ⟨values, hlength, hframes⟩ := notes_upTo height block setting _ _ _ hrun
  refine ⟨values, ?_, hlength⟩
  rw [hlast, hframes]
  show (noteAll values (.lambda expected [] :: s.frames)).head? = _
  rw [noteAll_lambda]
  rfl

theorem isSome_mergeAll? (env : ClassEnv) (ts : List JType) :
    (CallSite.mergeAll? env ts).isSome = decide (0 < ts.length) := by
  cases ts <;> rfl

theorem returns_bodyType (height : Nat) (expected : JType) (block : Stmt) :
    Returns (fun produced : Option JType => produced.isSome = decide (0 < valueReturns (.stmt block)))
      (bodyType (Checker.upTo height) expected (.block block)) := by
  refine Returns.bind (q := fun r : JType × Option Frame => ∃ returns,
    r.2 = some (.lambda expected returns) ∧ returns.length = valueReturns (.stmt block)) ?_ ?_
  · intro setting s s' r hrun
    exact frame_of_block hrun
  · rintro ⟨t, _⟩ ⟨returns, rfl, hlength⟩
    refine .last fun env => .pure ?_
    rw [isSome_mergeAll?, hlength]

/-- What a step in a block gives is what the block gives. -/
theorem Returns.inBlock {p : α → Prop} {step : Check α} (n : Node) (h : Returns p step) :
    Returns p (Analysis.inBlock n step) := by
  refine .last fun observer => .last fun _ => ?_
  intro setting s s' a hrun
  obtain ⟨-, hvalue⟩ :=
    exec_closing (Functor.discard (Analysis.inTable n SymbolTable.popScope)) step setting s
  rw [hrun] at hvalue
  exact h (Prod.ext (hvalue a rfl) rfl)

theorem Returns.failAt {p : α → Prop} (n : Node) (cause : ResolveError) :
    Returns p (Analysis.failAt n cause) :=
  nofun

theorem returns_checkLambda (height : Nat) (e : Expr) (f : FunctionType)
    (params : List LambdaParam) (block : Stmt) :
    Returns (fun outcome => outcome.produced.isSome = decide (0 < valueReturns (.stmt block)))
      (checkLambda (Checker.upTo height) e f params (.block block)) := by
  unfold checkLambda
  refine .last fun s => .ite (.failAt _ _) ?_
  refine Returns.bind (.inBlock _ (.last fun _ => returns_bodyType height _ block)) ?_
  intro produced hproduced
  exact .last fun env => .ite (.failAt _ _) (.pure hproduced)

theorem returns_lambdaShape (params : List LambdaParam) (block : Stmt) :
    Returns (fun shape => shape.givesValue = decide (0 < valueReturns (.stmt block)))
      (lambdaShape params (.block block)) := by
  refine .last fun written => .pure ?_
  show List.any _ _ = _
  rw [valueReturns, Bool.eq_iff_iff, List.any_eq_true, decide_eq_true_iff, List.countP_pos_iff]

/-- The values that a lambda returns are those of the `return` statements of its block.  Wherever the
block is checked without a failure, the frame of the lambda holds one type for each `return` with a
value that stands in the block outside of other lambdas and of classes; and where a lambda is checked
without a failure, it produces a value if and only if its shape says that its block gives one. -/
theorem lambda_returns (setting : Setting) (height : Nat) (s : State) (block : Stmt) :
    (∀ (expected t : JType) (last : Option Frame) (s' : State),
      exec (withFrame (.lambda expected []) ((Checker.upTo height).stmt block) setting) s
          = (.ok (t, last), s') →
        ∃ returns, last = some (.lambda expected returns) ∧
          returns.length = ((Node.stmt block).below sharesReturns).countP returnsValue) ∧
    (∀ (e : Expr) (f : FunctionType) (params : List LambdaParam) (outcome : Outcome) (s' : State),
      exec (checkLambda (Checker.upTo height) e f params (.block block) setting) s
          = (.ok outcome, s') →
        ∀ (setting' : Setting) (before after : State) (shape : LambdaShape),
          exec (lambdaShape params (.block block) setting') before = (.ok shape, after) →
            outcome.produced.isSome = shape.givesValue) := by
  constructor
  · intro expected t last s' hrun
    exact frame_of_block hrun
  · intro e f params outcome s' hrun setting' before after shape hshape
    rw [returns_checkLambda height e f params block hrun, returns_lambdaShape params block hshape]

/-- A block that returns `null` whatever the condition is. -/
def nullEitherWay : Stmt :=
  ⟨4, .block [⟨3, .ifElse ⟨2, .literal .boolean "true"⟩ returnNull (some returnNull)⟩]⟩

/-- A function without parameters whose result is an object. -/
def objectSupplier : FunctionType where
  interfaceType := .object
  method :=
    { member := .method "p.Supplier" 0
      definition := { name := "get", params := [], returnType := .object, isAbstract := true } }

theorem valueReturns_nullEitherWay : valueReturns (.stmt nullEitherWay) = 2 := by
  simp [valueReturns_stmt, nullEitherWay, returnNull, Stmt.children, returnsValue]

theorem mergeAll?_nulls (env : ClassEnv) :
    CallSite.mergeAll? env [.null, .null] = some .null := by
  show some (JType.null.merge env .null) = _
  rw [JType.merge]
  rfl

theorem returnFits_null (env : ClassEnv) : returnFits env .object (some .null) = true := by
  show (false || JType.object.accepts env .null) = true
  rw [JType.accepts]
  rfl

theorem exec_checkLambda_nullEitherWay :
    ∃ s', exec (checkLambda (Checker.upTo 4) ⟨5, .lambda [] (.block nullEitherWay)⟩ objectSupplier []
      (.block nullEitherWay) noClasses) insideLambda
        = (.ok { interfaceType := .object, produced := some .null, declaredReturn := .object }, s') := by
  obtain ⟨env, t, hbody⟩ : ∃ env t, exec (inBlock (.expr ⟨5, .lambda [] (.block nullEitherWay)⟩) (do
      bindParams ⟨5, .lambda [] (.block nullEitherWay)⟩ objectSupplier [] []
      bodyType (Checker.upTo 4) .object (.block nullEitherWay)) noClasses) insideLambda
        = (.ok (CallSite.mergeAll? env [.null, .null]), t) := ⟨_, _, rfl⟩
  rw [mergeAll?_nulls] at hbody
  obtain ⟨env', hclasses⟩ : ∃ env', exec (classes noClasses) t = (.ok env', t) := ⟨_, rfl⟩
  refine ⟨t, ?_⟩
  unfold checkLambda
  have hget : exec ((get : Check State) noClasses) insideLambda = (.ok insideLambda, insideLambda) :=
    rfl
  rw [run_bind_ok hget]
  refine (run_bind_ok hbody).trans ((run_bind_ok hclasses).trans ?_)
  have hfits : ¬ (!returnFits env' (eraseOpen insideLambda.table objectSupplier.returnType)
      (some .null)) = true := by
    show ¬ (!returnFits env' .object (some .null)) = true
    rw [returnFits_null]
    exact Bool.false_ne_true
  dsimp only
  rw [if_neg hfits]
  rfl

/-- Both values are noted, and the lambda produces one, as its shape says. -/
theorem lambda_returns_nullEitherWay :
    (∃ t returns s',
      exec (withFrame (.lambda .object []) ((Checker.upTo 4).stmt nullEitherWay) noClasses)
          insideLambda = (.ok (t, some (.lambda .object returns)), s') ∧ returns.length = 2) ∧
    ∃ outcome s' shape s'',
      exec (checkLambda (Checker.upTo 4) ⟨5, .lambda [] (.block nullEitherWay)⟩ objectSupplier []
          (.block nullEitherWay) noClasses) insideLambda = (.ok outcome, s') ∧
        exec (lambdaShape [] (.block nullEitherWay) noClasses) insideLambda = (.ok shape, s'') ∧
        outcome.produced.isSome ∧ shape.givesValue := by
  obtain ⟨hframe, hproduced⟩ := lambda_returns noClasses 4 insideLambda nullEitherWay
  constructor
  · obtain ⟨returns, hlast, hlength⟩ := hframe .object _ _ _ rfl
    obtain rfl := Frame.lambda.inj (Option.some.inj hlast) |>.2
    exact ⟨_, _, _, rfl, hlength.trans valueReturns_nullEitherWay⟩
  · obtain ⟨s', hrun⟩ := exec_checkLambda_nullEitherWay
    have hshape := hproduced _ objectSupplier [] _ _ hrun noClasses insideLambda _ _ rfl
    exact ⟨_, s', _, _, hrun, rfl, rfl, hshape.symm⟩

end JavaSema.Analysis
