import JavaSema.Proofs.Analysis.BodyClass
import JavaSema.Proofs.Analysis.TourFunctional

/-!
# The tours of expressions

Checking an expression visits each node below it once and in order, and counts its calls.

There are three groups.

* Calls of methods.
* Creations of objects.
* One theorem for each other function that types expressions, which takes a touring checker for the
  parts.
-/

namespace JavaSema.Analysis

open Source

variable {α β : Type}

/-! ## Calls -/

theorem inside_call (id : NodeId) (receiver : Option Expr) (typeArgs : List TypeRef) (name : String)
    (args : List Expr) :
    Leg.inside (.expr ⟨id, .call receiver typeArgs name args⟩) 0
      = .through (receiver.toList.map fun r => .node (.expr r)) ++ .ofArgs args := by
  ext1
  · show (receiver.toList.map Node.expr ++ typeArgs.map Node.type ++ args.map Node.expr).filterMap _
      = receiver.toList.map _ ++ args.map _
    simp only [List.filterMap_append, Node.filterMap_stop?_expr, Node.filterMap_stop?_type,
      List.append_nil]
  · rfl
  · rfl
  · rfl

theorem read_classes_comm (k : Setting → ClassEnv → Check α) :
    (do
      let setting ← read
      let env ← classes
      k setting env) = (do
      let env ← classes
      let setting ← read
      k setting env) := rfl

/-- Types that the tour does not record leave the number of calls of a node. -/
theorem callsAt_of_grown {t : Tour} {T T' : Typings} {n : Node} (h : t.footprint.Typings T T')
    (hread : ∀ id ∈ readIds n, ¬ t.marks id) : callsAt T' n = callsAt T n := by
  obtain ⟨new, rfl, hnew⟩ := h
  refine callsAt_congr fun id hid => lookup_append_of_ne ?_
  rintro p hp rfl
  exact hread p.1 hid (hnew p hp)

section

variable {c : Checker} (hc : c.Touring) {M : NodeId → Prop}

include hc

theorem takes_callWith (e : Expr) (typeArgs : List JType) (name : String) (args : List Expr)
    (candidates : List MethodCandidate) (hclear : (Leg.ofArgs args).Clear M)
    (hread : ∀ id ∈ readIds (.expr e), ¬ (Tour.along M (.ofArgs args)).marks id) :
    Takes (fun T => callsAt T (.expr e) = 1) (.along M (.ofArgs args) ++ .own (.expr e))
      (callWith c e typeArgs name args candidates) fun _ => anyTypes := by
  have hcomm : callWith c e typeArgs name args candidates = _ :=
    bind_congr fun known => read_classes_comm _
  rw [hcomm]
  refine takes_selecting hc args hclear ?_ ?_ (fun known best => ?_) ?_ ?_
  · intro T T' hgrow hT
    rw [callsAt_of_grown hgrow hread, hT]
  · exact fun known env setting a ha => CallSite.length_of_ranked ha
  · cases best with
    | none => exact .failAt _ _
    | some a =>
      have hcount : ∀ T, callsAt T (.expr e) = 1 → (Tour.own (.expr e)).tally T = 1 := by
        intro T hT
        rw [Tour.tally_own, hT]
      exact (takes_recordCall _ a.candidate hcount fun _ _ => rfl).ret _ fun _ _ h => h
  · exact fun known => fails_failAt _ _
  · exact ⟨nofun, fun _ _ _ _ => id⟩

/-- A call on a receiver, whose type says whether it counts. -/
theorem takes_callOn (id : NodeId) (r : Expr) (types : List JType) (typeArgs : List TypeRef)
    (name : String) (args : List Expr) (d : Denotation)
    (hclear : (Leg.through [.node (.expr r)] ++ Leg.ofArgs args).Clear M) :
    Takes (fun T => ∀ t, d = .value t → T.lookup r.id = some t)
      (.along M (.ofArgs args) ++ .own (.expr ⟨id, .call (some r) typeArgs name args⟩))
      (match d with
        | .package package => failAt (.expr ⟨id, .call (some r) typeArgs name args⟩)
          (.classNotFound package)
        | .value t => do
          if t.isPrimitive || t.isVoid || t.isNull then
            failAt (.expr ⟨id, .call (some r) typeArgs name args⟩) (.noSymbol name)
          if t.isArray && name == "clone" && args.isEmpty then return t
          callWith c ⟨id, .call (some r) typeArgs name args⟩ types name args (← methodsOf r t name))
      fun _ => anyTypes := by
  cases d with
  | package package => exact .failAt _ _
  | value t =>
    have hcount : ∀ T, T.lookup r.id = some t →
        callsAt T (.expr ⟨id, .call (some r) typeArgs name args⟩)
          = if t.isArray && name == "clone" && args.isEmpty then 0 else 1 := by
      intro T hT
      simp [callsAt, isArrayAt, hT]
    refine .ite (.failAt _ _) ?_
    split
    · rename_i hclone
      have hnone : args = [] := by
        simp only [Bool.and_eq_true, List.isEmpty_iff] at hclone
        exact hclone.2
      subst hnone
      refine .counting (.pure _) (fun _ _ => rfl) ?_ (k := 0) (fun T hT => ?_) fun _ _ => rfl
      · intro setting s a s' hrun
        cases hrun
        rfl
      · rw [Tour.tally_append, Tour.tally_own, hcount T (hT t rfl), if_pos hclone]
        rfl
    · rename_i hclone
      refine .skip (goes_methodsOf r t name) (still_methodsOf r t name) fun candidates => ?_
      have hcall := takes_callWith hc ⟨id, .call (some r) typeArgs name args⟩ types name args
        candidates hclear.right ?_
      · refine hcall.imp (.refl _) (fun T hT => ?_) fun _ _ h => h
        rw [hcount T (hT t rfl), if_neg hclone]
      · intro i hi hmark
        have hi : i = r.id := by simpa [readIds] using hi
        have hr : r.id ∈ (Leg.through [.node (.expr r)]).ids := by
          rw [(Leg.ids_node _).mem_iff]
          exact List.mem_cons_self
        subst hi
        exact hmark.elim (hclear.left.apart _ hr) (hclear.disjoint hr)

/-- The call of a method.  The number of calls depends on the type of the receiver, which is recorded
before the arguments are visited. -/
theorem visits_checkCall (id : NodeId) (receiver : Option Expr) (typeArgs : List TypeRef)
    (name : String) (args : List Expr) :
    Visits M [.node (.expr ⟨id, .call receiver typeArgs name args⟩)]
      (checkCall c ⟨id, .call receiver typeArgs name args⟩ receiver typeArgs name args) := by
  refine Travels.node_own rfl fun hclear => ?_
  have hfresh : ∀ r ∈ (Tour.along (atNode M (.expr ⟨id, .call receiver typeArgs name args⟩))
      (.inside (.expr ⟨id, .call receiver typeArgs name args⟩) 0)
        ++ Tour.own (.expr ⟨id, .call receiver typeArgs name args⟩)).fresh,
      ¬ atNode M (.expr ⟨id, .call receiver typeArgs name args⟩) r.id := by
    intro r hr
    rcases List.mem_append.mp hr with hr | hr
    · exact hclear.apart _ (Tour.fresh_along hr)
    · cases hr
  refine .resolve (goes_resolveTypes (F := resolving (atNode M _)) typeArgs fun t ht => ?_)
    (still_resolveTypes _) (fun _ _ _ h => h) hfresh (fun _ h => .inl (.inl h)) fun types => ?_
  · exact atNode_allows (Node.mem_types.mpr (by simp [Node.children, Expr.children, ht]))
  rw [inside_call] at hclear ⊢
  cases receiver with
  | none =>
    have hlegs : Leg.through [] ++ Leg.ofArgs args = .ofArgs args := rfl
    rw [show ((none : Option Expr).toList.map fun r => Stop.node (.expr r)) = [] from rfl, hlegs]
      at hclear ⊢
    refine .skip (goes_bareMethods _ name) (still_bareMethods _ name) fun candidates => ?_
    have hcall := takes_callWith hc ⟨id, .call none typeArgs name args⟩ types name args candidates
      hclear fun _ h => (by cases h)
    exact hcall.imp (.refl _) (fun _ _ => rfl) fun _ _ h => h
  | some r =>
    have hqualifier := (hc.qualifier _ r hclear.left).knowing
      (S := fun d T => ∀ t, d = .value t → T.lookup r.id = some t) ?_
    · have hcall := hqualifier.bind (fun d => (takes_callOn hc id r types typeArgs name args d
        hclear).imp (.refl _) (fun T hT => hT.2) fun _ _ h => h)
        ((Tour.along_apart hclear).append_right ⟨fun _ h => (by cases h), fun _ _ _ _ h => h⟩)
      rw [← Tour.append_assoc] at hcall
      exact hcall.le ((Tour.along_append_le _ _ _).append (.refl _))
    · rintro setting s d s' hrun t rfl
      exact hc.qualifierType hrun

theorem visits_nameAfterDot (e receiver : Expr) (name : String) (beforeDot : Bool) :
    Visits M [.node (.expr receiver)] (nameAfterDot c e receiver name beforeDot) := by
  refine (hc.qualifier M receiver).done (fun d => ?_) fun d => ?_
  · cases d with
    | package package => exact goes_nameInPackage e package name beforeDot
    | value owner =>
      refine (goes_namesType receiver).bind fun _ => .ite ?_ ?_
      · exact goes_nameInType e owner name
      · exact goes_nameInValue e owner name
  · cases d with
    | package package => exact still_nameInPackage e package name beforeDot
    | value owner =>
      refine (still_namesType receiver).bind fun _ => .ite ?_ ?_
      · exact still_nameInType e owner name
      · exact still_nameInValue e owner name

end

/-! ## Creations -/

theorem formals_of_choices {env : ClassEnv} {site : CallSite} {candidates : List MethodCandidate}
    {isDiamond : Bool} {generic : JType} {expected : Option JType} {a : Applicable}
    (h : a ∈ if isDiamond then aimAt env generic expected (site.ranked env candidates)
      else site.ranked env candidates) : a.formals.length = site.args.length := by
  split at h
  · obtain ⟨b, hb, hformals⟩ := formals_of_aimAt h
    rw [hformals]
    exact CallSite.length_of_ranked hb
  · exact CallSite.length_of_ranked h

theorem inside_create (id : NodeId) (outer : Option Expr) (type : TypeRef) (args : List Expr)
    (body : Option Decl) :
    Leg.inside (.expr ⟨id, .create outer type args body⟩) 1
      = .through (outer.toList.map fun o => .node (.expr o))
        ++ (.counted args ++ .through (body.toList.map fun d => .bodyClass d "")) := by
  ext1
  · show (outer.toList.map Node.expr ++ [Node.type type] ++ args.map Node.expr
      ++ body.toList.map Node.decl).filterMap _ = _ ++ (args.map _ ++ body.toList.map _)
    simp only [List.filterMap_append, Node.filterMap_stop?_expr, Node.filterMap_stop?_decl,
      List.append_assoc]
    rfl
  · show args = args ++ []
    rw [List.append_nil]
  · rfl
  · rfl

section

variable {c : Checker} (hc : c.Touring) {M : NodeId → Prop}

include hc

theorem visits_createdClass (e : Expr) (outer : Option Expr) (type : TypeRef)
    (name : QualifiedName) :
    Visits M (outer.toList.map fun o => .node (.expr o)) (createdClass c e outer type name) := by
  cases outer with
  | none =>
    refine .skip (goes_namedType? name) (still_namedType? name) fun found => ?_
    split
    · exact .pure _
    · exact .failAt _ _
  | some o =>
    refine (hc.expr M o none).done (fun owner => ?_) fun owner => ?_
    · refine Goes.get.bind fun s => goes_classes.bind fun env => ?_
      split
      · exact .pure _
      · exact .failAt _ _
    · refine Still.get.bind fun s => still_classes.bind fun env => ?_
      split
      · exact .pure _
      · exact .failAt _ _

theorem visits_createdType (e : Expr) (outer : Option Expr) (type : TypeRef)
    (htype : (resolving M).Allows (.type type)) :
    Visits M (outer.toList.map fun o => .node (.expr o)) (createdType c e outer type) := by
  unfold createdType
  split
  · rename_i name args hshape
    refine (visits_createdClass hc e outer type name).done (fun base => ?_) fun base => ?_
    · extract_lets -underBinder next
      have hnext : ∀ t, Has (resolving M) (next t) :=
        fun t => Goes.bind (.record htype.type t) fun _ => .pure _
      split
      · refine (goes_resolveTypes _ fun t ht => htype.child ?_).bind fun _ => ?_
        · simpa [Node.children, TypeRef.children, hshape] using ht
        · exact hnext _
      · exact hnext _
    · extract_lets -underBinder next
      have hnext : ∀ t, Still (next t) := fun t => (Still.record _ t).bind fun _ => .pure _
      split
      · exact (still_resolveTypes _).bind fun _ => hnext _
      · exact hnext _
  · exact .failAt _ _

theorem travels_selectConstructor (e : Expr) (d : ClassDef) (t : JType) (args : List Expr)
    (isDiamond hasBody : Bool) (expected : Option JType) :
    Travels M (.counted args) (selectConstructor c e d t args isDiamond hasBody expected) := by
  rw [← Leg.append_nil (.counted args), selectConstructor]
  refine travels_selecting hc args (fun known env setting a ha => ?_) (fun known best => ?_) ?_
  · exact formals_of_choices ha
  · cases best with
    | none => exact fun _ => .failAt _ _
    | some a => exact fun _ => (takes_recordCall _ _ (fun _ _ => rfl) fun _ _ => rfl).ret _ fun _ _ h => h
  · exact fun known => fails_failAt _ _

theorem visits_checkCreate (id : NodeId) (outer : Option Expr) (type : TypeRef) (args : List Expr)
    (body : Option Decl) (expected : Option JType) :
    Visits M [.node (.expr ⟨id, .create outer type args body⟩)]
      (checkCreate c ⟨id, .create outer type args body⟩ outer type args body expected) := by
  have htype : (resolving (atNode M (.expr ⟨id, .create outer type args body⟩))).Allows
      (.type type) :=
    atNode_allows (Node.mem_types.mpr (by simp [Node.children, Expr.children]))
  refine Travels.node (k := 1) rfl (fun _ => rfl) ?_
  rw [inside_create]
  refine Travels.seq (visits_createdType hc _ outer type htype) fun created => ?_
  refine .skip (goes_loadAt _ _) (still_loadAt _ _) fun d => .ite (.failAt _ _) ?_
  refine Travels.seq (travels_selectConstructor hc _ d _ args _ _ expected) fun a => ?_
  extract_lets -underBinder result next
  have hnext : ∀ r, Visits (atNode M (.expr ⟨id, .create outer type args body⟩))
      (body.toList.map fun d => .bodyClass d "") (next r) := by
    intro r
    cases body with
    | some d => exact visits_checkAnonymous (hc.decl _ d) _ result
    | none => exact .pure _
  refine .ite ?_ (hnext ())
  exact .skip (.record htype.type _) (.record _ _) hnext

theorem visits_mergedType (acc : Option JType) (elements : List Expr) :
    Visits M (elements.map fun e => .node (.expr e)) (mergedType c acc elements) := by
  induction elements generalizing acc with
  | nil => exact .pure _
  | cons e rest ih =>
    refine .cons (hc.expr M e none) fun t => ?_
    exact .skip (goes_mergeInto acc t) (still_mergeInto acc t) fun merged => ih _

theorem visits_checkArrayInit (elements : List Expr) (expected : Option JType) :
    Visits M (elements.map fun e => .node (.expr e)) (checkArrayInit c elements expected) := by
  unfold checkArrayInit
  split
  · refine Travels.done ?_ (fun _ => .pure _) fun _ => .pure _
    exact .each elements fun e _ => (hc.expr M e _).discard
  · exact (visits_mergedType hc none elements).done (fun _ => .pure _) fun _ => .pure _

theorem visits_checkCreateArray (element : TypeRef) (sizes : List Expr) (extraDims : Nat)
    (init : Option Expr) (helement : (resolving M).Allows (.type element)) :
    Visits M ((sizes.map fun e => .node (.expr e)) ++ init.toList.map fun e => .node (.expr e))
      (checkCreateArray c element sizes extraDims init) := by
  unfold checkCreateArray
  refine .skip (goes_resolveType element helement) (still_resolveType element) fun element => ?_
  refine .append (.each sizes fun e _ => (hc.expr M e _).discard) fun _ => ?_
  cases init with
  | some e => exact (hc.expr M e _).discard.done (fun _ => .pure _) fun _ => .pure _
  | none => exact .pure _

end

/-! ## Other expressions -/

/-- A name before a dot is given its type, unless it is that of a package. -/
theorem visits_recordValue {M : NodeId → Prop} (e : Expr) {m : Check Denotation} {ps : List Stop}
    (hn : hasCalls (.expr e) = false) (hstops : (Node.expr e).stops = ps)
    (hm : Visits (atNode M (.expr e)) ps m) :
    Visits M [.node (.expr e)] (do recordValue e (← m)) := by
  refine .stops rfl hn hstops (hm.done (fun d => ?_) fun d => ?_)
  · cases d with
    | value t => exact Goes.bind (.record (atNode_self (.expr e)) _) fun _ => .pure _
    | package dotted => exact .pure _
  · cases d with
    | value t => exact (Still.record _ _).bind fun _ => .pure _
    | package dotted => exact .pure _

theorem checkExpr_lookup {c : Checker} {e : Expr} {expected : Option JType} {setting : Setting} {s s' : State}
    {t : JType} (h : exec (checkExpr c e expected setting) s = (.ok t, s')) :
    s'.typings.lookup e.id = some t :=
  lookup_recorded h

/-- A value before a dot is a name, or is checked as an expression. -/
theorem checkQualifier_cases (c : Checker) (e : Expr) :
    (∃ m, checkQualifier c e = (do recordValue e (← m))) ∨
      checkQualifier c e = (do return .value (← checkExpr c e none)) := by
  obtain ⟨id, shape⟩ := e
  cases shape with
  | name | field => exact .inl ⟨_, rfl⟩
  | _ => exact .inr rfl

theorem checkQualifier_lookup {c : Checker} {e : Expr} {setting : Setting} {s s' : State} {t : JType}
    (h : exec (checkQualifier c e setting) s = (.ok (.value t), s')) :
    s'.typings.lookup e.id = some t := by
  rcases checkQualifier_cases c e with ⟨m, hname⟩ | hexpr
  · rw [hname] at h
    obtain ⟨d, u, -, hrest⟩ := ok_of_exec_bind h
    cases d with
    | value t' =>
      cases hrest
      exact List.lookup_cons_self
    | package dotted => cases hrest
  · rw [hexpr] at h
    obtain ⟨t', u, hfirst, hrest⟩ := ok_of_exec_bind h
    cases hrest
    exact checkExpr_lookup hfirst

section

variable {c : Checker} (hc : c.Touring) {M : NodeId → Prop}

include hc

theorem visits_checkUnary (e : Expr) (op : UnaryOp) (operand : Expr) :
    Visits M [.node (.expr operand)] (checkUnary c e op operand) := by
  refine (hc.expr M operand none).done (fun t => ?_) fun t => ?_
  · split
    · exact .failAt _ _
    · exact .ite ((goes_recordWrite operand).bind fun _ => .pure _) (.pure _)
  · split
    · exact .failAt _ _
    · exact .ite ((still_recordWrite operand).bind fun _ => .pure _) (.pure _)

/-- A variable that is written is not checked as an expression, but is given its type. -/
theorem visits_checkTarget (op : Option BinaryOp) (target : Expr) :
    Visits M [.node (.expr target)] (checkTarget c op target) := by
  obtain ⟨id, shape⟩ := target
  unfold checkTarget
  split
  · rename_i name hshape
    obtain rfl : shape = .name name := hshape
    refine .skip (goes_lookupForWrite _ _ _) (.inTable _ _) fun found => ?_
    split
    · refine .childless rfl rfl rfl (.leaf ?_ ?_)
      · exact Goes.bind (.record (atNode_self (.expr ⟨id, .name name⟩)) _) fun _ => .pure _
      · exact (Still.record _ _).bind fun _ => .pure _
    · exact hc.expr M _ none
  · refine (hc.expr M _ none).done (fun t => ?_) fun t => ?_
    · exact (goes_recordWrite _).bind fun _ => .pure _
    · exact (still_recordWrite _).bind fun _ => .pure _
  · exact hc.expr M _ none

theorem visits_checkAssign (e : Expr) (op : Option BinaryOp) (target value : Expr) :
    Visits M [.node (.expr target), .node (.expr value)] (checkAssign c e op target value) := by
  refine .cons (visits_checkTarget hc op target) fun t => ?_
  refine (hc.expr M value _).done (fun v => ?_) fun v => ?_
  · split
    · exact (goes_operatorType e _ t v).discard.bind fun _ => .pure _
    · exact .pure _
  · split
    · exact (still_operatorType e _ t v).discard.bind fun _ => .pure _
    · exact .pure _

theorem visits_checkIndex (e array position : Expr) :
    Visits M [.node (.expr array), .node (.expr position)] (checkIndex c e array position) := by
  refine .cons (hc.expr M array none) fun t => (hc.expr M position _).done (fun p => ?_) fun p => ?_
  · split
    · exact .pure _
    · exact .failAt _ _
  · split
    · exact .pure _
    · exact .failAt _ _

theorem visits_exprType (e : Expr) (expected : Option JType) :
    Visits M [.node (.expr e)] (exprType c e expected) := by
  have htypes : ∀ t, Node.type t ∈ e.children → (resolving (atNode M (.expr e))).Allows (.type t) :=
    fun t ht => atNode_allows (Node.mem_types.mpr ht)
  obtain ⟨id, shape⟩ := e
  cases shape with
  | literal kind text => exact .childless rfl rfl rfl (.pure _)
  | name name =>
    refine .childless rfl rfl rfl ?_
    refine .skip (goes_bareName _ _ _) (still_bareName _ _ _) fun d => ?_
    exact .leaf (goes_valueOf _ _ d) (still_valueOf _ _ d)
  | field receiver name =>
    refine .stops rfl rfl rfl ((visits_nameAfterDot hc _ receiver name false).done ?_ ?_)
    · exact fun d => goes_valueOf _ _ d
    · exact fun d => still_valueOf _ _ d
  | call receiver typeArgs name args => exact visits_checkCall hc id receiver typeArgs name args
  | create outer type args body => exact visits_checkCreate hc id outer type args body expected
  | createArray element sizes extraDims init =>
    refine .stops rfl rfl ?_ (visits_checkCreateArray hc element sizes extraDims init ?_)
    · show ([Node.type element] ++ sizes.map Node.expr
        ++ init.toList.map Node.expr).filterMap (Node.stop? _) = _
      simp only [List.filterMap_append, Node.filterMap_stop?_expr]
      rfl
    · exact htypes element (by simp [Expr.children])
  | arrayInit elements =>
    refine .stops rfl rfl ?_ (visits_checkArrayInit hc elements expected)
    exact Node.filterMap_stop?_expr _ elements
  | index array position => exact .stops rfl rfl rfl (visits_checkIndex hc _ array position)
  | unary op operand => exact .stops rfl rfl rfl (visits_checkUnary hc _ op operand)
  | binary op left right =>
    refine .stops rfl rfl rfl (.cons (hc.expr _ left none) fun l => ?_)
    exact (hc.expr _ right none).done (fun r => goes_operatorType _ op l r)
      fun r => still_operatorType _ op l r
  | assign op target value => exact .stops rfl rfl rfl (visits_checkAssign hc _ op target value)
  | conditional condition whenTrue whenFalse =>
    refine .stops rfl rfl rfl (.cons (hc.expr _ condition _) fun _ => ?_)
    refine .cons (hc.expr _ whenTrue expected) fun t => ?_
    refine (hc.expr _ whenFalse expected).done (fun f => ?_) fun f => ?_
    · exact goes_classes.bind fun _ => .pure _
    · exact still_classes.bind fun _ => .pure _
  | cast type operand =>
    have htype := htypes type (by simp [Expr.children])
    refine .stops rfl rfl rfl (.skip (goes_resolveType type htype) (still_resolveType type) ?_)
    exact fun t => (hc.expr _ operand _).done (fun _ => .pure _) fun _ => .pure _
  | instanceOf operand type =>
    have htype := htypes type (by simp [Expr.children])
    refine .stops rfl rfl rfl ((hc.expr _ operand none).done (fun _ => ?_) fun _ => ?_)
    · exact (goes_resolveType type htype).bind fun _ => .pure _
    · exact (still_resolveType type).bind fun _ => .pure _
  | lambda | methodRef =>
    cases expected with
    | some target =>
      exact (visits_checkFunctional hc _ target).done (fun _ => .pure _) fun _ => .pure _
    | none => exact .failAt _ _
  | self qualifier =>
    exact .childless rfl rfl rfl (.leaf (goes_checkSelf _ qualifier) (still_checkSelf _ qualifier))
  | parent =>
    refine .childless rfl rfl rfl ?_
    exact .skip (goes_currentClass _) (still_currentClass _) fun _ => .pure _
  | classLiteral type =>
    have htype := htypes type (by simp [Expr.children])
    refine .childless rfl rfl rfl ?_
    exact .skip (goes_resolveType type htype) (still_resolveType type) fun _ => .pure _

theorem visits_checkExpr (e : Expr) (expected : Option JType) :
    Visits M [.node (.expr e)] (checkExpr c e expected) :=
  (visits_exprType hc e expected).recorded id

theorem visits_checkQualifier (e : Expr) : Visits M [.node (.expr e)] (checkQualifier c e) := by
  obtain ⟨id, shape⟩ := e
  cases shape with
  | name name =>
    exact visits_recordValue ⟨id, .name name⟩ rfl rfl
      (.leaf (goes_bareName _ name true) (still_bareName _ name true))
  | field receiver name =>
    exact visits_recordValue ⟨id, .field receiver name⟩ rfl rfl
      (visits_nameAfterDot hc _ receiver name true)
  | _ => exact (visits_checkExpr hc _ none).done (fun _ => .pure _) fun _ => .pure _

end

end JavaSema.Analysis
