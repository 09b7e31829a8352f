import JavaSema.Analysis.Basic
import JavaSema.Proofs.Analysis.CoverExpr

/-!
# An analysis covers its unit

Where a unit is analyzed with success, all its statements have a type, and its expressions have one
except for the segments of package names.

There are three groups.

* One theorem for each function that checks statements and bodies of classes, which takes a covering
  checker for the parts.
* The induction over heights.
* Units.  An analysis covers its unit also where earlier analyses left types behind.
-/

namespace JavaSema.Analysis

open Source

variable {u : SourceUnit} {T : Typings} {c : Checker}

theorem forall_mem_inits {ds : List Declarator} {p : Expr → Prop} :
    (∀ e ∈ Declarator.inits ds, p e) ↔ ∀ v ∈ ds, ∀ e ∈ v.init, p e := by
  constructor
  · intro h v hv e he
    exact h e (List.mem_filterMap.mpr ⟨v, hv, he⟩)
  · intro h e he
    obtain ⟨v, hv, hinit⟩ := List.mem_filterMap.mp he
    exact h v hv e hinit

section

variable (hids : (u.nodes.map Node.id).Nodup) (hc : c.Covering u T)

include hids hc

/-! ## Statements -/

theorem covers_variableType (s : Stmt) (type : TypeRef) (declared : Option JType) (v : Declarator)
    (htype : Node.type type ∈ u.nodes) (hinit : ∀ e ∈ v.init, Node.expr e ∈ u.nodes) :
    Covers u T True (variableType c s type declared v) fun _ =>
      ∀ e ∈ v.init, Covered u T (.expr e) := by
  obtain ⟨name, dims, init⟩ := v
  cases declared with
  | some base =>
    cases init with
    | some e =>
      refine .seq (hc.expr e _ (hinit e rfl)).discard fun _ => .pure ?_
      exact fun h => forall_mem_some.mpr h.2
    | none => exact .pure fun _ => forall_mem_none
  | none =>
    cases init with
    | some e =>
      refine .seq (hc.expr e none (hinit e rfl)) fun t => .ite (.failAt _ _) ?_
      refine .skip (.record (sparing_allows hids htype).type _) fun _ => .pure ?_
      exact fun h => forall_mem_some.mpr h.2
    | none => exact .failAt _ _

theorem covers_checkVariables (s : Stmt) (type : TypeRef) (declared : Option JType) (last : JType)
    (vs : List Declarator) (htype : Node.type type ∈ u.nodes)
    (hinits : ∀ v ∈ vs, ∀ e ∈ v.init, Node.expr e ∈ u.nodes) :
    Covers u T True (checkVariables c s type declared last vs) fun _ =>
      ∀ v ∈ vs, ∀ e ∈ v.init, Covered u T (.expr e) := by
  induction vs generalizing last with
  | nil => exact .pure fun _ => List.forall_mem_nil _
  | cons v rest ih =>
    obtain ⟨hfirst, hrest⟩ := List.forall_mem_cons.mp hinits
    refine .seq (covers_variableType hids hc s type declared v htype hfirst) fun t => ?_
    refine .skip (has_bindVariable rfl s v.name t) fun _ => .last (ih t hrest) ?_
    rintro _ ⟨-, hv⟩ hvs
    exact List.forall_mem_cons.mpr ⟨hv, hvs⟩

theorem covers_checkLocalClass (s : Stmt) (d : Decl) (hd : Node.decl d ∈ u.nodes) :
    Covers u T True (checkLocalClass c s d) fun _ => Covered u T (.decl d) := by
  have hallows : (sparing u).Allows (.decl d) := sparing_allows hids hd
  refine .skip (goes_currentClassName _) fun enclosing => .skip (goes_inCatalog _) fun binary => ?_
  refine .skip (goes_inCatalog _) fun _ => .skip (goes_observerOf _) fun observer => ?_
  refine .skip (has_bindSymbol rfl _ _) fun _ => ?_
  refine .skip (goes_classHeader d binary _ _ hallows) fun header => ?_
  exact .skip (goes_declareBody d header hallows) fun _ => hc.decl d hd

/-- A constant that is named without its class is not checked as an expression, but has its type. -/
theorem covers_checkLabel (selector : JType) (e : Expr) (he : Node.expr e ∈ u.nodes) :
    Covers u T True (checkLabel c selector e) fun _ => Covered u T (.expr e) := by
  unfold checkLabel
  split
  · rename_i name hshape
    have hfilled : Filled u T (.expr e) := by
      simp [Filled, Node.children, Expr.children, hshape]
    refine .skip goes_classes fun env => ?_
    split
    · refine .imp (.record hids he (fun _ => hfilled) _) id ?_
      exact fun _ _ htyped => hfilled.covered_expr htyped
    · exact (hc.expr e _ he).discard
  · exact (hc.expr e _ he).discard

omit hids in
theorem covers_checkSequence (last : JType) (body : List Stmt)
    (hbody : ∀ s ∈ body, Node.stmt s ∈ u.nodes) :
    Covers u T True (checkSequence c last body) fun _ => ∀ s ∈ body, Covered u T (.stmt s) := by
  induction body generalizing last with
  | nil => exact .pure fun _ => List.forall_mem_nil _
  | cons s rest ih =>
    obtain ⟨hfirst, hrest⟩ := List.forall_mem_cons.mp hbody
    refine .seq (hc.stmt s hfirst) fun t => .last (ih t hrest) ?_
    rintro _ ⟨-, hs⟩ hcovered
    exact List.forall_mem_cons.mpr ⟨hs, hcovered⟩

theorem covers_checkForEach (s : Stmt) (type : TypeRef) (name : String) (iterable : Expr)
    (body : Stmt) (htype : Node.type type ∈ u.nodes) (hiterable : Node.expr iterable ∈ u.nodes)
    (hbody : Node.stmt body ∈ u.nodes) :
    Covers u T True (checkForEach c s type name iterable body) fun _ =>
      Covered u T (.expr iterable) ∧ Covered u T (.stmt body) := by
  have hallows : (sparing u).Allows (.type type) := sparing_allows hids htype
  refine .seq (hc.expr iterable none hiterable) fun source => ?_
  refine .skip (goes_elementType s source) fun element => ?_
  have hrest : ∀ t, Covers u T (True ∧ Covered u T (.expr iterable))
      (do bindVariable s name t; c.stmt body) fun _ =>
        Covered u T (.expr iterable) ∧ Covered u T (.stmt body) := by
    intro t
    refine .skip (has_bindVariable rfl s name t) fun _ => .last (hc.stmt body hbody) ?_
    exact fun _ h hcovered => ⟨h.2, hcovered⟩
  split
  · exact .skip (.record hallows.type _) fun _ => .skip (.pure _) hrest
  · exact .skip (goes_resolveType type hallows) hrest

omit hids in
theorem covers_checkFor (init : List Stmt) (condition : Option Expr) (update : List Expr)
    (body : Stmt) (hinit : ∀ s ∈ init, Node.stmt s ∈ u.nodes)
    (hcondition : ∀ e ∈ condition, Node.expr e ∈ u.nodes)
    (hupdate : ∀ e ∈ update, Node.expr e ∈ u.nodes) (hbody : Node.stmt body ∈ u.nodes) :
    Covers u T True (checkFor c init condition update body) fun _ =>
      (((∀ s ∈ init, Covered u T (.stmt s)) ∧ ∀ e ∈ condition, Covered u T (.expr e)) ∧
        ∀ e ∈ update, Covered u T (.expr e)) ∧ Covered u T (.stmt body) := by
  refine .seq (.forM init fun s hs => (hc.stmt s (hinit s hs)).discard) fun _ => ?_
  have hrest : Covers u T True (do update.forM fun e => discard (c.expr e none); c.stmt body)
      fun _ => (∀ e ∈ update, Covered u T (.expr e)) ∧ Covered u T (.stmt body) := by
    refine .seq (.forM update fun e he => (hc.expr e none (hupdate e he)).discard) fun _ => ?_
    exact .last (hc.stmt body hbody) fun _ h hcovered => ⟨h.2, hcovered⟩
  cases condition with
  | some e =>
    refine .seq (hc.expr e _ (hcondition e rfl)).discard fun _ => .last hrest ?_
    rintro _ ⟨⟨-, hinit⟩, he⟩ ⟨hupdate, hbody⟩
    exact ⟨⟨⟨hinit, forall_mem_some.mpr he⟩, hupdate⟩, hbody⟩
  | none =>
    refine .last hrest ?_
    rintro _ ⟨-, hinit⟩ ⟨hupdate, hbody⟩
    exact ⟨⟨⟨hinit, forall_mem_none⟩, hupdate⟩, hbody⟩

theorem covers_checkCases (selector : JType) (acc : Option JType) (cases : List SwitchCase)
    (hparts : ∀ k ∈ cases, ∀ n ∈ k.children, n ∈ u.nodes) :
    Covers u T True (checkCases c selector acc cases) fun _ =>
      ∀ k ∈ cases, ∀ n ∈ k.children, Covered u T n := by
  induction cases generalizing acc with
  | nil => exact .pure fun _ => List.forall_mem_nil _
  | cons branch rest ih =>
    obtain ⟨hbranch, hrest⟩ := List.forall_mem_cons.mp hparts
    simp only [SwitchCase.children, List.forall_mem_append, List.forall_mem_map] at hbranch
    refine .seq (.forM _ fun e he => covers_checkLabel hids hc selector e (hbranch.1 e he))
      fun _ => ?_
    refine .seq (covers_checkSequence hc _ _ hbranch.2) fun t => ?_
    refine .skip (goes_mergeInto acc t) fun merged => .last (ih (some merged) hrest) ?_
    rintro _ ⟨⟨-, hlabels⟩, hbody⟩ hcovered
    refine List.forall_mem_cons.mpr ⟨?_, hcovered⟩
    simp only [SwitchCase.children, List.forall_mem_append, List.forall_mem_map]
    exact ⟨hlabels, hbody⟩

omit hids in
theorem covers_checkReturn (value : Option Expr) (hvalue : ∀ e ∈ value, Node.expr e ∈ u.nodes) :
    Covers u T True (checkReturn c value) fun _ => ∀ e ∈ value, Covered u T (.expr e) := by
  cases value with
  | none => exact .pure fun _ => forall_mem_none
  | some e =>
    refine .skip .get fun s => .seq (hc.expr e _ (hvalue e rfl)) fun t => ?_
    refine .skip (.noteReturn rfl t) fun _ => .pure ?_
    exact fun h => forall_mem_some.mpr h.2

theorem covers_checkCatch (clause : CatchClause) (hparts : ∀ n ∈ clause.children, n ∈ u.nodes) :
    Covers u T True (checkCatch c clause) fun _ => ∀ n ∈ clause.children, Covered u T n := by
  simp only [CatchClause.children, List.forall_mem_append, List.forall_mem_map,
    List.forall_mem_singleton] at hparts ⊢
  obtain ⟨htypes, hbody⟩ := hparts
  refine .skip (goes_caughtType _ _ fun t ht => sparing_allows hids (htypes t ht)) fun caught => ?_
  refine .inBlock (.skip (has_bindSymbol rfl _ _) fun _ => .last (hc.stmt _ hbody) ?_) _
  exact fun _ _ hcovered => ⟨fun t _ => covered_type t, hcovered⟩

theorem covers_checkCatches (acc : JType) (catches : List CatchClause)
    (hparts : ∀ k ∈ catches, ∀ n ∈ k.children, n ∈ u.nodes) :
    Covers u T True (checkCatches c acc catches) fun _ =>
      ∀ k ∈ catches, ∀ n ∈ k.children, Covered u T n := by
  induction catches generalizing acc with
  | nil => exact .pure fun _ => List.forall_mem_nil _
  | cons clause rest ih =>
    obtain ⟨hclause, hrest⟩ := List.forall_mem_cons.mp hparts
    refine .seq (covers_checkCatch hids hc clause hclause) fun t => .skip goes_classes fun env => ?_
    refine .last (ih _ hrest) ?_
    rintro _ ⟨-, hfirst⟩ hcovered
    exact List.forall_mem_cons.mpr ⟨hfirst, hcovered⟩

theorem covers_checkTry (s : Stmt) (resources : List Stmt) (body : Stmt)
    (catches : List CatchClause) (final : Option Stmt)
    (hresources : ∀ r ∈ resources, Node.stmt r ∈ u.nodes) (hbody : Node.stmt body ∈ u.nodes)
    (hcatches : ∀ k ∈ catches, ∀ n ∈ k.children, n ∈ u.nodes)
    (hfinal : ∀ f ∈ final, Node.stmt f ∈ u.nodes) :
    Covers u T True (checkTry c s resources body catches final) fun _ =>
      (((∀ r ∈ resources, Covered u T (.stmt r)) ∧ Covered u T (.stmt body)) ∧
        ∀ k ∈ catches, ∀ n ∈ k.children, Covered u T n) ∧ ∀ f ∈ final, Covered u T (.stmt f) := by
  have hblock : Covers u T True (do resources.forM fun r => discard (c.stmt r); c.stmt body)
      fun _ => (∀ r ∈ resources, Covered u T (.stmt r)) ∧ Covered u T (.stmt body) := by
    refine .seq (.forM _ fun r hr => (hc.stmt r (hresources r hr)).discard) fun _ => ?_
    exact .last (hc.stmt body hbody) fun _ h hcovered => ⟨h.2, hcovered⟩
  refine .seq (hblock.inBlock _) fun t => ?_
  refine .seq (covers_checkCatches hids hc t catches hcatches) fun t => ?_
  cases final with
  | some f =>
    refine .seq (hc.stmt f (hfinal f rfl)).discard fun _ => .pure ?_
    rintro ⟨⟨⟨-, hblock⟩, hcatches⟩, hf⟩
    exact ⟨⟨hblock, hcatches⟩, forall_mem_some.mpr hf⟩
  | none => exact .pure fun h => ⟨⟨h.1.2, h.2⟩, forall_mem_none⟩

theorem covers_stmtType (s : Stmt) (hs : Node.stmt s ∈ u.nodes) :
    Covers u T True (stmtType c s) fun _ => Filled u T (.stmt s) := by
  have hparts : ∀ n ∈ s.children, n ∈ u.nodes := fun n hn => SourceUnit.child_mem_nodes hs hn
  have hall : (∀ n ∈ s.children, Covered u T n) → Filled u T (.stmt s) := id
  obtain ⟨id, shape⟩ := s
  cases shape with
  | block body =>
    simp only [Stmt.children, List.forall_mem_map] at hparts hall
    exact .inBlock (.last (covers_checkSequence hc .void body hparts) fun _ _ h => hall h) _
  | vars type vs =>
    simp only [Stmt.children, List.forall_mem_append, List.forall_mem_singleton,
      List.forall_mem_map, forall_mem_inits] at hparts hall
    have hvars : ∀ declared, Covers u T True
        (checkVariables c ⟨id, .vars type vs⟩ type declared .void vs) fun _ =>
          Filled u T (.stmt ⟨id, .vars type vs⟩) := by
      intro declared
      refine .last (covers_checkVariables hids hc _ type declared .void vs hparts.1 hparts.2) ?_
      exact fun _ _ h => hall ⟨covered_type type, h⟩
    have htype := sparing_allows hids hparts.1
    unfold stmtType
    dsimp only
    split
    · exact .skip (.pure _) hvars
    · exact .skip (.map _ (goes_resolveType type htype)) hvars
  | decl d =>
    simp only [Stmt.children, List.forall_mem_singleton] at hparts hall
    exact .seq (covers_checkLocalClass hids hc _ d hparts) fun _ => .pure fun h => hall h.2
  | expr e =>
    simp only [Stmt.children, List.forall_mem_singleton] at hparts hall
    exact .last (hc.expr e none hparts) fun _ _ h => hall h
  | ifElse condition thenBranch elseBranch =>
    simp only [Stmt.children, List.forall_mem_append, List.forall_mem_map, Option.mem_toList,
      List.mem_cons, List.not_mem_nil, or_false, forall_eq_or_imp, forall_eq] at hparts hall
    obtain ⟨⟨hcondition, hthen⟩, helse⟩ := hparts
    refine .seq (hc.expr condition _ hcondition) fun _ => .seq (hc.stmt thenBranch hthen) fun t => ?_
    cases elseBranch with
    | none => exact .pure fun h => hall ⟨⟨h.1.2, h.2⟩, forall_mem_none⟩
    | some b =>
      refine .seq (hc.stmt b (helse b rfl)) fun f => .skip goes_classes fun _ => .pure ?_
      rintro ⟨⟨⟨-, hcondition⟩, hthen⟩, hb⟩
      exact hall ⟨⟨hcondition, hthen⟩, forall_mem_some.mpr hb⟩
  | whileLoop condition body =>
    simp only [Stmt.children, List.mem_cons, List.not_mem_nil, or_false, forall_eq_or_imp,
      forall_eq] at hparts hall
    refine .seq (hc.expr condition _ hparts.1) fun _ => .last (hc.stmt body hparts.2) ?_
    exact fun _ h hbody => hall ⟨h.2, hbody⟩
  | doWhile body condition =>
    simp only [Stmt.children, List.mem_cons, List.not_mem_nil, or_false, forall_eq_or_imp,
      forall_eq] at hparts hall
    refine .seq (hc.stmt body hparts.1) fun t => .seq (hc.expr condition _ hparts.2) fun _ => ?_
    exact .pure fun h => hall ⟨h.1.2, h.2⟩
  | forLoop init condition update body =>
    simp only [Stmt.children, List.forall_mem_append, List.forall_mem_map, Option.mem_toList,
      List.forall_mem_singleton] at hparts hall
    obtain ⟨⟨⟨hinit, hcondition⟩, hupdate⟩, hbody⟩ := hparts
    have hloop := covers_checkFor hc init condition update body hinit hcondition hupdate hbody
    exact .inBlock (.last hloop fun _ _ h => hall h) _
  | forEach type name iterable body =>
    simp only [Stmt.children, List.mem_cons, List.not_mem_nil, or_false, forall_eq_or_imp,
      forall_eq] at hparts hall
    obtain ⟨htype, hiterable, hbody⟩ := hparts
    have hloop := covers_checkForEach hids hc ⟨id, .forEach type name iterable body⟩ type name
      iterable body htype hiterable hbody
    exact .inBlock (.last hloop fun _ _ h => hall ⟨covered_type type, h⟩) _
  | switch selector cases =>
    simp only [Stmt.children, List.forall_mem_append, List.forall_mem_flatMap,
      List.forall_mem_singleton] at hparts hall
    refine .seq (hc.expr selector none hparts.1) fun t => ?_
    refine .seq (.inBlock (covers_checkCases hids hc t none cases hparts.2) _) fun _ => ?_
    exact .pure fun h => hall ⟨h.1.2, h.2⟩
  | ret value =>
    simp only [Stmt.children, List.forall_mem_map, Option.mem_toList] at hparts hall
    exact .last (covers_checkReturn hc value hparts) fun _ _ h => hall h
  | breakTo label => exact .pure fun _ => hall (by simp [Stmt.children])
  | continueTo label => exact .pure fun _ => hall (by simp [Stmt.children])
  | empty => exact .pure fun _ => hall (by simp [Stmt.children])
  | throw e =>
    simp only [Stmt.children, List.forall_mem_singleton] at hparts hall
    exact .seq (hc.expr e none hparts) fun _ => .pure fun h => hall h.2
  | tryCatch resources body catches final =>
    simp only [Stmt.children, List.forall_mem_append, List.forall_mem_map, Option.mem_toList,
      List.forall_mem_flatMap, List.forall_mem_singleton] at hparts hall
    obtain ⟨⟨⟨hresources, hbody⟩, hcatches⟩, hfinal⟩ := hparts
    have htry := covers_checkTry hids hc ⟨id, .tryCatch resources body catches final⟩ resources body
      catches final hresources hbody hcatches hfinal
    exact .last htry fun _ _ h => hall h
  | labeled label body =>
    simp only [Stmt.children, List.forall_mem_singleton] at hparts hall
    exact .last (hc.stmt body hparts) fun _ _ h => hall h

theorem covers_checkStmt (s : Stmt) (hs : Node.stmt s ∈ u.nodes) :
    Covers u T True (checkStmt c s) fun _ => Covered u T (.stmt s) := by
  refine .seq (covers_stmtType hids hc s hs) fun t => ?_
  refine .bind (.record hids hs And.right t) fun _ => .pure ?_
  rintro ⟨⟨-, hfilled⟩, htyped⟩
  exact hfilled.covered htyped

/-! ## Bodies of classes -/

theorem covers_checkConstant (d : Decl) (owner : ClassDef) (constant : EnumConstant)
    (hparts : ∀ n ∈ constant.children, n ∈ u.nodes) :
    Covers u T True (checkConstant c d owner constant) fun _ =>
      ∀ n ∈ constant.children, Covered u T n := by
  simp only [EnumConstant.children, List.forall_mem_append, List.forall_mem_map,
    Option.mem_toList] at hparts ⊢
  obtain ⟨hargs, hbody⟩ := hparts
  unfold checkConstant
  refine .seq (covers_classifyArgs hids hc _ hargs) fun known => .skip goes_classes fun env => ?_
  refine .skip .read fun setting => ?_
  refine .bind (covers_completeBest hids hc _ hargs ?_) fun best => ?_
  · exact fun _ => CallSite.length_of_ranked
  · cases best with
    | none => exact .failNamed _ _
    | some a =>
      refine .skip (goes_recordCall _ _) fun _ => ?_
      cases hconstant : constant.body with
      | some body =>
        have hbody' := covers_checkAnonymous hids hc (.decl d) body (.ofClass owner.name)
          (hbody body hconstant)
        refine .last hbody'.discard ?_
        rintro _ ⟨-, hcovered⟩ hbody
        exact ⟨hcovered rfl, forall_mem_some.mpr hbody⟩
      | none => exact .pure fun h => ⟨h.2 rfl, forall_mem_none⟩

omit hids in
theorem covers_checkFieldInits (owner : ClassDef) (f : FieldDecl)
    (hparts : ∀ e ∈ Declarator.inits f.declarators, Node.expr e ∈ u.nodes) :
    Covers u T True (checkFieldInits c owner f) fun _ =>
      ∀ e ∈ Declarator.inits f.declarators, Covered u T (.expr e) := by
  rw [forall_mem_inits] at hparts ⊢
  refine .forM _ fun v hv => ?_
  cases hinit : v.init with
  | some e =>
    refine .imp (Covers.discard (.withFrame (hc.expr e _ (hparts v hv e hinit)) _)) id ?_
    exact fun _ _ hcovered => forall_mem_some.mpr hcovered
  | none => exact .pure fun _ => forall_mem_none

variable {m : MethodDecl} (hparts : ∀ n ∈ (Member.method m).children, n ∈ u.nodes)

include hparts

theorem covers_checkMethodBody (typeParams : List TypeParam) {body : Stmt}
    (hbody : m.body = some body) :
    Covers u T True (checkMethodBody c m typeParams body) fun _ => Covered u T (.stmt body) := by
  simp only [Member.children, List.forall_mem_append, List.forall_mem_map,
    Option.mem_toList] at hparts
  obtain ⟨⟨⟨-, hreturn⟩, hparams⟩, hstmt⟩ := hparts
  refine .after (.inTableFor _ _) fun _ => ?_
  refine .skip (has_bindMethodParams rfl m.params fun p hp => ?_) fun _ => ?_
  · exact sparing_allows hids (hparams p hp)
  · refine .skip (.optionMapM _ fun t ht => goes_resolveType t ?_) fun _ => ?_
    · exact sparing_allows hids (hreturn t ht)
    · exact Covers.discard (.withFrame (hc.stmt body (hstmt body hbody)) _)

theorem covers_checkMethod (d : Decl) :
    Covers u T True (checkMethod c d m) fun _ =>
      ∀ n ∈ (Member.method m).children, Covered u T n := by
  have hcovered : (∀ body ∈ m.body, Covered u T (.stmt body)) →
      ∀ n ∈ (Member.method m).children, Covered u T n := by
    intro hbody
    simp only [Member.children, List.forall_mem_append, List.forall_mem_map, Option.mem_toList]
    exact ⟨⟨⟨fun t _ => covered_type t, fun t _ => covered_type t⟩, fun p _ => covered_type _⟩, hbody⟩
  unfold checkMethod
  split
  · rename_i body hbody
    refine .skip (goes_typeParamsOf m.typeParams fun t ht => sparing_allows hids ?_) fun params => ?_
    · exact hparts _ (by simp [Member.children, ht])
    · refine .after (.inTable _ _) fun _ => ?_
      have hstep := covers_checkMethodBody hids hc hparts params hbody
      refine .imp (.closing hstep (Spares.inTable _ _).discard) id ?_
      intro _ _ hstmt
      refine hcovered ?_
      rw [hbody]
      exact forall_mem_some.mpr hstmt
  · rename_i hnone
    refine .pure fun _ => hcovered ?_
    intro body hbody
    exact absurd hbody (hnone body)

omit hparts

theorem covers_checkMember (d : Decl) (owner : ClassDef) (m : Member)
    (hparts : ∀ n ∈ m.children, n ∈ u.nodes) :
    Covers u T True (checkMember c d owner m) fun _ => ∀ n ∈ m.children, Covered u T n := by
  cases m with
  | field f =>
    simp only [Member.children, List.forall_mem_append, List.forall_mem_map,
      List.forall_mem_singleton] at hparts ⊢
    refine (covers_checkFieldInits hc owner f hparts.2).imp id ?_
    exact fun _ _ hinits => ⟨covered_type f.type, hinits⟩
  | method m => exact covers_checkMethod hids hc hparts d
  | initializer isStatic body =>
    simp only [Member.children, List.forall_mem_singleton] at hparts ⊢
    exact Covers.discard (.withFrame (hc.stmt body hparts) _)
  | type nested =>
    simp only [Member.children, List.forall_mem_singleton] at hparts ⊢
    exact hc.decl nested hparts

theorem covers_checkMembers (d : Decl) (binary : String) (hd : Node.decl d ∈ u.nodes) :
    Covers u T True (checkMembers c d binary) fun _ => Filled u T (.decl d) := by
  have hparts : ∀ n ∈ (Node.decl d).children, n ∈ u.nodes :=
    fun n hn => SourceUnit.child_mem_nodes hd hn
  unfold Filled
  simp only [Node.children, Decl.children, List.forall_mem_append, List.forall_mem_map,
    List.forall_mem_flatMap] at hparts ⊢
  obtain ⟨⟨-, hconstants⟩, hmembers⟩ := hparts
  refine .skip (goes_loadAt _ _) fun owner => .skip .read fun setting => ?_
  refine .skip (.forM _ fun s _ => has_bindSymbol rfl _ s) fun _ => ?_
  refine .seq (.forM _ fun k hk => covers_checkConstant hids hc d owner k (hconstants k hk))
    fun _ => ?_
  refine .last (.forM _ fun m hm => covers_checkMember hids hc d owner m (hmembers m hm)) ?_
  rintro _ ⟨-, hconstants⟩ hmembers
  refine ⟨⟨⟨⟨?_, ?_⟩, ?_⟩, hconstants⟩, hmembers⟩
  all_goals exact fun t _ => covered_type t

theorem covers_checkDecl (d : Decl) (hd : Node.decl d ∈ u.nodes) :
    Covers u T True (checkDecl c d) fun _ => Covered u T (.decl d) := by
  refine .skip (goes_binaryNameOf d) fun binary => .skip (goes_observerOf _) fun observer => ?_
  refine .skip (goes_openClass d binary observer) fun _ => ?_
  refine .imp (.closing (covers_checkMembers hids hc d binary hd) (.closeClass d)) id ?_
  exact fun _ _ hfilled => hfilled.covered trivial

end

/-! ## All heights -/

namespace Checker

theorem covering_none : Checker.none.Covering u T :=
  ⟨fun _ _ _ => .failAt _ _, fun _ _ => .failAt _ _, fun _ _ _ => .failAt _ _,
    fun _ _ => .failAt _ _, fun _ _ => .failAt _ _, fun _ _ => .failAt _ _⟩

/-- A checker covers the unit if the checker of the parts does. -/
theorem Covering.step (hids : (u.nodes.map Node.id).Nodup) (hc : c.Covering u T) :
    c.step.Covering u T where
  expr e expected he := covers_checkExpr hids hc e expected he
  qualifier e he := covers_checkQualifier hids hc e he
  functional e target he := covers_checkFunctional hids hc e target he
  methodRef e he := covers_methodRefOf hids hc e he
  stmt s hs := covers_checkStmt hids hc s hs
  decl d hd := covers_checkDecl hids hc d hd

/-- Checkers of all heights cover the unit. -/
theorem covering_upTo (hids : (u.nodes.map Node.id).Nodup) (height : Nat) :
    (upTo height).Covering u T := by
  induction height with
  | zero => exact covering_none
  | succ height ih => exact ih.step hids

end Checker

/-! ## Units -/

theorem covers_checkUnit (hids : (u.nodes.map Node.id).Nodup) :
    Covers u T True (checkUnit u) fun _ => ∀ d ∈ u.types, Covered u T (.decl d) := by
  have hdecls : ∀ d ∈ u.types, Node.decl d ∈ u.nodes := by
    intro d hd
    exact SourceUnit.mem_nodes_iff.mpr ⟨d, hd, Node.self_mem_subtree _⟩
  refine .skip .read fun setting => ?_
  refine .after (fun _ _ => Footprint.typings_refl _) fun _ => ?_
  refine .after (.inTableFor _ _) fun _ => .skip .get fun s => .after (.inTableFor _ _) fun _ => ?_
  have hchecker := Checker.covering_upTo (T := T) hids u.height
  refine .seq (.forM u.types fun d hd => hchecker.decl d (hdecls d hd)) fun _ => ?_
  exact .imp (.of_spares (Spares.inTableFor _ _).discard) id fun _ h _ => h.2

theorem covers_unit (hids : (u.nodes.map Node.id).Nodup) :
    Covers u T True (do declareUnit u; checkUnit u) fun _ =>
      ∀ d ∈ u.types, Covered u T (.decl d) := by
  refine .skip (has_declareUnit u fun d hd => sparing_allows hids ?_) fun _ => covers_checkUnit hids
  exact SourceUnit.mem_nodes_iff.mpr ⟨d, hd, Node.self_mem_subtree _⟩

/-- The types that a unit has after some analyses, whether they succeeded or not. -/
inductive Analyzed (u : SourceUnit) : Typings → Prop where
  | fresh : Analyzed u []
  | again {typings : Typings} (h : Analyzed u typings) (setting : Setting) :
    Analyzed u (analyzeFrom setting u typings).2.typings

/-- After any analyses, what lies below a typed expression is settled. -/
theorem Analyzed.consistent (hids : (u.nodes.map Node.id).Nodup) {typings : Typings}
    (h : Analyzed u typings) : Consistent u typings typings := by
  induction h with
  | fresh => exact fun _ _ htyped => nomatch htyped
  | @again typings _ setting ih =>
    obtain ⟨hgrow, hend⟩ := covers_unit hids (T := (analyzeFrom setting u typings).2.typings)
      setting (start setting u typings)
    refine (hend trivial List.suffix_rfl ?_).1
    exact fun e he htyped => (ih e he htyped).mono hgrow

/-- An analysis succeeds only where its steps do. -/
theorem run_of_analyzeFrom_ok {setting : Setting} {before : Typings} {summary : Summary}
    (h : (analyzeFrom setting u before).1 = .ok summary) :
    ∃ a, (exec ((do declareUnit u; checkUnit u : Check Unit) setting)
      (start setting u before)).1 = .ok a := by
  change (exec ((do declareUnit u; checkUnit u : Check Unit) setting)
    (start setting u before)).1.map _ = _ at h
  generalize (exec ((do declareUnit u; checkUnit u : Check Unit) setting)
    (start setting u before)).1 = result at h ⊢
  cases result with
  | error e => cases h
  | ok a => exact ⟨a, rfl⟩

/-- Where an analysis of a unit succeeds, all its statements have a type, and all its expressions have
one except for names that stand before a dot.  No number may be used for two nodes of the unit, which
may have been analyzed before. -/
theorem analyzed_nodes_typed (setting : Setting) (u : SourceUnit)
    (hids : (u.nodes.map Node.id).Nodup) (before : Typings) (hbefore : Analyzed u before)
    (summary : Summary) (hok : (analyzeFrom setting u before).1 = .ok summary) :
    (∀ s, Node.stmt s ∈ u.nodes → Typed (analyzeFrom setting u before).2.typings s.id) ∧
      ∀ e, Node.expr e ∈ u.nodes →
        Typed (analyzeFrom setting u before).2.typings e.id ∨ BeforeDot u e := by
  obtain ⟨hgrow, hend⟩ := covers_unit hids (T := (analyzeFrom setting u before).2.typings) setting
    (start setting u before)
  obtain ⟨-, hcovered⟩ := hend trivial List.suffix_rfl
    fun e he htyped => (hbefore.consistent hids e he htyped).mono hgrow
  obtain ⟨a, hrun⟩ := run_of_analyzeFrom_ok hok
  have hsettled : ∀ n ∈ u.nodes, Settled u (analyzeFrom setting u before).2.typings n := by
    intro n hn
    obtain ⟨d, hd, hn⟩ := SourceUnit.mem_nodes_iff.mp hn
    exact hcovered a hrun d hd n hn
  exact ⟨fun s hs => hsettled _ hs, fun e he => hsettled _ he⟩

/-- A setting with a class `p.B` that has a static field `n`. -/
def holderOfN : Setting :=
  { classes := ClassTable.toEnv
      ⟨[{ ClassDef.empty "p.B" .ordinary with
          fields := [{ name := "n", type := .primitive .int, isStatic := true }] }]⟩ }

/-- A class whose initializer evaluates `p.B.n`. -/
def namesPackage : SourceUnit :=
  let segment : Expr := ⟨0, .name "p"⟩
  let owner : Expr := ⟨1, .field segment "B"⟩
  let stmt : Stmt := ⟨3, .expr ⟨2, .field owner "n"⟩⟩
  { types :=
      [{ id := 4, name := "A", kind := .ordinary, modifiers := {}, typeParams := []
         parent := none, interfaces := [], constants := []
         members := [.initializer false stmt], span := default }] }

/-- The analysis of `p.B.n` succeeds and leaves the segment `p` without a type. -/
theorem namesPackage_nodes_typed :
    (namesPackage.nodes.map Node.id).Nodup ∧
      (∃ summary, (analyze holderOfN namesPackage).1 = .ok summary) ∧
      ¬ Typed (analyze holderOfN namesPackage).2.typings 0 ∧
      (∀ s, Node.stmt s ∈ namesPackage.nodes →
        Typed (analyze holderOfN namesPackage).2.typings s.id) ∧
      ∀ e, Node.expr e ∈ namesPackage.nodes →
        Typed (analyze holderOfN namesPackage).2.typings e.id ∨ BeforeDot namesPackage e := by
  have hids : (namesPackage.nodes.map Node.id).Nodup := by decide +kernel
  have hsome : (analyze holderOfN namesPackage).1.toOption.isSome = true := by decide +kernel
  have hsegment : ((analyze holderOfN namesPackage).2.typings.lookup 0).isSome = false := by
    decide +kernel
  have hok : ∃ summary, (analyze holderOfN namesPackage).1 = .ok summary := by
    generalize (analyze holderOfN namesPackage).1 = result at hsome ⊢
    cases result with
    | error e => cases hsome
    | ok summary => exact ⟨summary, rfl⟩
  obtain ⟨summary, hrun⟩ := hok
  refine ⟨hids, ⟨summary, hrun⟩, ?_, ?_⟩
  · rw [Typed, hsegment]
    exact Bool.false_ne_true
  · exact analyzed_nodes_typed holderOfN namesPackage hids [] .fresh summary hrun

end JavaSema.Analysis
