import JavaSema.Proofs.Analysis.TourStmt

/-!
# The tours of classes

Checking the body of a class visits its constants and its members in order.  The local and anonymous
classes that are met there belong to it.

There are four groups.

* The body of a class is opened under its name.
* Constants.
* Members.
* The checkers of all heights visit each node once.
-/

namespace JavaSema.Analysis

open Source

variable {α β : Type}

/-! ## The body of a class -/

theorem exec_binaryNameOf (d : Decl) (setting : Setting) (s : State) :
    (∃ binary, s.model.catalog.binaryName? d = some binary ∧
      exec (binaryNameOf d setting) s = (.ok binary, s)) ∨
    ∃ e, exec (binaryNameOf d setting) s = (.error e, s) := by
  rw [run_binaryNameOf]
  cases hname : s.catalog.binaryName? d with
  | some binary => exact .inl ⟨binary, hname, rfl⟩
  | none => exact .inr ⟨_, rfl⟩

/-- A step inside of the class whose name is looked up. -/
theorem Takes.named {P : Typings → Prop} {t : Tour} {Q : α → Typings → Prop} {d : Decl}
    {f : String → Check α}
    (hf : ∀ binary, Takes P { t with walk := fun _ => t.walk (some binary) } (f binary) Q) :
    Takes P (t.within (.decl d)) (do let binary ← binaryNameOf d; f binary) Q := by
  have hsplit : ∀ {setting s a s'},
      exec ((do let binary ← binaryNameOf d; f binary : Check α) setting) s = (.ok a, s') →
      ∃ binary, s.model.catalog.binaryName? d = some binary ∧
        exec (f binary setting) s = (.ok a, s') := by
    intro setting s a s' hrun
    rcases exec_binaryNameOf d setting s with ⟨binary, hname, hok⟩ | ⟨e, herror⟩
    · rw [run_bind_ok hok] at hrun
      exact ⟨binary, hname, hrun⟩
    · rw [run_bind_error herror] at hrun
      cases hrun
  refine ⟨(goes_binaryNameOf d).bind fun binary => (hf binary).has, ?_, ?_, ?_, ?_, ?_⟩
  · intro setting s hT
    rcases exec_binaryNameOf d setting s with ⟨binary, -, hok⟩ | ⟨e, herror⟩
    · rw [run_bind_ok hok]
      exact (hf binary).grows setting s hT
    · rw [run_bind_error herror]
      exact Footprint.typings_refl _
  · intro setting s a s' hrun hT
    obtain ⟨binary, -, hrun⟩ := hsplit hrun
    exact (hf binary).post hrun hT
  · intro setting s hT hplain
    rcases exec_binaryNameOf d setting s with ⟨binary, -, hok⟩ | ⟨e, herror⟩
    · rw [run_bind_ok hok]
      exact (hf binary).plain setting s hT hplain
    · rw [run_bind_error herror]
  · intro setting s a s' hrun _ hT hcount
    obtain ⟨binary, -, hrun⟩ := hsplit hrun
    exact (hf binary).calls hrun trivial hT hcount
  · intro setting s a s' hrun _ hT hs horder
    obtain ⟨binary, hname, hrun⟩ := hsplit hrun
    rw [(hf binary).model hrun trivial hT hs horder]
    show t.walk (some binary) s.model = t.walk (s.model.catalog.binaryName? d) s.model
    rw [hname]

/-- The body of a class that was opened is inside of the class. -/
theorem inside_openClass {d : Decl} {binary : String} {observer : Option String} {setting : Setting}
    {s s' : State} {a : Unit} (hrun : exec (openClass d binary observer setting) s = (.ok a, s'))
    (hs : s.table.Reachable) :
    s'.table.Reachable ∧ s'.table.innermostClass? = some binary := by
  have hopen : exec (inTable (.decl d) (SymbolTable.pushClassScope binary observer) setting) s
      = (.ok (), { s with table := (exec (SymbolTable.pushClassScope binary observer) s.table).2 }) :=
    rfl
  rw [openClass, run_bind_ok hopen] at hrun
  have hbind : Has .silent (do
      let c ← loadAt (.decl d) binary
      inTable (.decl d) (bindTypeParams c.typeParams)
      inTable (.decl d) <| c.memberClasses.forM fun member =>
        bindSymbol { name := Text.afterLast '$' member, kind := .type, type := .ofClass member }) := by
    refine (goes_loadAt _ _).bind fun c => ?_
    refine Goes.bind ((Moves.binds_below rfl (bindTypeParams_binds _)).inTable _) fun _ => ?_
    refine (Moves.binds_below rfl ?_).inTable _
    exact .forM SymbolTable.binds_refl SymbolTable.binds_trans _ fun _ _ => bindSymbol_binds _
  exact hbind.innermostClass? hrun (hs.pushClassScope binary observer)

theorem silent_closeClass (d : Decl) : Silent (do attachMembers d (← closeClass d)) := by
  refine (Silent.inTable _ _).bind fun members setting s => ?_
  rw [attachMembers, run_modify]
  dsimp only
  split
  · split
    · rfl
    · rfl
  · rfl

/-- Checking a class takes the tour inside of it. -/
theorem Takes.checkDecl {c : Checker} {t : Tour} {d : Decl}
    (h : ∀ binary, Follows t (checkMembers c d binary)) :
    Follows (t.within (.decl d)) (checkDecl c d) := by
  refine .named fun binary => ?_
  refine .skip (goes_observerOf _) (still_observerOf _) fun observer => ?_
  refine Takes.bracket (fun F => goes_openClass d binary observer) (still_openClass d binary observer)
    (pops_closeClass d) ?_ (silent_closeClass d) (fun hrun hs => inside_openClass hrun hs) (h binary)
  exact (still_closeClass d).bind fun members => still_attachMembers d members

/-! ## Constants -/

/-- The leg over a constant of an enumeration. -/
def Leg.ofConstant (k : EnumConstant) : Leg :=
  .counted k.args ++ .through (k.body.toList.map fun d => .bodyClass d "")

/-- The leg over constants. -/
def Leg.ofConstants : List EnumConstant → Leg
  | [] => .through []
  | k :: ks => .ofConstant k ++ .ofConstants ks

theorem Leg.ofConstants_parts (ks : List EnumConstant) :
    (Leg.ofConstants ks).stops
        = (ks.flatMap EnumConstant.children).filterMap (Node.stop? fun d => .bodyClass d "") ∧
      (Leg.ofConstants ks).args = ks.flatMap EnumConstant.args ∧
      (Leg.ofConstants ks).extra = ks.length ∧ (Leg.ofConstants ks).memo = [] := by
  induction ks with
  | nil => exact ⟨rfl, rfl, rfl, rfl⟩
  | cons k ks ih =>
    obtain ⟨hstops, hargs, hextra, hmemo⟩ := ih
    refine ⟨?_, ?_, ?_, ?_⟩
    · rw [List.flatMap_cons, List.filterMap_append, ← hstops, EnumConstant.children,
        List.filterMap_append, Node.filterMap_stop?_expr, Node.filterMap_stop?_decl]
      rfl
    · show k.args ++ [] ++ (Leg.ofConstants ks).args = _
      rw [hargs, List.append_nil, List.flatMap_cons]
    · show 1 + 0 + (Leg.ofConstants ks).extra = _
      rw [hextra, List.length_cons]
      omega
    · exact hmemo

section

variable {c : Checker} (hc : c.Touring) {M : NodeId → Prop}

include hc

theorem travels_checkConstant (d : Decl) (owner : ClassDef) (k : EnumConstant) :
    Travels M (.ofConstant k) (checkConstant c d owner k) := by
  refine travels_selecting hc k.args (fun known env setting a ha => ?_) (fun known best hclear => ?_)
    fun known => ?_
  · exact CallSite.length_of_ranked ha
  · cases best with
    | none => exact .failNamed _ _
    | some a =>
      have hcall : Follows .once (recordCall (.decl d) a.candidate) :=
        takes_recordCall _ _ (fun _ _ => rfl) fun _ _ => rfl
      refine hcall.bind (fun _ => ?_) ⟨fun _ _ => id, nofun⟩
      revert hclear
      generalize k.body = body
      cases body with
      | some body => exact (visits_checkAnonymous (hc.decl M body) _ _).discard
      | none => exact Travels.pure _
  · exact fails_failNamed _ _

theorem travels_checkConstants (d : Decl) (owner : ClassDef) (ks : List EnumConstant) :
    Travels M (.ofConstants ks) (ks.forM (checkConstant c d owner)) := by
  induction ks with
  | nil => exact .pure _
  | cons k ks ih => exact (travels_checkConstant hc d owner k).seq fun _ => ih

end

/-! ## Members -/

section

variable {c : Checker} (hc : c.Touring) {M : NodeId → Prop}

include hc

theorem visits_checkFieldInits (owner : ClassDef) (f : FieldDecl) :
    Visits M ((Declarator.inits f.declarators).map fun e => .node (.expr e))
      (checkFieldInits c owner f) := by
  rw [← inits_map]
  refine Travels.forM f.declarators fun v _ => ?_
  dsimp only
  cases v.init with
  | some e => exact ((hc.expr M e _).withFrame _).discard
  | none => exact .pure _

theorem visits_checkMethodBody (m : MethodDecl) (typeParams : List TypeParam) (body : Stmt)
    (htypes : ∀ t, Node.type t ∈ (Member.method m).children → (resolving M).Allows (.type t)) :
    Visits M [.node (.stmt body)] (checkMethodBody c m typeParams body) := by
  refine .skip ((Moves.binds_below rfl (bindTypeParams_binds _)).inTableFor _) (.inTableFor _ _) ?_
  intro _
  refine .skip (has_bindMethodParams rfl m.params fun p hp => htypes p.type ?_)
    (still_bindMethodParams m.params) fun _ => ?_
  · simp only [Member.children, List.mem_append, List.mem_map]
    exact .inl (.inr ⟨p.type, ⟨p, hp, rfl⟩, rfl⟩)
  refine .skip (.optionMapM _ fun t ht => goes_resolveType t (htypes t ?_))
    (.optionMapM _ still_resolveType) fun _ => ?_
  · simp [Member.children, Option.mem_def.mp ht]
  · exact ((hc.stmt M body).withFrame _).discard

theorem visits_checkMethod (d : Decl) (m : MethodDecl)
    (htypes : ∀ t, Node.type t ∈ (Member.method m).children → (resolving M).Allows (.type t)) :
    Visits M (m.body.toList.map fun s => .node (.stmt s)) (checkMethod c d m) := by
  unfold checkMethod
  cases m.body with
  | none => exact .pure _
  | some body =>
    refine .skip (goes_typeParamsOf m.typeParams fun t ht => htypes t ?_) (still_typeParamsOf _) ?_
    · simp only [Member.children, List.mem_append, List.mem_map]
      exact .inl (.inl (.inl ⟨t, ht, rfl⟩))
    · exact fun typeParams => (visits_checkMethodBody hc m typeParams body htypes).block _ _

theorem visits_checkMember (d : Decl) (owner : ClassDef) (m : Member)
    (htypes : ∀ t, Node.type t ∈ m.children → (resolving M).Allows (.type t)) :
    Visits M (m.children.filterMap (Node.stop? fun d => .node (.decl d))) (checkMember c d owner m) := by
  cases m with
  | field f =>
    have hstops := Node.filterMap_stop?_expr (fun d => .node (.decl d)) (Declarator.inits f.declarators)
    rw [show (Member.field f).children.filterMap _ = _ from hstops]
    exact visits_checkFieldInits hc owner f
  | method m =>
    have hstops : (Member.method m).children.filterMap (Node.stop? fun d => .node (.decl d))
        = m.body.toList.map fun s => .node (.stmt s) := by
      simp only [Member.children, List.filterMap_append, Node.filterMap_stop?_type,
        Node.filterMap_stop?_stmt, List.nil_append]
    rw [hstops]
    exact visits_checkMethod hc d m htypes
  | initializer isStatic body => exact ((hc.stmt M body).withFrame _).discard
  | type nested => exact hc.decl M nested

theorem travels_checkMembers (d : Decl) (binary : String) :
    Travels (atNode M (.decl d)) (.inside (.decl d) d.constants.length) (checkMembers c d binary) := by
  have hinside : Leg.inside (.decl d) d.constants.length = .ofConstants d.constants
      ++ .through (d.members.flatMap fun m => m.children.filterMap (Node.stop? fun d => .node (.decl d)))
      := by
    obtain ⟨hstops, hargs, hextra, hmemo⟩ := Leg.ofConstants_parts d.constants
    ext1
    · rw [Leg.append_stops, hstops, ← List.filterMap_flatMap]
      rfl
    · rw [Leg.append_args, hargs]
      exact (List.append_nil _).symm
    · rw [Leg.append_extra, hextra]
      rfl
    · rw [Leg.append_memo, hmemo]
      rfl
  rw [hinside]
  refine .skip (goes_loadAt _ _) (still_loadAt _ _) fun owner => .skip .read .read fun setting => ?_
  refine .skip (.forM _ fun s _ => has_bindSymbol rfl _ s) (.forM _ fun s => .inTable _ _) fun _ => ?_
  refine (travels_checkConstants hc d owner d.constants).seq fun _ => ?_
  refine Travels.forM d.members fun m hm => visits_checkMember hc d owner m fun t ht => ?_
  refine atNode_allows (Node.mem_types.mpr ?_)
  simp only [Node.children, Decl.children, List.mem_append]
  exact .inr (List.mem_flatMap.mpr ⟨m, hm, ht⟩)

theorem visits_checkDecl (d : Decl) : Visits M [.node (.decl d)] (checkDecl c d) := by
  intro hclear
  have htour := Takes.checkDecl fun binary =>
    travels_checkMembers hc d binary (hclear.inside d.constants.length)
  exact htour.le (Tour.inside_le fun _ => rfl)

end

/-! ## All heights -/

namespace Checker

theorem touring_none : Checker.none.Touring where
  balanced := balanced_none
  expr _ _ _ _ := .failAt _ _
  exprType h := by cases h
  qualifier _ _ _ := .failAt _ _
  qualifierType h := by cases h
  functional _ _ _ := .failAt _ _
  methodRef _ _ _ _ := .failAt _ _
  stmt _ _ _ := .failAt _ _
  decl _ _ _ := .failAt _ _

/-- A checker visits each node once if the checker of the parts does. -/
theorem Touring.step {c : Checker} (hc : c.Touring) : c.step.Touring where
  balanced := hc.balanced.step
  expr _ e expected := visits_checkExpr hc e expected
  exprType h := checkExpr_lookup h
  qualifier _ e := visits_checkQualifier hc e
  qualifierType h := checkQualifier_lookup h
  functional e target hnodup := takes_checkFunctional hc e target hnodup
  methodRef _ e htypes hclear :=
    (takes_methodRefOf hc e htypes hclear).imp (.refl _) (fun _ => id) fun _ _ h => h.typed
  stmt _ s := visits_checkStmt hc s
  decl _ d := visits_checkDecl hc d

theorem touring_upTo (height : Nat) : (Checker.upTo height).Touring := by
  induction height with
  | zero => exact touring_none
  | succ height ih => exact ih.step

end Checker

end JavaSema.Analysis
