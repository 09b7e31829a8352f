import JavaSema.Analysis.ClassBody
import JavaSema.Analysis.Expr
import JavaSema.Analysis.Stmt
import JavaSema.Proofs.Analysis.Declare

/-!
# The footprint of lookups

The steps of the checkers that do not go down to another node: what names denote, which methods can be
called, how variables are bound.  All of them leave the scopes as they were, except for the variables
that they bind in the innermost one.
-/

namespace JavaSema.Analysis

open Source

variable {F : Footprint} {k : Nat}

/-! ## Parts of the state -/

theorem goes_observerOf (n : Node) : Goes F k k (observerOf n) := Goes.read.bind fun _ => .pure _

theorem goes_typeOf? (id : NodeId) : Goes F k k (typeOf? id) := Goes.get.bind fun _ => .pure _

theorem goes_namesType (e : Expr) : Goes F k k (namesType e) := Goes.get.bind fun _ => .pure _

theorem goes_markTypeName (e : Expr) : Goes F k k (markTypeName e) :=
  .modifyGet (fun _ => rfl) (fun _ => rfl) fun _ => rfl

theorem goes_currentClassName (n : Node) : Goes F k k (currentClassName n) := by
  refine Goes.get.bind fun s => ?_
  split
  · exact .pure _
  · exact .failAt _ _

theorem run_binaryNameOf (d : Decl) (setting : Setting) (s : State) :
    exec (binaryNameOf d setting) s
      = ((s.catalog.binaryName? d).elim (.error ⟨title (.decl d), .classNotFound d.name⟩) .ok, s) := by
  rw [binaryNameOf, run_bind_ok (run_get _ _)]
  cases s.catalog.binaryName? d with
  | none => rfl
  | some b => rfl

theorem run_currentClassName (n : Node) (setting : Setting) (s : State) :
    exec (currentClassName n setting) s
      = (s.table.innermostClass?.elim (.error ⟨title n, .unbalancedScope .noClass⟩) .ok, s) := by
  rw [currentClassName, run_bind_ok (run_get _ _)]
  cases s.table.innermostClass? with
  | none => rfl
  | some name => rfl

theorem run_loadAt (n : Node) (name : String) (setting : Setting) (s : State) :
    exec (loadAt n name setting) s
      = (((overlay s.declared setting.classes).load name).mapError fun e => ⟨title n, .noClass e⟩, s) := by
  rw [loadAt, run_bind_ok (run_classes _ _)]
  cases (overlay s.declared setting.classes).load name with
  | ok d => rfl
  | error e => rfl

theorem goes_currentClass (n : Node) : Goes F k k (currentClass n) :=
  (goes_currentClassName n).bind fun _ => goes_loadAt _ _

theorem goes_lookupForRead (n : Node) (name : String) (kind : SymbolKind) :
    Goes F k k (inTable n (SymbolTable.lookupForRead name kind)) :=
  (Moves.observed .read fun t => SymbolTable.locate? t.scopes name kind).inTable n

theorem goes_lookupForWrite (n : Node) (name : String) (kind : SymbolKind) :
    Goes F k k (inTable n (SymbolTable.lookupForWrite name kind)) :=
  (Moves.observed .write fun t => SymbolTable.locate? t.scopes name kind).inTable n

theorem goes_lookupMethodForRead (n : Node) (name : String) (params : List JType) :
    Goes F k k (inTable n (SymbolTable.lookupMethodForRead name params)) :=
  (Moves.observed .read fun t => t.locateMethod? name params).inTable n

/-! ## Names -/

theorem goes_readVariable (e : Expr) (name : String) : Goes F k k (readVariable e name) := by
  refine (goes_lookupForRead _ _ _).bind fun found => ?_
  split
  · exact .pure _
  · exact goes_lookupForRead _ _ _

theorem goes_fieldOfClasses (e : Expr) (name : String) (owners : List String) :
    Goes F k k (fieldOfClasses e name owners) := by
  induction owners with
  | nil => exact .pure _
  | cons owner rest ih =>
    refine (goes_loadAt _ _).bind fun d => goes_classes.bind fun env => ?_
    split
    · exact .pure _
    · exact ih

theorem goes_implicitField (e : Expr) (name : String) : Goes F k k (implicitField e name) :=
  Goes.read.bind fun _ =>
    .ite (Goes.get.bind fun _ => goes_fieldOfClasses e name _) (.pure _)

theorem goes_importedField (name : String) : Goes F k k (importedField name) :=
  goes_classes.bind fun _ => Goes.get.bind fun _ => .pure _

theorem goes_bareName (e : Expr) (name : String) (beforeDot : Bool) :
    Goes F k k (bareName e name beforeDot) := by
  refine (goes_readVariable e name).bind fun found => ?_
  split
  · exact .pure _
  refine (goes_simpleType? name).bind fun found => ?_
  split
  · exact (goes_markTypeName e).bind fun _ => .pure _
  refine (goes_implicitField e name).bind fun found => ?_
  split
  · exact .pure _
  refine (goes_importedField name).bind fun found => ?_
  split
  · exact .pure _
  exact .ite (.pure _) (.failAt _ _)

theorem goes_nameInPackage (e : Expr) (package name : String) (beforeDot : Bool) :
    Goes F k k (nameInPackage e package name beforeDot) := by
  refine goes_classes.bind fun env => ?_
  split
  · exact (goes_markTypeName e).bind fun _ => .pure _
  · exact .ite (.pure _) (.failAt _ _)

theorem goes_nameInType (e : Expr) (owner : JType) (name : String) :
    Goes F k k (nameInType e owner name) := by
  refine goes_classes.bind fun env => ?_
  split
  · exact .pure _
  · refine Goes.get.bind fun s => ?_
    split
    · exact (goes_markTypeName e).bind fun _ => .pure _
    · exact .failAt _ _

theorem goes_nameInValue (e : Expr) (owner : JType) (name : String) :
    Goes F k k (nameInValue e owner name) := by
  refine .ite (.pure _) (goes_classes.bind fun env => ?_)
  split
  · exact .pure _
  · exact .failAt _ _

/-! ## Lambdas and calls -/

/-- The types that are written are types of parameters. -/
theorem exists_param_of_written {params : List LambdaParam} {ts : List TypeRef}
    (h : writtenTypes? params = some ts) {t : TypeRef} (ht : t ∈ ts) :
    ∃ p ∈ params, p.type = some t := by
  unfold writtenTypes? at h
  split at h
  · cases h
  · clear * - h ht
    induction params generalizing ts with
    | nil =>
      simp only [List.mapM_nil, Option.pure_def, Option.some.injEq] at h
      subst h
      cases ht
    | cons p rest ih =>
      simp only [List.mapM_cons, Option.bind_eq_bind, Option.bind_eq_some_iff,
        Option.filter_eq_some_iff, Option.pure_def, Option.some.injEq] at h
      obtain ⟨u, ⟨hu, -⟩, us, hus, rfl⟩ := h
      rcases List.mem_cons.mp ht with rfl | ht
      · exact ⟨p, List.mem_cons_self, hu⟩
      · obtain ⟨q, hq, htype⟩ := ih ht hus
        exact ⟨q, List.mem_cons_of_mem _ hq, htype⟩

theorem goes_lambdaShape (params : List LambdaParam) (body : LambdaBody)
    (h : ∀ p ∈ params, ∀ t ∈ p.type, F.Allows (.type t)) :
    Goes F k k (lambdaShape params body) := by
  refine Goes.bind (.optionMapM _ fun ts hts => goes_resolveTypes ts fun t ht => ?_) fun _ => .pure _
  obtain ⟨p, hp, htype⟩ := exists_param_of_written hts ht
  exact h p hp t htype

theorem goes_recordCall (n : Node) (candidate : MethodCandidate) :
    Goes F k k (recordCall n candidate) := by
  refine Goes.bind (.modifyGet (fun _ => rfl) (fun _ => rfl) fun _ => rfl) fun _ => ?_
  refine goes_classes.bind fun env => ?_
  split
  · exact (goes_lookupMethodForRead _ _ _).discard
  · exact .pure _

theorem goes_methodsOfClasses (e : Expr) (name : String) (owners : List String) :
    Goes F k k (methodsOfClasses e name owners) := by
  induction owners with
  | nil => exact .pure _
  | cons owner rest ih =>
    refine (goes_loadAt _ _).bind fun d => goes_classes.bind fun env => ?_
    split
    · exact ih
    · exact .pure _

theorem goes_importedMethods (name : String) : Goes F k k (importedMethods name) :=
  goes_classes.bind fun _ => Goes.get.bind fun _ => .pure _

theorem goes_bareMethods (e : Expr) (name : String) : Goes F k k (bareMethods e name) := by
  refine Goes.get.bind fun s => (goes_methodsOfClasses e name _).bind fun found => ?_
  split
  · exact goes_importedMethods name
  · exact .pure _

theorem goes_methodsOf (receiver : Expr) (t : JType) (name : String) :
    Goes F k k (methodsOf receiver t name) :=
  goes_classes.bind fun _ => (goes_namesType receiver).bind fun _ => .ite (.pure _) (.pure _)

/-! ## Expressions and statements -/

theorem goes_valueOf (e : Expr) (cause : String → ResolveError) (d : Denotation) :
    Goes F k k (valueOf e cause d) := by
  cases d with
  | value t => exact .pure _
  | package dotted => exact .failAt _ _

theorem goes_recordWrite (e : Expr) : Goes F k k (recordWrite e) := by
  unfold recordWrite
  split
  · exact (goes_lookupForWrite _ _ _).discard
  · exact .pure _

theorem goes_operatorType (e : Expr) (op : BinaryOp) (left right : JType) :
    Goes F k k (operatorType e op left right) := by
  unfold operatorType
  split
  · exact .pure _
  · exact .failAt _ _

theorem goes_checkSelf (e : Expr) (qualifier : Option QualifiedName) :
    Goes F k k (checkSelf e qualifier) := by
  cases qualifier with
  | none => exact (goes_currentClass _).bind fun _ => .pure _
  | some qualifier =>
    refine (goes_namedType? qualifier).bind fun found => ?_
    split
    · exact .failAt _ _
    · refine Goes.get.bind fun s => .ite (.failAt _ _) ?_
      exact (goes_loadAt _ _).bind fun _ => .pure _

theorem goes_mergeInto (before : Option JType) (t : JType) : Goes F k k (mergeInto before t) := by
  cases before with
  | none => exact .pure _
  | some s => exact goes_classes.bind fun _ => .pure _

theorem goes_elementType (s : Stmt) (source : JType) : Goes F k k (elementType s source) := by
  unfold elementType
  split
  · exact .pure _
  · refine goes_classes.bind fun env => ?_
    split
    · exact .failAt _ _
    · exact .pure _

theorem goes_caughtType (acc : Option JType) (types : List TypeRef)
    (h : ∀ t ∈ types, F.Allows (.type t)) : Goes F k k (caughtType acc types) := by
  induction types generalizing acc with
  | nil => exact .pure _
  | cons t rest ih =>
    refine (goes_resolveType t (h t List.mem_cons_self)).bind fun t => ?_
    refine (goes_mergeInto acc t).bind fun merged => ?_
    exact ih (some merged) fun u hu => h u (List.mem_cons_of_mem _ hu)

/-! ## Bindings -/

theorem has_bindSymbol (hb : F.binds = true) (n : Node) (s : Symbol) :
    Has F (inTable n (bindSymbol s)) :=
  (Moves.binds_below hb (bindSymbol_binds s)).inTable n

theorem has_bindVariable (hb : F.binds = true) (s : Stmt) (name : String) (type : JType) :
    Has F (bindVariable s name type) :=
  (goes_observerOf _).bind fun _ => has_bindSymbol hb _ _

theorem goes_paramType (e : Expr) (f : FunctionType) (sam : List JType) (p : LambdaParam)
    (given : JType) (h : ∀ t ∈ p.type, F.Allows (.type t)) :
    Goes F k k (paramType e f sam p given) := by
  unfold paramType
  split
  · exact .pure _
  · rename_i t ht
    have hallows : F.Allows (.type t) := h t ht
    refine .ite ((Goes.record hallows.type given).bind fun _ => .pure _) ?_
    exact (goes_resolveType t hallows).bind fun _ => .ite (.failAt _ _) (.pure _)

theorem has_bindParams (hb : F.binds = true) (e : Expr) (f : FunctionType) (sam : List JType)
    (params : List (LambdaParam × JType))
    (h : ∀ p ∈ params, ∀ t ∈ p.1.type, F.Allows (.type t)) : Has F (bindParams e f sam params) := by
  induction params with
  | nil => exact .pure _
  | cons p rest ih =>
    refine (goes_paramType e f sam p.1 p.2 (h p List.mem_cons_self)).bind fun type => ?_
    refine (has_bindSymbol hb _ _).bind fun _ => ?_
    exact ih fun q hq => h q (List.mem_cons_of_mem _ hq)

theorem has_bindMethodParams (hb : F.binds = true) (params : List Param)
    (h : ∀ p ∈ params, F.Allows (.type p.type)) : Has F (bindMethodParams params) := by
  refine .forM _ fun p hp => ?_
  refine (goes_resolveType p.type (h p hp)).bind fun type => ?_
  refine (goes_observerOf _).bind fun observer => ?_
  exact (Moves.binds_below hb (bindSymbol_binds _)).inTableFor _

end JavaSema.Analysis
