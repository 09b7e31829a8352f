import JavaSema.Proofs.Analysis.Lookup
import JavaSema.Proofs.Catalog.Remembered

/-!
# Steps that count and name nothing

An analysis counts calls and gives names to the classes of bodies.  Few of its steps do so; this
module is about the others.

There are four groups.

* `State.model` is what an analysis knows of the classes of its unit: their names, how many classes
  each has inside its bodies, and which of them are declared.
* `Still` says that a step leaves the model and the number of calls, whatever its outcome.
* Rules for what steps are made of.
* One theorem for each function that resolves types and names or binds symbols.
-/

namespace JavaSema.Analysis

open Source

variable {α β : Type}

/-! ## The model -/

/-- The part of a catalog that names declarations. -/
def bareCatalog (c : Catalog) : Catalog := { names := c.names, counters := c.counters }

/-- What is known of the classes of a unit. -/
structure Model where
  /-- The names of declarations, and how many local and anonymous classes each class has so far. -/
  catalog : Catalog
  /-- The names of the classes that are declared. -/
  declared : List String

/-- What is known of the classes of the unit. -/
def State.model (s : State) : Model := ⟨bareCatalog s.catalog, s.declared.classes.map ClassDef.name⟩

/-- The two states know the same classes and have counted the same calls. -/
def Alike (s s' : State) : Prop := s'.calls = s.calls ∧ s'.model = s.model

theorem alike_refl (s : State) : Alike s s := ⟨rfl, rfl⟩

theorem Alike.trans {s s' s'' : State} (h : Alike s s') (h' : Alike s' s'') : Alike s s'' :=
  ⟨h'.1.trans h.1, h'.2.trans h.2⟩

/-- The step counts no call and names or declares no class, whatever its outcome. -/
def Still (m : Check α) : Prop := ∀ setting s, Alike s (exec (m setting) s).2

/-! ## Rules -/

namespace Still

theorem pure (a : α) : Still (Pure.pure a : Check α) := fun _ s => alike_refl s

theorem throw (e : AnalysisError) : Still (MonadExcept.throw e : Check α) := fun _ s => alike_refl s

theorem failAt (n : Node) (cause : ResolveError) : Still (Analysis.failAt n cause : Check α) :=
  throw _

theorem failNamed (name : String) (cause : ResolveError) :
    Still (Analysis.failNamed name cause : Check α) :=
  throw _

theorem get : Still (MonadState.get : Check State) := fun _ s => alike_refl s

theorem read : Still (MonadReader.read : Check Setting) := fun _ s => alike_refl s

theorem modify {f : State → State} (h : ∀ s, Alike s (f s)) :
    Still (modify f : Check PUnit) := fun _ s => h s

theorem bind {m : Check α} {f : α → Check β} (hm : Still m) (hf : ∀ a, Still (f a)) :
    Still (m >>= f) :=
  fun setting => Keeps.bind (R := Alike) (fun _ _ _ => Alike.trans) (hm setting) fun a => hf a setting

theorem map {m : Check α} (f : α → β) (hm : Still m) : Still (f <$> m) := by
  rw [map_eq_pure_bind]
  exact hm.bind fun a => pure (f a)

theorem discard {m : Check α} (hm : Still m) : Still (Functor.discard m) := hm.map _

theorem ite {p : Prop} [Decidable p] {m m' : Check α} (hm : Still m) (hm' : Still m') :
    Still (if p then m else m') := by
  split
  · exact hm
  · exact hm'

theorem forM (l : List β) {f : β → Check PUnit} (hf : ∀ b, Still (f b)) : Still (l.forM f) := by
  induction l with
  | nil => exact pure _
  | cons b l ih => exact bind (hf b) fun _ => ih

theorem mapM (l : List α) {f : α → Check β} (hf : ∀ a, Still (f a)) : Still (l.mapM f) := by
  induction l with
  | nil => exact pure _
  | cons a l ih =>
    rw [List.mapM_cons]
    exact bind (hf a) fun _ => bind ih fun _ => pure _

theorem foldlM (l : List α) {f : β → α → Check β} (b : β) (hf : ∀ b a, Still (f b a)) :
    Still (l.foldlM f b) := by
  induction l generalizing b with
  | nil => exact pure _
  | cons a l ih =>
    rw [List.foldlM_cons]
    exact bind (hf b a) ih

theorem optionMapM (o : Option α) {f : α → Check β} (hf : ∀ a, Still (f a)) :
    Still (o.mapM f) := by
  cases o with
  | none => exact pure _
  | some a => exact (hf a).map some

theorem record (id : NodeId) (t : JType) : Still (record id t) := fun _ _ => ⟨rfl, rfl⟩

theorem inTable (n : Node) (op : TableM α) : Still (inTable n op) := by
  intro setting s
  rw [exec_inTable]
  exact ⟨rfl, rfl⟩

theorem inTableFor (name : String) (op : TableM α) : Still (inTableFor name op) := by
  intro setting s
  rw [exec_inTableFor]
  exact ⟨rfl, rfl⟩

theorem unwindTo (depth : Nat) : Still (unwindTo depth) := by
  have hgo : ∀ n, Still (unwindTo.go n) := by
    intro n
    induction n with
    | zero => exact pure _
    | succ n ih => exact (inTableFor _ _).bind fun _ => ih
  exact get.bind fun _ => hgo _

theorem attempt {m : Check α} (hm : Still m) : Still (attempt m) := by
  intro setting s
  rw [exec_attempt]
  exact hm setting s

theorem settle (r : Except AnalysisError α) : Still (settle r) := by
  intro setting s
  rw [exec_settle]
  exact alike_refl s

theorem closing {close : Check Unit} {step : Check α} (hclose : Still close) (hstep : Still step) :
    Still (closing close step) := by
  intro setting s
  rw [(exec_closing close step setting s).1]
  exact (hstep setting s).trans (hclose setting _)

end Still

/-- A lookup in the catalog. -/
theorem still_inCatalog {op : StateM Catalog α} (h : Catalog.OnlyRemembers op) :
    Still (inCatalog op) := by
  intro setting s
  refine ⟨rfl, ?_⟩
  show (⟨bareCatalog (op.run s.catalog).2.forget, _⟩ : Model) = ⟨bareCatalog s.catalog.forget, _⟩
  rw [h s.catalog]
  rfl

/-! ## Types -/

theorem still_classes : Still classes := Still.get.bind fun _ => Still.read.bind fun _ => .pure _

theorem still_loadAt (n : Node) (name : String) : Still (loadAt n name) := by
  refine still_classes.bind fun env => ?_
  split
  · exact .pure _
  · exact .failAt _ _

theorem still_simpleType? (simple : String) : Still (simpleType? simple) := by
  refine Still.get.bind fun s => ?_
  split
  · exact .pure _
  · refine still_classes.bind fun env => ?_
    split
    · exact .pure _
    · exact (still_inCatalog (.resolve env simple)).bind fun _ => .pure _

theorem still_namedType? (name : QualifiedName) : Still (namedType? name) := by
  unfold namedType?
  split
  · exact .pure _
  · refine (still_simpleType? _).bind fun head => ?_
    split
    · exact .pure _
    · exact .ite (.pure _) (Still.get.bind fun _ => still_classes.bind fun _ => .pure _)
    · exact .pure _
    · exact still_classes.bind fun _ => .pure _

mutual

theorem still_resolveType : ∀ t : TypeRef, Still (resolveType t)
  | ⟨id, shape⟩ => by
    rw [resolveType]
    exact (still_resolveShape ⟨id, shape⟩ shape).bind fun t => (Still.record id t).bind fun _ => .pure _

theorem still_resolveShape (whole : TypeRef) : ∀ shape : TypeShape, Still (resolveShape whole shape)
  | .primitive p => by
    rw [resolveShape]
    exact .pure _
  | .void => by
    rw [resolveShape]
    exact .pure _
  | .inferred => by
    rw [resolveShape]
    exact .failAt _ _
  | .named name args => by
    rw [resolveShape]
    refine (still_namedType? name).bind fun base => ?_
    split
    · exact .failAt _ _
    · exact still_resolveArgs _ args
  | .array element dims => by
    rw [resolveShape]
    exact (still_resolveType element).bind fun _ => .pure _
  | .wild => by
    rw [resolveShape]
    exact .pure _
  | .wildUpper bound => by
    rw [resolveShape]
    exact (still_resolveType bound).bind fun _ => .pure _
  | .wildLower bound => by
    rw [resolveShape]
    exact (still_resolveType bound).bind fun _ => .pure _

theorem still_resolveArgs (base : JType) : ∀ args : Option (List TypeRef),
    Still (resolveArgs base args)
  | none => by
    rw [resolveArgs]
    exact .pure _
  | some args => by
    rw [resolveArgs]
    exact (still_resolveTypes args).bind fun _ => .pure _

theorem still_resolveTypes : ∀ ts : List TypeRef, Still (resolveTypes ts)
  | [] => by
    rw [resolveTypes]
    exact .pure _
  | t :: ts => by
    rw [resolveTypes]
    exact (still_resolveType t).bind fun _ => (still_resolveTypes ts).bind fun _ => .pure _

end

theorem still_typeParamsOf (params : List TypeParamDecl) : Still (typeParamsOf params) := by
  cases params with
  | nil => exact .pure _
  | cons first rest =>
    refine (Still.inTableFor _ _).bind fun _ => ?_
    refine Still.bind (.forM _ fun p => .inTableFor _ _) fun _ => ?_
    have hbounds : Still ((first :: rest).mapM typeParamOf) :=
      .mapM _ fun p => (still_resolveTypes p.bounds).bind fun _ => .pure _
    refine hbounds.attempt.bind fun result => ?_
    exact (Still.inTableFor _ _).bind fun _ => .settle _

/-! ## Classes -/

theorem still_binaryNameOf (d : Decl) : Still (binaryNameOf d) := by
  refine Still.get.bind fun s => ?_
  split
  · exact .pure _
  · exact .failAt _ _

theorem still_openClass (d : Decl) (binary : String) (observer : Option String) :
    Still (openClass d binary observer) := by
  refine (Still.inTable _ _).bind fun _ => (still_loadAt _ _).bind fun c => ?_
  exact (Still.inTable _ _).bind fun _ => .inTable _ _

theorem still_closeClass (d : Decl) : Still (closeClass d) := .inTable _ _

theorem still_attachMembers (d : Decl) (members : Scope) : Still (attachMembers d members) := by
  refine .modify fun s => ?_
  split
  · split
    · exact ⟨rfl, rfl⟩
    · exact alike_refl s
  · exact alike_refl s

theorem still_classHeader (d : Decl) (binary : String) (nesting : Nesting)
    (enclosing : Option String) : Still (classHeader d binary nesting enclosing) := by
  unfold classHeader
  refine (still_typeParamsOf _).bind fun typeParams => (Still.inTable _ _).bind fun _ => ?_
  refine (Still.inTable _ _).bind fun _ => ?_
  refine Still.bind (.optionMapM _ still_resolveType) fun written => ?_
  refine (still_resolveTypes _).bind fun interfaces => (Still.inTable _ _).bind fun _ => ?_
  exact Still.get.bind fun s => (Still.record _ _).bind fun _ => .pure _

theorem still_methodDef (m : MethodDecl) (inInterface : Bool) : Still (methodDef m inInterface) := by
  have htypes : ∀ typeParams, Still (methodTypes m typeParams) := by
    intro typeParams
    refine (Still.inTableFor _ _).bind fun _ => (still_resolveTypes _).bind fun params => ?_
    exact Still.bind (.optionMapM _ still_resolveType) fun _ => .pure _
  refine (still_typeParamsOf _).bind fun typeParams => (Still.inTableFor _ _).bind fun _ => ?_
  exact Still.bind (.closing (Still.inTableFor _ _).discard (htypes _)) fun _ => .pure _

theorem still_addMember (c : ClassDef) (m : Member) : Still (addMember c m) := by
  cases m with
  | field f => exact (still_resolveType f.type).bind fun base => .pure _
  | method m => exact (still_methodDef m _).bind fun definition => .ite (.pure _) (.pure _)
  | initializer | type => exact .pure _

theorem still_classMembers (d : Decl) (header : ClassDef) : Still (classMembers d header) :=
  Still.bind (.foldlM _ _ still_addMember) fun _ => .ite (.pure _) (.pure _)

/-! ## Names -/

theorem still_observerOf (n : Node) : Still (observerOf n) := Still.read.bind fun _ => .pure _

theorem still_namesType (e : Expr) : Still (namesType e) := Still.get.bind fun _ => .pure _

theorem still_markTypeName (e : Expr) : Still (markTypeName e) := .modify fun _ => ⟨rfl, rfl⟩

theorem still_currentClassName (n : Node) : Still (currentClassName n) := by
  refine Still.get.bind fun s => ?_
  split
  · exact .pure _
  · exact .failAt _ _

theorem still_currentClass (n : Node) : Still (currentClass n) :=
  (still_currentClassName n).bind fun _ => still_loadAt _ _

theorem still_readVariable (e : Expr) (name : String) : Still (readVariable e name) := by
  refine (Still.inTable _ _).bind fun found => ?_
  split
  · exact .pure _
  · exact .inTable _ _

theorem still_fieldOfClasses (e : Expr) (name : String) (owners : List String) :
    Still (fieldOfClasses e name owners) := by
  induction owners with
  | nil => exact .pure _
  | cons owner rest ih =>
    refine (still_loadAt _ _).bind fun d => still_classes.bind fun env => ?_
    split
    · exact .pure _
    · exact ih

theorem still_implicitField (e : Expr) (name : String) : Still (implicitField e name) :=
  Still.read.bind fun _ => .ite (Still.get.bind fun _ => still_fieldOfClasses e name _) (.pure _)

theorem still_importedField (name : String) : Still (importedField name) :=
  still_classes.bind fun _ => Still.get.bind fun _ => .pure _

theorem still_bareName (e : Expr) (name : String) (beforeDot : Bool) :
    Still (bareName e name beforeDot) := by
  refine (still_readVariable e name).bind fun found => ?_
  split
  · exact .pure _
  refine (still_simpleType? name).bind fun found => ?_
  split
  · exact (still_markTypeName e).bind fun _ => .pure _
  refine (still_implicitField e name).bind fun found => ?_
  split
  · exact .pure _
  refine (still_importedField name).bind fun found => ?_
  split
  · exact .pure _
  exact .ite (.pure _) (.failAt _ _)

theorem still_nameInPackage (e : Expr) (package name : String) (beforeDot : Bool) :
    Still (nameInPackage e package name beforeDot) := by
  refine still_classes.bind fun env => ?_
  split
  · exact (still_markTypeName e).bind fun _ => .pure _
  · exact .ite (.pure _) (.failAt _ _)

theorem still_nameInType (e : Expr) (owner : JType) (name : String) :
    Still (nameInType e owner name) := by
  refine still_classes.bind fun env => ?_
  split
  · exact .pure _
  · refine Still.get.bind fun s => ?_
    split
    · exact (still_markTypeName e).bind fun _ => .pure _
    · exact .failAt _ _

theorem still_nameInValue (e : Expr) (owner : JType) (name : String) :
    Still (nameInValue e owner name) := by
  refine .ite (.pure _) (still_classes.bind fun env => ?_)
  split
  · exact .pure _
  · exact .failAt _ _

/-! ## Expressions and statements -/

theorem still_lambdaShape (params : List LambdaParam) (body : LambdaBody) :
    Still (lambdaShape params body) :=
  Still.bind (.optionMapM _ still_resolveTypes) fun _ => .pure _

theorem still_methodsOfClasses (e : Expr) (name : String) (owners : List String) :
    Still (methodsOfClasses e name owners) := by
  induction owners with
  | nil => exact .pure _
  | cons owner rest ih =>
    refine (still_loadAt _ _).bind fun d => still_classes.bind fun env => ?_
    split
    · exact ih
    · exact .pure _

theorem still_bareMethods (e : Expr) (name : String) : Still (bareMethods e name) := by
  refine Still.get.bind fun s => (still_methodsOfClasses e name _).bind fun found => ?_
  split
  · exact still_classes.bind fun _ => Still.get.bind fun _ => .pure _
  · exact .pure _

theorem still_methodsOf (receiver : Expr) (t : JType) (name : String) :
    Still (methodsOf receiver t name) :=
  still_classes.bind fun _ => (still_namesType receiver).bind fun _ => .ite (.pure _) (.pure _)

theorem still_valueOf (e : Expr) (cause : String → ResolveError) (d : Denotation) :
    Still (valueOf e cause d) := by
  cases d with
  | value t => exact .pure _
  | package dotted => exact .failAt _ _

theorem still_recordWrite (e : Expr) : Still (recordWrite e) := by
  unfold recordWrite
  split
  · exact (Still.inTable _ _).discard
  · exact .pure _

theorem still_operatorType (e : Expr) (op : BinaryOp) (left right : JType) :
    Still (operatorType e op left right) := by
  unfold operatorType
  split
  · exact .pure _
  · exact .failAt _ _

theorem still_checkSelf (e : Expr) (qualifier : Option QualifiedName) :
    Still (checkSelf e qualifier) := by
  cases qualifier with
  | none => exact (still_currentClass _).bind fun _ => .pure _
  | some qualifier =>
    refine (still_namedType? qualifier).bind fun found => ?_
    split
    · exact .failAt _ _
    · refine Still.get.bind fun s => .ite (.failAt _ _) ?_
      exact (still_loadAt _ _).bind fun _ => .pure _

theorem still_mergeInto (before : Option JType) (t : JType) : Still (mergeInto before t) := by
  cases before with
  | none => exact .pure _
  | some s => exact still_classes.bind fun _ => .pure _

theorem still_elementType (s : Stmt) (source : JType) : Still (elementType s source) := by
  unfold elementType
  split
  · exact .pure _
  · refine still_classes.bind fun env => ?_
    split
    · exact .failAt _ _
    · exact .pure _

theorem still_caughtType (acc : Option JType) (types : List TypeRef) :
    Still (caughtType acc types) := by
  induction types generalizing acc with
  | nil => exact .pure _
  | cons t rest ih =>
    exact (still_resolveType t).bind fun t => (still_mergeInto acc t).bind fun merged => ih _

/-! ## Bindings -/

theorem still_bindVariable (s : Stmt) (name : String) (type : JType) :
    Still (bindVariable s name type) :=
  (still_observerOf _).bind fun _ => .inTable _ _

theorem still_paramType (e : Expr) (f : FunctionType) (sam : List JType) (p : LambdaParam)
    (given : JType) : Still (paramType e f sam p given) := by
  unfold paramType
  split
  · exact .pure _
  · refine .ite ((Still.record _ _).bind fun _ => .pure _) ?_
    exact (still_resolveType _).bind fun _ => .ite (.failAt _ _) (.pure _)

theorem still_bindParams (e : Expr) (f : FunctionType) (sam : List JType)
    (params : List (LambdaParam × JType)) : Still (bindParams e f sam params) := by
  induction params with
  | nil => exact .pure _
  | cons p rest ih =>
    exact (still_paramType e f sam p.1 p.2).bind fun _ => (Still.inTable _ _).bind fun _ => ih

theorem still_bindMethodParams (params : List Param) : Still (bindMethodParams params) := by
  refine .forM _ fun p => (still_resolveType p.type).bind fun type => ?_
  exact (still_observerOf _).bind fun observer => .inTableFor _ _

end JavaSema.Analysis
