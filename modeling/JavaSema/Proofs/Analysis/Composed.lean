import JavaSema.Proofs.Analysis.Nested

/-!
# Analyses are composed of steps

A compositional property of steps holds of the check of every node of a unit.

There are four groups.

* Classes in bodies are declared before they are checked, so a compositional property is one of nested
  checks.
* One theorem for each function that checks bodies of classes, which takes a checker that has the
  property at the nodes of the unit.
* The induction over heights.
* `OfUnits` is what has to be shown besides of a property that holds of the analysis of a whole unit.
-/

namespace JavaSema.Analysis

open Source

namespace Compositional

variable {u : SourceUnit} {P : ⦃α : Type⦄ → Check α → Prop}

section

variable {c : Checker} (h : Compositional u P)

include h

/-! ## Classes in bodies -/

theorem checkAnonymous (n : Node) (d : Decl) (base : JType) (hbody : u.bodyClasses ≠ [])
    (hdecl : P (c.decl d)) : P (Analysis.checkAnonymous c n d base) := by
  unfold Analysis.checkAnonymous
  apply h.bind (h.currentClassName n)
  intro enclosing
  apply h.bind (h.inCatalog hbody (.nameLocal d enclosing ""))
  intro binary
  apply h.bind (h.inCatalog hbody (.nameNested d))
  intro _
  apply h.bind (h.loadAt _ _)
  intro parent
  apply h.look
  · intro s s' hs
    have hnames : memberNames s.catalog d = memberNames s'.catalog d := by
      rw [memberNames, memberNames, funext hs.catalog.binaryName?]
    dsimp only [anonymousHeader]
    rw [hnames]
  intro s
  apply h.bind (h.record _ _)
  intro _
  apply h.bind (h.declareBody (h.declare hbody) d _)
  intro _
  exact h.bind hdecl fun _ => h.pure _

theorem checkLocalClass (s : Stmt) (d : Decl) (hbody : u.bodyClasses ≠ [])
    (hdecl : P (c.decl d)) : P (Analysis.checkLocalClass c s d) := by
  unfold Analysis.checkLocalClass
  apply h.bind (h.currentClassName _)
  intro enclosing
  apply h.bind (h.inCatalog hbody (.nameLocal d enclosing d.name))
  intro binary
  apply h.bind (h.inCatalog hbody (.nameNested d))
  intro _
  apply h.bind (h.observerOf _)
  intro observer
  apply h.bind (h.inTable (.bindSymbol _) (.bindSymbol (by simp)) _)
  intro _
  apply h.bind (h.classHeader d binary _ _)
  intro header
  exact h.bind (h.declareBody (h.declare hbody) d header) fun _ => hdecl

/-- A compositional property is one of the checks of the nodes of the unit. -/
theorem nested : Nested (· ∈ u.nodes) P where
  toLooking := h.toLooking
  child := SourceUnit.child_mem_nodes
  inTableThen hop _ hkeeps n := h.inTableThen hop hkeeps n
  inBlock n := h.inBlock n
  withFrame frame := h.withFrame frame
  noteReturn t := h.frames (noteReturn t)
  calls := h.calls
  retrying := h.retrying
  simpleType? := h.simpleType?
  namesType := h.namesType
  markTypeName := h.markTypeName
  typeOf? := h.typeOf?
  anonymous {_ e d} base he hd hdecl := by
    have hstop : Stop.bodyClass d "" ∈ (Node.expr e).stops := List.mem_filterMap.mpr ⟨_, hd, rfl⟩
    exact h.checkAnonymous _ d base (SourceUnit.bodyClasses_ne_nil he hstop) hdecl
  localClass {_ s d} hs hd hdecl := by
    have hstop : Stop.bodyClass d d.name ∈ (Node.stmt s).stops :=
      List.mem_filterMap.mpr ⟨_, hd, rfl⟩
    exact h.checkLocalClass s d (SourceUnit.bodyClasses_ne_nil hs hstop) hdecl

/-! ## Bodies of classes -/

theorem bindMethodParams (params : List Param) : P (Analysis.bindMethodParams params) := by
  apply h.forM
  intro p _
  apply h.bind (h.resolveType p.type)
  intro type
  exact h.bind (h.observerOf _) fun _ => h.inTableFor (.bindSymbol _) (.bindSymbol (by simp)) _

variable (hc : c.Has (· ∈ u.nodes) P)

include hc

theorem checkConstant (d : Decl) (owner : ClassDef) (constant : EnumConstant)
    (hparts : ∀ n ∈ constant.children, n ∈ u.nodes)
    (hsome : ∀ body ∈ constant.body, u.bodyClasses ≠ []) :
    P (Analysis.checkConstant c d owner constant) := by
  simp only [EnumConstant.children, List.forall_mem_append, List.forall_mem_map,
    Option.mem_toList] at hparts
  obtain ⟨hargs, hbody⟩ := hparts
  unfold Analysis.checkConstant
  apply h.bind (h.nested.classifyArgs hc _ hargs)
  intro known
  apply h.bind h.classes
  intro env
  apply h.bind h.read
  intro setting
  apply h.bind (h.nested.completeBest hc _ hargs _)
  intro best
  cases best with
  | none => exact h.failNamed _ _
  | some a =>
    apply h.bind (h.nested.recordCall _ _)
    intro _
    cases hconstant : constant.body with
    | some body =>
      have hdecl := hc.decl body (hbody body hconstant)
      exact h.discard (h.checkAnonymous _ body _ (hsome body hconstant) hdecl)
    | none => exact h.pure _

theorem checkMethod (d : Decl) (m : MethodDecl) (hbody : ∀ body ∈ m.body, Node.stmt body ∈ u.nodes) :
    P (Analysis.checkMethod c d m) := by
  unfold Analysis.checkMethod
  split
  · rename_i body hsome
    apply h.bind (h.typeParamsOf m.typeParams)
    intro typeParams
    apply h.bind (h.inTable (SymbolTable.uniform_pushScope _ _) (.pushScope _ _) _)
    intro _
    apply h.closing (h.discardInTable SymbolTable.uniform_popScope .popScope _)
    apply h.bind (h.inTableFor (.bindTypeParams _) (.bindTypeParams _) _)
    intro _
    apply h.bind (h.bindMethodParams m.params)
    intro _
    apply h.bind (h.optionMapM _ fun t _ => h.resolveType t)
    intro returnType
    exact h.discard (h.withFrame _ (hc.stmt body (hbody body hsome)))
  · exact h.pure _

theorem checkMember (d : Decl) (owner : ClassDef) (m : Member)
    (hparts : ∀ n ∈ m.children, n ∈ u.nodes) : P (Analysis.checkMember c d owner m) := by
  cases m with
  | field f =>
    simp only [Member.children, List.forall_mem_append, List.forall_mem_map,
      List.forall_mem_singleton, forall_mem_inits] at hparts
    apply h.forM
    intro v hv
    cases hinit : v.init with
    | some e => exact h.discard (h.withFrame _ (hc.expr e _ (hparts.2 v hv e hinit)))
    | none => exact h.pure _
  | method m =>
    simp only [Member.children, List.forall_mem_append, List.forall_mem_map,
      Option.mem_toList] at hparts
    exact h.checkMethod hc d m hparts.2
  | initializer isStatic body =>
    simp only [Member.children, List.forall_mem_singleton] at hparts
    exact h.discard (h.withFrame _ (hc.stmt body hparts))
  | type nested =>
    simp only [Member.children, List.forall_mem_singleton] at hparts
    exact hc.decl nested hparts

theorem checkDecl (d : Decl) (hd : Node.decl d ∈ u.nodes) : P (Analysis.checkDecl c d) := by
  have hparts : ∀ n ∈ (Node.decl d).children, n ∈ u.nodes :=
    fun n hn => SourceUnit.child_mem_nodes hd hn
  simp only [Node.children, Decl.children, List.forall_mem_append, List.forall_mem_map,
    List.forall_mem_flatMap] at hparts
  obtain ⟨⟨-, hconstants⟩, hmembers⟩ := hparts
  apply h.bind (h.binaryNameOf d)
  intro binary
  apply h.bind (h.observerOf _)
  intro observer
  have hsome : ∀ k ∈ d.constants, ∀ body ∈ k.body, u.bodyClasses ≠ [] := by
    intro k hk body hbody
    have hchild : Node.decl body ∈ d.constants.flatMap EnumConstant.children :=
      List.mem_flatMap.mpr ⟨k, hk, by simp [EnumConstant.children, Option.mem_def.mp hbody]⟩
    have hstop : Stop.bodyClass body "" ∈ (Node.decl d).stops :=
      List.mem_append_left _ (List.mem_filterMap.mpr ⟨_, hchild, rfl⟩)
    exact SourceUnit.bodyClasses_ne_nil hd hstop
  apply h.inBody d binary observer
  intro owner
  apply h.bind (h.forM _ fun k hk => h.checkConstant hc d owner k (hconstants k hk) (hsome k hk))
  intro _
  exact h.forM _ fun m hm => h.checkMember hc d owner m (hmembers m hm)

end

/-! ## All heights -/

theorem upTo (h : Compositional u P) (height : Nat) : (Checker.upTo height).Has (· ∈ u.nodes) P :=
  h.nested.upTo (fun _ hc => h.checkDecl hc) height

end Compositional

/-! ## Units -/

/-- The steps of the analysis of a unit. -/
def unitSteps (u : SourceUnit) : Check Unit := do
  declareUnit u
  checkUnit u

theorem analyzeFrom_eq (setting : Setting) (u : SourceUnit) (typings : Typings) :
    analyzeFrom setting u typings =
      let run := exec (unitSteps u setting) (start setting u typings)
      (run.1.map fun _ => summarize u run.2, run.2) := rfl

/-- The property also holds of the steps around the classes of a unit, which exchange the symbol table
and bind the types of the catalog, and of those that declare classes. -/
structure OfUnits (u : SourceUnit) (P : ⦃α : Type⦄ → Check α → Prop) : Prop
    extends Compositional u P where
  /-- What follows does not look at recorded types. -/
  get : ∀ {α : Type} {k : State → Check α}, (∀ s typings, k { s with typings } = k s) →
    (∀ s, P (k s)) → P (MonadState.get >>= k)
  setTable : ∀ t : SymbolTable, P (modify fun s => { s with table := t })
  inTableFor : ∀ {α : Type} (name : String) (op : TableM α), P (inTableFor name op)
  declares : ∀ c, P (Analysis.declare c)

namespace OfUnits

variable {u : SourceUnit} {P : ⦃α : Type⦄ → Check α → Prop} (h : OfUnits u P)

include h

theorem declareTopLevel (d : Decl) : P (Analysis.declareTopLevel d) := by
  apply h.bind (h.binaryNameOf d)
  intro binary
  exact h.bind (h.classHeader _ _ _ _) fun _ => h.declareHeader h.declares _ _ _

theorem declareUnit : P (Analysis.declareUnit u) := by
  unfold Analysis.declareUnit
  apply h.get (fun _ _ => rfl)
  intro s
  apply h.bind (h.setTable _)
  intro _
  refine h.bind (h.attempt ?_) fun result => h.bind (h.setTable _) fun _ => h.settle result
  apply h.bind (h.inTableFor _ _)
  intro _
  apply h.get (fun _ _ => rfl)
  intro s
  apply h.bind (h.inTableFor _ _)
  intro _
  apply h.bind (h.forM _ fun d _ => h.declareTopLevel d)
  intro _
  exact h.forM _ fun d _ => h.declareMembers h.declares _ d

theorem checkUnit : P (Analysis.checkUnit u) := by
  apply h.bind h.read
  intro setting
  apply h.bind (h.setTable _)
  intro _
  apply h.bind (h.inTableFor _ _)
  intro _
  apply h.get (fun _ _ => rfl)
  intro s
  apply h.bind (h.inTableFor _ _)
  intro _
  have hdecls : ∀ d ∈ u.types, P ((Checker.upTo u.height).decl d) := by
    intro d hd
    apply (h.upTo u.height).decl d
    exact SourceUnit.mem_nodes_iff.mpr ⟨d, hd, Node.self_mem_subtree _⟩
  exact h.bind (h.forM _ hdecls) fun _ => h.discard (h.inTableFor _ _)

theorem unitSteps : P (Analysis.unitSteps u) := h.bind h.declareUnit fun _ => h.checkUnit

end OfUnits

end JavaSema.Analysis
