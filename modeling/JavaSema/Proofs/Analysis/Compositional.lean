import JavaSema.Proofs.Analysis.Walk
import JavaSema.Proofs.Catalog.Remembered
import JavaSema.Proofs.Scope.Methods
import JavaSema.Proofs.Source.BodyClasses

/-!
# Compositional properties of steps

An analysis is composed of a few kinds of steps.  A property of steps that holds of each kind and
passes to sequences of steps holds of all of them.

There are six groups.

* `Naming` is what has to be shown of a property for the steps that resolve types.
* `Resolving` adds operations on the symbol table, for the steps that give classes their members.
* `Looking` adds to `Naming` that steps may look at the setting and at the state.
* `Compositional` adds to both the other steps that the bodies of a unit are checked with.
* One theorem for each function that declares classes.
* `OfNames` is what has to be shown of a property of the symbol table and the catalog alone.

## Implementation notes

What a step looks at in the state it takes as little of as it can: the bindings by name, the catalog
without what it remembers, and the frames.  An operation on the symbol table may give a symbol, of
which the next step sees all but the identity.
-/

namespace JavaSema.Analysis

open Source

variable {α β γ : Type}

/-! ## Types -/

/-- The name that the node is, if it is a type that is named. -/
def typeName? : Node → Option QualifiedName
  | .type ⟨_, .named name _⟩ => some name
  | .type _ | .expr _ | .stmt _ | .decl _ => none

/-- The names in a type. -/
def namesIn (t : TypeRef) : List QualifiedName := (Node.type t).subtree.filterMap typeName?

theorem namesIn_child {t r : TypeRef} (h : Node.type r ∈ (Node.type t).children) :
    namesIn r ⊆ namesIn t := by
  intro name hname
  obtain ⟨n, hn, hnamed⟩ := List.mem_filterMap.mp hname
  exact List.mem_filterMap.mpr ⟨n, Node.mem_subtree_of_child h hn, hnamed⟩

/-- The property passes to sequences of steps and holds of those that look up the given names of
types. -/
structure Naming (N : QualifiedName → Prop) (P : ⦃α : Type⦄ → Check α → Prop) : Prop where
  pure : ∀ {α : Type} (a : α), P (Pure.pure a : Check α)
  throw : ∀ {α : Type} (e : AnalysisError), P (MonadExcept.throw e : Check α)
  bind : ∀ {α β : Type} {m : Check α} {k : α → Check β}, P m → (∀ a, P (k a)) → P (m >>= k)
  record : ∀ id t, P (record id t)
  namedType? : ∀ name, N name → P (namedType? name)

namespace Naming

variable {N : QualifiedName → Prop} {P : ⦃α : Type⦄ → Check α → Prop} (h : Naming N P)

include h

theorem failNamed (name : String) (cause : ResolveError) :
    P (Analysis.failNamed name cause : Check α) :=
  h.throw _

theorem failAt (n : Node) (cause : ResolveError) : P (Analysis.failAt n cause : Check α) :=
  h.throw _

theorem map {m : Check α} (f : α → β) (hm : P m) : P (f <$> m) := by
  rw [map_eq_pure_bind]
  exact h.bind hm fun a => h.pure (f a)

theorem discard {m : Check α} (hm : P m) : P (Functor.discard m) := h.map _ hm

theorem forM (l : List β) {f : β → Check PUnit} (hf : ∀ b ∈ l, P (f b)) : P (l.forM f) := by
  induction l with
  | nil => exact h.pure _
  | cons b l ih =>
    apply h.bind (hf b List.mem_cons_self)
    intro _
    exact ih fun c hc => hf c (List.mem_cons_of_mem _ hc)

theorem mapM (l : List α) {f : α → Check β} (hf : ∀ a ∈ l, P (f a)) : P (l.mapM f) := by
  induction l with
  | nil => exact h.pure _
  | cons a l ih =>
    rw [List.mapM_cons]
    apply h.bind (hf a List.mem_cons_self)
    intro _
    apply h.bind (ih fun c hc => hf c (List.mem_cons_of_mem _ hc))
    intro _
    exact h.pure _

theorem foldlM (l : List α) {f : β → α → Check β} (b : β) (hf : ∀ b a, P (f b a)) :
    P (l.foldlM f b) := by
  induction l generalizing b with
  | nil => exact h.pure _
  | cons a l ih =>
    rw [List.foldlM_cons]
    exact h.bind (hf b a) ih

theorem optionMapM (o : Option α) {f : α → Check β} (hf : ∀ a ∈ o, P (f a)) : P (o.mapM f) := by
  cases o with
  | none => exact h.pure _
  | some a => exact h.map some (hf a rfl)

theorem settle (r : Except AnalysisError α) : P (Analysis.settle r) := by
  cases r with
  | ok a => exact h.pure a
  | error e => exact h.throw e

mutual

theorem resolveNames : ∀ t : TypeRef, (∀ name ∈ namesIn t, N name) → P (resolveType t)
  | ⟨id, shape⟩, hnames => by
    rw [resolveType]
    apply h.bind (resolveNamesOfShape ⟨id, shape⟩ shape rfl hnames)
    intro t
    exact h.bind (h.record id t) fun _ => h.pure _

theorem resolveNamesOfShape (whole : TypeRef) : ∀ shape : TypeShape, whole.shape = shape →
    (∀ name ∈ namesIn whole, N name) → P (resolveShape whole shape)
  | .primitive p, _, _ => by
    rw [resolveShape]
    exact h.pure _
  | .void, _, _ => by
    rw [resolveShape]
    exact h.pure _
  | .inferred, _, _ => by
    rw [resolveShape]
    exact h.failAt _ _
  | .named name args, hshape, hnames => by
    rw [resolveShape]
    obtain ⟨id, shape⟩ := whole
    obtain rfl : shape = .named name args := hshape
    have hname : N name :=
      hnames name (List.mem_filterMap.mpr ⟨_, Node.self_mem_subtree _, rfl⟩)
    apply h.bind (h.namedType? name hname)
    intro base
    split
    · exact h.failAt _ _
    · refine resolveNamesOfArgs _ args fun ts hts t ht n hn => hnames n (namesIn_child ?_ hn)
      simp [Node.children, TypeRef.children, hts, ht]
  | .array element dims, hshape, hnames => by
    rw [resolveShape]
    have hchild : Node.type element ∈ (Node.type whole).children := by
      simp [Node.children, TypeRef.children, hshape]
    exact h.bind (resolveNames element fun n hn => hnames n (namesIn_child hchild hn)) fun _ => h.pure _
  | .wild, _, _ => by
    rw [resolveShape]
    exact h.pure _
  | .wildUpper bound, hshape, hnames => by
    rw [resolveShape]
    have hchild : Node.type bound ∈ (Node.type whole).children := by
      simp [Node.children, TypeRef.children, hshape]
    exact h.bind (resolveNames bound fun n hn => hnames n (namesIn_child hchild hn)) fun _ => h.pure _
  | .wildLower bound, hshape, hnames => by
    rw [resolveShape]
    have hchild : Node.type bound ∈ (Node.type whole).children := by
      simp [Node.children, TypeRef.children, hshape]
    exact h.bind (resolveNames bound fun n hn => hnames n (namesIn_child hchild hn)) fun _ => h.pure _

theorem resolveNamesOfArgs (base : JType) : ∀ args : Option (List TypeRef),
    (∀ ts, args = some ts → ∀ t ∈ ts, ∀ name ∈ namesIn t, N name) → P (resolveArgs base args)
  | none, _ => by
    rw [resolveArgs]
    exact h.pure _
  | some args, hnames => by
    rw [resolveArgs]
    exact h.bind (resolveNamesOfEach args (hnames args rfl)) fun _ => h.pure _

theorem resolveNamesOfEach : ∀ ts : List TypeRef, (∀ t ∈ ts, ∀ name ∈ namesIn t, N name) →
    P (resolveTypes ts)
  | [], _ => by
    rw [resolveTypes]
    exact h.pure _
  | t :: ts, hnames => by
    rw [resolveTypes]
    obtain ⟨hfirst, hrest⟩ := List.forall_mem_cons.mp hnames
    apply h.bind (resolveNames t hfirst)
    intro _
    exact h.bind (resolveNamesOfEach ts hrest) fun _ => h.pure _

end

end Naming

section

variable {P : ⦃α : Type⦄ → Check α → Prop} (h : Naming (fun _ => True) P)

include h

theorem Naming.resolveType (t : TypeRef) : P (Analysis.resolveType t) :=
  h.resolveNames t fun _ _ => trivial

theorem Naming.resolveTypes (ts : List TypeRef) : P (Analysis.resolveTypes ts) :=
  h.resolveNamesOfEach ts fun _ _ _ _ => trivial

end

/-! ## Members -/

/-- The property also holds of steps that turn a failure into a value, and of operations on the symbol
table that do not depend on identities and bind no methods. -/
structure Resolving (P : ⦃α : Type⦄ → Check α → Prop) : Prop extends Naming (fun _ => True) P where
  attempt : ∀ {α : Type} {m : Check α}, P m → P (attempt m)
  /-- What follows does not look at the identity of a symbol. -/
  tryTable : ∀ {α β γ : Type} {op : TableM α} {view : α → γ} {k : Except ResolveError α → Check β},
    SymbolTable.Uniform view op → SymbolTable.KeepsBodies op →
      (∀ r r', r.map view = r'.map view → k r = k r') → (∀ r, P (k r)) → P (tryTable op >>= k)

theorem of_ite {P : ⦃α : Type⦄ → Check α → Prop} {p : Prop} [Decidable p] {m m' : Check α} (hm : P m)
    (hm' : P m') : P (if p then m else m') := by
  split
  · exact hm
  · exact hm'

namespace Resolving

open SymbolTable (Uniform KeepsBodies)

variable {P : ⦃α : Type⦄ → Check α → Prop} (h : Resolving P)

include h

/-- An operation on the symbol table, and what follows. -/
theorem inTableForThen {op : TableM α} {view : α → γ} (hop : Uniform view op)
    (hkeeps : KeepsBodies op) (name : String) {k : α → Check β} (hsame : ∀ a a', view a = view a' → k a = k a') (hk : ∀ a, P (k a)) :
    P (Analysis.inTableFor name op >>= k) := by
  rw [Analysis.inTableFor, bind_assoc]
  apply h.tryTable hop hkeeps
  · rintro (e | a) (e' | a') hview
    · cases hview
      rfl
    · cases hview
    · cases hview
    · exact hsame a a' (Except.ok.inj hview)
  · rintro (e | a)
    · exact h.throw _
    · exact hk a

theorem inTableThen {op : TableM α} {view : α → γ} (hop : Uniform view op)
    (hkeeps : KeepsBodies op) (n : Node) {k : α → Check β} (hsame : ∀ a a', view a = view a' → k a = k a') (hk : ∀ a, P (k a)) :
    P (Analysis.inTable n op >>= k) :=
  h.inTableForThen hop hkeeps (title n) hsame hk

theorem inTableFor {op : TableM α} (hop : Uniform id op) (hkeeps : KeepsBodies op) (name : String) :
    P (Analysis.inTableFor name op) := by
  rw [← bind_pure (Analysis.inTableFor name op)]
  exact h.inTableForThen hop hkeeps name (fun _ _ => congrArg _) h.pure

theorem inTable {op : TableM α} (hop : Uniform id op) (hkeeps : KeepsBodies op) (n : Node) :
    P (Analysis.inTable n op) :=
  h.inTableFor hop hkeeps (title n)

/-- An operation whose result is not looked at. -/
theorem discardInTableFor {op : TableM α} {view : α → γ} (hop : Uniform view op)
    (hkeeps : KeepsBodies op) (name : String) :
    P (Functor.discard (Analysis.inTableFor name op)) := by
  show P ((fun _ => PUnit.unit) <$> Analysis.inTableFor name op)
  rw [map_eq_pure_bind]
  exact h.inTableForThen hop hkeeps name (fun _ _ _ => rfl) fun _ => h.pure _

theorem discardInTable {op : TableM α} {view : α → γ} (hop : Uniform view op)
    (hkeeps : KeepsBodies op) (n : Node) : P (Functor.discard (Analysis.inTable n op)) :=
  h.discardInTableFor hop hkeeps (title n)

theorem closing {close : Check Unit} {step : Check α} (hclose : P close) (hstep : P step) :
    P (Analysis.closing close step) := by
  apply h.bind (h.attempt hstep)
  intro result
  apply h.bind (h.attempt hclose)
  intro closed
  apply h.bind (h.settle result)
  intro a
  exact h.bind (h.settle closed) fun _ => h.pure a

theorem typeParamsOf (params : List TypeParamDecl) : P (Analysis.typeParamsOf params) := by
  cases params with
  | nil => exact h.pure _
  | cons first rest =>
    apply h.bind (h.inTableFor (SymbolTable.uniform_pushScope _ _) (.pushScope _ _) _)
    intro _
    apply h.bind (h.forM _ fun p _ => h.inTableFor (.bindSymbol _) (.bindSymbol (by simp)) _)
    intro _
    have hbounds : P ((first :: rest).mapM typeParamOf) :=
      h.mapM _ fun p _ => h.bind (h.resolveTypes p.bounds) fun _ => h.pure _
    apply h.bind (h.attempt hbounds)
    intro result
    exact h.inTableForThen SymbolTable.uniform_popScope .popScope _ (fun _ _ _ => rfl) fun _ => h.settle _

theorem methodDef (m : MethodDecl) (inInterface : Bool) : P (Analysis.methodDef m inInterface) := by
  have htypes : ∀ typeParams, P (methodTypes m typeParams) := by
    intro typeParams
    apply h.bind (h.inTableFor (.bindTypeParams _) (.bindTypeParams _) _)
    intro _
    apply h.bind (h.resolveTypes _)
    intro params
    exact h.bind (h.optionMapM _ fun t _ => h.resolveType t) fun _ => h.pure _
  apply h.bind (h.typeParamsOf _)
  intro typeParams
  apply h.bind (h.inTableFor (SymbolTable.uniform_pushScope _ _) (.pushScope _ _) _)
  intro _
  have hpop := h.discardInTableFor SymbolTable.uniform_popScope .popScope m.name
  exact h.bind (h.closing hpop (htypes _)) fun _ => h.pure _

theorem addMember (c : ClassDef) (m : Member) : P (Analysis.addMember c m) := by
  cases m with
  | field f => exact h.bind (h.resolveType f.type) fun base => h.pure _
  | method m =>
    apply h.bind (h.methodDef m _)
    intro definition
    exact of_ite (h.pure _) (h.pure _)
  | initializer | type => exact h.pure _

theorem classMembers (d : Decl) (header : ClassDef) : P (Analysis.classMembers d header) := by
  apply h.bind (h.foldlM _ _ h.addMember)
  intro c
  exact of_ite (h.pure _) (h.pure _)

/-- The type parameters and the member classes of a class are bound in its scope. -/
theorem bindHeader (n : Node) (c : ClassDef) : P (do
    Analysis.inTable n (bindTypeParams c.typeParams)
    Analysis.inTable n <| c.memberClasses.forM fun member =>
      bindSymbol { name := Text.afterLast '$' member, kind := .type, type := .ofClass member }) := by
  apply h.bind (h.inTable (.bindTypeParams _) (.bindTypeParams _) _)
  intro _
  exact h.inTable (.forM _ fun _ => .bindSymbol _) (.forM _ fun _ _ => .bindSymbol (by simp)) _

end Resolving

/-! ## Looking at the state -/

/-- The states look alike. -/
structure State.Like (s s' : State) : Prop where
  /-- Names are bound alike. -/
  scopes : s.table.scopes.map Scope.plain = s'.table.scopes.map Scope.plain
  /-- The catalogs differ at most in what they remember. -/
  catalog : s.catalog.Same s'.catalog
  /-- The same is being returned from. -/
  frames : s.frames = s'.frames

namespace State.Like

variable {s s' : State} (h : s.Like s')

include h

theorem enclosingClasses : s.table.enclosingClasses = s'.table.enclosingClasses :=
  filterMap_owner_plain h.scopes

theorem innermostClass? : s.table.innermostClass? = s'.table.innermostClass? :=
  congrArg List.head? h.enclosingClasses

theorem eraseOpen : Analysis.eraseOpen s.table = Analysis.eraseOpen s'.table :=
  SymbolTable.eraseOpen_plain h.scopes

end State.Like

/-- The operations that an analysis runs on its catalog: names are looked up, and the classes in bodies
get theirs. -/
inductive CatalogOp : {α : Type} → StateM Catalog α → Prop
  /-- What a simple name denotes. -/
  | resolve (env : ClassEnv) (simple : String) : CatalogOp (Catalog.resolve env simple)
  /-- The name of a class in a body. -/
  | nameLocal (d : Decl) (enclosing simple : String) :
    CatalogOp (fun c => c.nameLocal d enclosing simple : StateM Catalog String)
  /-- The names of its member classes. -/
  | nameNested (d : Decl) : CatalogOp (modify fun c => c.nameNested d)

/-- The property passes to sequences of steps and holds of those that look at the setting or at the
state, or change the catalog. -/
structure Remembering (P : ⦃α : Type⦄ → Check α → Prop) : Prop where
  pure : ∀ {α : Type} (a : α), P (Pure.pure a : Check α)
  bind : ∀ {α β : Type} {m : Check α} {k : α → Check β}, P m → (∀ a, P (k a)) → P (m >>= k)
  get : P (MonadState.get : Check State)
  read : P (MonadReader.read : Check Setting)
  inCatalog : ∀ {α : Type} {op : StateM Catalog α}, CatalogOp op → P (inCatalog op)

namespace Remembering

variable {P : ⦃α : Type⦄ → Check α → Prop} (h : Remembering P)

include h

theorem classes : P classes := h.bind h.get fun _ => h.bind h.read fun _ => h.pure _

theorem simpleType? (simple : String) : P (simpleType? simple) := by
  apply h.bind h.get
  intro s
  split
  · exact h.pure _
  · apply h.bind h.classes
    intro env
    split
    · exact h.pure _
    · exact h.bind (h.inCatalog (.resolve env simple)) fun _ => h.pure _

theorem namedType? (name : QualifiedName) : P (namedType? name) := by
  unfold Analysis.namedType?
  split
  · exact h.pure _
  · apply h.bind (h.simpleType? _)
    intro head
    split
    · exact h.pure _
    · exact of_ite (h.pure _) (h.bind h.get fun _ => h.bind h.classes fun _ => h.pure _)
    · exact h.pure _
    · exact h.bind h.classes fun _ => h.pure _

end Remembering

/-- The property also holds of steps that look at the setting and at the state. -/
structure Looking (P : ⦃α : Type⦄ → Check α → Prop) : Prop extends Naming (fun _ => True) P where
  read : P (MonadReader.read : Check Setting)
  classes : P classes
  /-- What follows is the same for states that look alike. -/
  look : ∀ {α : Type} {k : State → Check α}, (∀ s s', s.Like s' → k s = k s') → (∀ s, P (k s)) →
    P (MonadState.get >>= k)

namespace Looking

variable {P : ⦃α : Type⦄ → Check α → Prop} (h : Looking P)

include h

theorem observerOf (n : Node) : P (Analysis.observerOf n) := h.bind h.read fun _ => h.pure _

theorem loadAt (n : Node) (name : String) : P (Analysis.loadAt n name) := by
  apply h.bind h.classes
  intro env
  split
  · exact h.pure _
  · exact h.failAt _ _

theorem currentClassName (n : Node) : P (Analysis.currentClassName n) := by
  apply h.look
  · intro s s' hs
    rw [hs.innermostClass?]
  intro s
  split
  · exact h.pure _
  · exact h.failAt _ _

/-- Opening the body of a class binds its type parameters and member classes. -/
theorem openClass (hsteps : Resolving P) (d : Decl) (binary : String) (observer : Option String) :
    P (Analysis.openClass d binary observer) := by
  apply h.bind (hsteps.inTable (SymbolTable.uniform_pushClassScope _ _) (.pushClassScope _ _) _)
  intro _
  apply h.bind (h.loadAt _ _)
  intro c
  exact hsteps.bindHeader _ c

end Looking

/-! ## Bodies -/

/-- Opens the body of a class, binds the members of the class, and closes the body after a step. -/
def inBody (d : Decl) (binary : String) (observer : Option String) (step : ClassDef → Check Unit) :
    Check Unit := do
  openClass d binary observer
  closing (do attachMembers d (← closeClass d)) do
    let owner ← loadAt (.decl d) binary
    (memberSymbols (← read).observers.ofNode d owner).forM fun s => inTable (.decl d) (bindSymbol s)
    step owner

/-- A property of all bindings, and of closing a body, holds of a body if it holds of what is done
there. -/
theorem Looking.inBody {P : ⦃α : Type⦄ → Check α → Prop} (h : Looking P) (hsteps : Resolving P)
    (hbind : ∀ n s, P (inTable n (bindSymbol s)))
    (hleave : ∀ d, P (do attachMembers d (← closeClass d))) (d : Decl) (binary : String)
    (observer : Option String) {step : ClassDef → Check Unit} (hstep : ∀ owner, P (step owner)) :
    P (Analysis.inBody d binary observer step) := by
  apply h.bind (h.openClass hsteps d binary observer)
  intro _
  apply hsteps.closing (hleave d)
  apply h.bind (h.loadAt _ _)
  intro owner
  apply h.bind h.read
  intro setting
  exact h.bind (h.forM _ fun s _ => hbind _ s) fun _ => hstep owner

/-- A step after whose failure another one is tried.  The first one leaves no scopes and no counted
calls behind. -/
def retrying (m : Check α) (next : α → Check β) (other : AnalysisError → Check β) : Check β := do
  let before ← get
  match ← attempt m with
  | .ok a => next a
  | .error e =>
    if !e.isOverloadFailure then throw e
    unwindTo before.table.depth
    modify fun s => { s with calls := before.calls }
    other e

/-- The property holds of the steps that the bodies of the classes of the unit are checked with, and
passes to sequences of steps. -/
structure Compositional (u : SourceUnit) (P : ⦃α : Type⦄ → Check α → Prop) : Prop
    extends Resolving P, Looking P where
  frames : ∀ f : List Frame → List Frame, P (modify fun s => { s with frames := f s.frames })
  calls : ∀ f : Nat → Nat, P (modify fun s => { s with calls := f s.calls })
  retrying : ∀ {α β : Type} {m : Check α} {next : α → Check β} {other : AnalysisError → Check β},
    P m → (∀ a, P (next a)) → (∀ e, P (other e)) → P (retrying m next other)
  simpleType? : ∀ simple, P (simpleType? simple)
  /-- The body of a class holds its members. -/
  inBody : ∀ d binary observer {step : ClassDef → Check Unit}, (∀ owner, P (step owner)) →
    P (inBody d binary observer step)
  namesType : ∀ e, Node.expr e ∈ u.nodes → P (namesType e)
  markTypeName : ∀ e, Node.expr e ∈ u.nodes → P (markTypeName e)
  /-- The type of the expression before the colons of a method reference is looked up. -/
  typeOf? : ∀ {n : Node} {r : Expr}, n ∈ u.nodes → receiver? n = some r → P (typeOf? r.id)
  /-- Classes in bodies get a name. -/
  inCatalog : u.bodyClasses ≠ [] → ∀ {α : Type} {op : StateM Catalog α}, CatalogOp op →
    P (inCatalog op)
  /-- Classes in bodies are declared. -/
  declare : u.bodyClasses ≠ [] → ∀ c, P (declare c)

namespace Compositional

variable {u : SourceUnit} {P : ⦃α : Type⦄ → Check α → Prop} (h : Compositional u P)

include h

theorem inBlock {step : Check α} (n : Node) (hstep : P step) : P (Analysis.inBlock n step) := by
  apply h.bind (h.observerOf n)
  intro observer
  apply h.bind (h.inTable (SymbolTable.uniform_pushScope _ _) (.pushScope _ _) _)
  intro _
  exact h.closing (h.discardInTable SymbolTable.uniform_popScope .popScope n) hstep

theorem withFrame {step : Check α} (frame : Frame) (hstep : P step) :
    P (Analysis.withFrame frame step) := by
  apply h.bind (h.frames fun fs => frame :: fs)
  intro _
  apply h.bind (h.attempt hstep)
  intro result
  apply h.look
  · intro s s' hs
    rw [hs.frames]
  intro s
  apply h.bind (h.frames fun fs => fs.drop 1)
  intro _
  exact h.bind (h.settle result) fun _ => h.pure _

/-! ## Declarations -/

theorem binaryNameOf (d : Decl) : P (Analysis.binaryNameOf d) := by
  apply h.look
  · intro s s' hs
    rw [hs.catalog.binaryName?]
  intro s
  split
  · exact h.pure _
  · exact h.failAt _ _

theorem closeClass (d : Decl) : P (Functor.discard (Analysis.closeClass d)) :=
  h.discardInTable SymbolTable.uniform_popScope .popScope _

theorem classHeader (d : Decl) (binary : String) (nesting : Nesting) (enclosing : Option String) :
    P (Analysis.classHeader d binary nesting enclosing) := by
  unfold Analysis.classHeader
  apply h.bind (h.typeParamsOf _)
  intro typeParams
  apply h.bind (h.inTable (SymbolTable.uniform_pushScope _ _) (.pushScope _ _) _)
  intro _
  apply h.bind (h.inTable (.bindTypeParams _) (.bindTypeParams _) _)
  intro _
  apply h.bind (h.optionMapM _ fun t _ => h.resolveType t)
  intro written
  apply h.bind (h.resolveTypes _)
  intro interfaces
  apply h.inTableThen SymbolTable.uniform_popScope .popScope _ (fun _ _ _ => rfl)
  intro _
  apply h.look
  · intro s s' hs
    have hnames : memberNames s.catalog d = memberNames s'.catalog d := by
      rw [memberNames, memberNames, funext hs.catalog.binaryName?]
    dsimp only
    rw [hnames]
  intro s
  exact h.bind (h.record _ _) fun _ => h.pure _

section

variable (hdeclare : ∀ c, P (Analysis.declare c))

include hdeclare

theorem declareHeader (height : Nat) (d : Decl) (header : ClassDef) :
    P (Analysis.declareHeader height d header) := by
  induction height generalizing d header with
  | zero => exact h.failAt _ _
  | succ height ih =>
    apply h.bind (hdeclare header)
    intro _
    apply h.bind (h.openClass h.toResolving _ _ _)
    intro _
    refine h.bind (h.forM _ fun member _ => ?_) fun _ => h.closeClass d
    apply h.bind (h.binaryNameOf member)
    intro binary
    exact h.bind (h.classHeader _ _ _ _) fun _ => ih _ _

theorem declareMembers (height : Nat) (d : Decl) : P (Analysis.declareMembers height d) := by
  induction height generalizing d with
  | zero => exact h.failAt _ _
  | succ height ih =>
    apply h.bind (h.binaryNameOf d)
    intro binary
    apply h.bind (h.openClass h.toResolving _ _ _)
    intro _
    apply h.bind (h.loadAt _ _)
    intro header
    apply h.bind (h.classMembers _ _)
    intro c
    apply h.bind (hdeclare c)
    intro _
    exact h.bind (h.forM _ fun member _ => ih member) fun _ => h.closeClass d

theorem declareBody (d : Decl) (header : ClassDef) : P (Analysis.declareBody d header) :=
  h.bind (h.declareHeader hdeclare _ _ _) fun _ => h.declareMembers hdeclare _ _

end

end Compositional

/-! ## Properties of what names denote -/

/-- The property is one of the symbol table and the catalog alone: it passes to sequences of steps, and
holds of those that look at the state or change the rest of it, and of the operations that bind no
methods. -/
structure OfNames (P : ⦃α : Type⦄ → Check α → Prop) : Prop extends Remembering P where
  throw : ∀ {α : Type} (e : AnalysisError), P (MonadExcept.throw e : Check α)
  attempt : ∀ {α : Type} {m : Check α}, P m → P (attempt m)
  update : ∀ {f : State → State}, (∀ s, (f s).table = s.table) → (∀ s, (f s).catalog = s.catalog) →
    P (modify f : Check PUnit)
  tryTable : ∀ {α γ : Type} {op : TableM α} {view : α → γ}, SymbolTable.Uniform view op →
    SymbolTable.KeepsBodies op → P (tryTable op)

namespace OfNames

open SymbolTable (Uniform KeepsBodies uniform_popScope)

variable {P : ⦃α : Type⦄ → Check α → Prop} (h : OfNames P)

include h

theorem resolving : Resolving P where
  pure := h.pure
  throw := h.throw
  bind := h.bind
  record _ _ := h.update (fun _ => rfl) fun _ => rfl
  namedType? name _ := h.namedType? name
  attempt := h.attempt
  tryTable hop hkeeps _ hk := h.bind (h.tryTable hop hkeeps) hk

theorem looking : Looking P where
  toNaming := h.resolving.toNaming
  read := h.read
  classes := h.classes
  look _ hk := h.bind h.get hk

theorem inTableFor {op : TableM α} {view : α → γ} (hop : Uniform view op) (hkeeps : KeepsBodies op)
    (name : String) : P (Analysis.inTableFor name op) := by
  apply h.bind (h.tryTable hop hkeeps)
  rintro (e | a)
  · exact h.throw _
  · exact h.pure a

theorem unwindTo (depth : Nat) : P (Analysis.unwindTo depth) := by
  have hgo : ∀ n, P (unwindTo.go n) := by
    intro n
    induction n with
    | zero => exact h.pure _
    | succ n ih => exact h.bind (h.inTableFor uniform_popScope .popScope _) fun _ => ih
  exact h.bind h.get fun _ => hgo _

theorem retrying {m : Check α} {next : α → Check β} {other : AnalysisError → Check β} (hm : P m)
    (hnext : ∀ a, P (next a)) (hother : ∀ e, P (other e)) : P (Analysis.retrying m next other) := by
  apply h.bind h.get
  intro before
  apply h.bind (h.attempt hm)
  intro result
  cases result with
  | ok a => exact hnext a
  | error e =>
    apply of_ite (h.throw _)
    have hreset : P (modify fun s : State => { s with calls := before.calls }) :=
      h.update (fun _ => rfl) fun _ => rfl
    apply h.bind (h.unwindTo _)
    intro _
    exact h.bind hreset fun _ => hother e

/-- Such a property holds of all that a unit is checked with if it holds of the bodies of classes. -/
theorem compositional (u : SourceUnit)
    (hbody : ∀ d binary observer {step : ClassDef → Check Unit}, (∀ owner, P (step owner)) →
      P (inBody d binary observer step)) : Compositional u P where
  toResolving := h.resolving
  read := h.read
  classes := h.classes
  look := h.looking.look
  frames _ := h.update (fun _ => rfl) fun _ => rfl
  calls _ := h.update (fun _ => rfl) fun _ => rfl
  retrying := h.retrying
  simpleType? := h.simpleType?
  inBody := hbody
  namesType _ _ := h.bind h.get fun _ => h.pure _
  markTypeName _ _ := h.update (fun _ => rfl) fun _ => rfl
  typeOf? _ _ := h.bind h.get fun _ => h.pure _
  inCatalog _ _ _ := h.inCatalog
  declare _ _ := h.update (fun _ => rfl) fun _ => rfl

end OfNames

end JavaSema.Analysis
