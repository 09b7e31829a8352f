import JavaSema.Proofs.Analysis.Members
import JavaSema.Proofs.Scope.Bracket

/-!
# Headers of classes

The headers of the classes of a unit are declared one after the other.  If all types in a header are
given by simple names that are bound, then no other class is looked at, and the order of the classes
makes no difference.

There are three groups.

* `BindsType` says that a name is bound to a type.  A name stays bound when more symbols are.
* `Resolves` is about the steps that resolve bound names.
* One theorem for each function that declares headers.
-/

namespace JavaSema

/-! ## Bound names -/

/-- The scopes bind the name to a type or a type variable. -/
def BindsType (scopes : List Scope) (name : String) : Prop :=
  ∃ scope ∈ scopes, ∃ s ∈ scope.order, s.name = name ∧ (s.kind = .typeParam ∨ s.kind = .type)

namespace BindsType

variable {scopes scopes' : List Scope} {name : String}

theorem cons (h : BindsType scopes name) (scope : Scope) : BindsType (scope :: scopes) name := by
  obtain ⟨a, ha, hs⟩ := h
  exact ⟨a, List.mem_cons_of_mem _ ha, hs⟩

theorem append (h : BindsType scopes name) (top : List Scope) : BindsType (top ++ scopes) name := by
  obtain ⟨a, ha, hs⟩ := h
  exact ⟨a, List.mem_append_right _ ha, hs⟩

theorem of_bare (h : BindsType scopes name)
    (hbare : scopes'.map Scope.bare = scopes.map Scope.bare) : BindsType scopes' name := by
  obtain ⟨a, ha, s, hs, hname, hkind⟩ := h
  obtain ⟨b, hb, hab⟩ := List.mem_map.mp (hbare ▸ List.mem_map_of_mem (f := Scope.bare) ha)
  obtain ⟨r, hr, hrname, hrkind⟩ := (Scope.grewTo_of_bare hab).exists_named hs
  exact ⟨b, hb, r, hr, hrname.trans hname, hrkind ▸ hkind⟩

theorem grown (h : BindsType scopes name) (hgrown : Grown scopes scopes') :
    BindsType scopes' name := by
  cases hgrown with
  | nil => exact h
  | cons hgrew houter =>
    obtain ⟨a, ha, s, hs, hname, hkind⟩ := h
    rcases List.mem_cons.mp ha with rfl | ha
    · obtain ⟨r, hr, hrname, hrkind⟩ := hgrew.exists_named hs
      exact ⟨_, List.mem_cons_self, r, hr, hrname.trans hname, hrkind ▸ hkind⟩
    · exact (of_bare ⟨a, ha, s, hs, hname, hkind⟩ houter).cons _

/-- A name that is bound is found. -/
theorem boundType? (h : BindsType scopes name) (hsound : ∀ scope ∈ scopes, ∃ n, scope.Sound n) :
    ∃ t, Analysis.boundType? scopes name = some t := by
  apply Option.isSome_iff_exists.mp
  obtain ⟨scope, hscope, s, hs, hname, hkind⟩ := h
  obtain ⟨n, hsound⟩ := hsound scope hscope
  have hget : s ∈ scope.get name :=
    List.mem_filter.mpr ⟨hsound.perm.mem_iff.mpr hs, beq_iff_eq.mpr hname⟩
  have hfind : (scope.find? name s.kind).isSome :=
    List.find?_isSome.mpr ⟨s, hget, beq_self_eq_true _⟩
  rw [Analysis.boundType?, List.findSome?_isSome_iff]
  refine ⟨scope, hscope, ?_⟩
  rcases hkind with hkind | hkind <;> rw [hkind] at hfind <;> simp [hfind]

end BindsType

/-- Binding symbols adds to the scopes. -/
theorem SymbolTable.grown_of_binds {α : Type} {op : TableM α} {t t' : SymbolTable}
    {r : Except ResolveError α} (h : exec op t = (r, t')) (hop : Keeps Binds op)
    (hreach : t.Reachable) : Grown t.scopes t'.scopes := by
  have hgrown := (hop t hreach).2
  rwa [h] at hgrown

/-- A symbol that was bound is there. -/
theorem SymbolTable.bindsType_of_pushSymbol {s : Symbol} (hkind : s.kind = .typeParam ∨ s.kind = .type)
    {t t' : SymbolTable} {a : Symbol} (haccepts : ∀ log, t.rejects log = false)
    (h : exec (pushSymbol s) t = (.ok a, t')) : BindsType t'.scopes s.name := by
  cases hresolved : s.type.unresolved with
  | true =>
    rw [exec_pushSymbol_unresolved hresolved] at h
    cases h
  | false =>
    cases hscopes : t.scopes with
    | nil =>
      rw [exec_pushSymbol_nil hresolved hscopes] at h
      cases h
    | cons scope rest =>
      have hinserted : ∀ (scope : Scope) (id : Nat), BindsType (scope.insert { s with id } :: rest) s.name :=
        fun scope id => ⟨_, List.mem_cons_self, { s with id },
          List.mem_append_right _ List.mem_cons_self, rfl, hkind⟩
      cases hhidden : hidden? scope s with
      | none =>
        obtain ⟨log, hrun⟩ := exec_pushSymbol_new haccepts hresolved hscopes hhidden
        rw [hrun] at h
        cases h
        exact hinserted _ _
      | some old =>
        obtain ⟨log, hrun⟩ := exec_pushSymbol_hiding haccepts hresolved hscopes hhidden
        rw [hrun] at h
        cases h
        exact hinserted _ _

namespace Analysis

open Source SymbolTable

variable {α β : Type} {setting : Setting} {s s' t t' : State}

theorem bindsType_of_bindSymbol {sym : Symbol} (hkind : sym.kind = .typeParam ∨ sym.kind = .type)
    {t t' : SymbolTable} {a : Unit} (haccepts : ∀ log, t.rejects log = false)
    (h : exec (bindSymbol sym) t = (.ok a, t')) : BindsType t'.scopes sym.name := by
  obtain ⟨b, hrun⟩ := ok_of_exec_discard h
  exact bindsType_of_pushSymbol hkind haccepts hrun

/-- Symbols that were bound one after the other are there. -/
theorem bindsType_of_bindEach {γ : Type} (l : List γ) {symbol : γ → Symbol}
    (hkind : ∀ c, (symbol c).kind = .typeParam ∨ (symbol c).kind = .type) {t t' : SymbolTable} {a : Unit}
    (ht : t.Agree t) (h : exec (l.forM fun c => bindSymbol (symbol c)) t = (.ok a, t')) :
    ∀ c ∈ l, BindsType t'.scopes (symbol c).name := by
  induction l generalizing t with
  | nil => exact List.forall_mem_nil _
  | cons c l ih =>
    obtain ⟨_, u, hfirst, hrest⟩ := ok_of_exec_bind h
    have hu := (Uniform.bindSymbol (symbol c)).agree t t ht
    rw [hfirst] at hu
    have hbound : BindsType u.scopes (symbol c).name :=
      bindsType_of_bindSymbol (hkind c) ht.accepts hfirst
    have hgrown := grown_of_binds hrest (.forM binds_refl binds_trans l fun _ _ => bindSymbol_binds _)
      hu.2.reachable
    exact List.forall_mem_cons.mpr ⟨hbound.grown hgrown, ih hu.2 hrest⟩

theorem bindsType_of_bindTypeParams {params : List TypeParam} {t t' : SymbolTable} {a : Unit}
    (ht : t.Agree t) (h : exec (bindTypeParams params) t = (.ok a, t')) :
    ∀ p ∈ params, BindsType t'.scopes p.name :=
  bindsType_of_bindEach params (fun _ => .inl rfl) ht h

/-! ## Bound names are resolved -/

/-- The later state has the same catalog, and the same classes except those of the given names. -/
structure State.Headed (names : List String) (s t : State) : Prop where
  /-- Other classes are the same. -/
  declared : ∀ name, name ∉ names → t.declared.get? name = s.declared.get? name
  /-- The catalog is the same. -/
  catalog : t.catalog = s.catalog
  /-- No name of a placeholder is taken back. -/
  fresh : s.table.fresh ≤ t.table.fresh
  /-- The same expressions name a type. -/
  typeNames : t.typeNames = s.typeNames

namespace State.Headed

variable {names names' : List String} {u : State}

theorem refl (s : State) : s.Headed names s := ⟨fun _ _ => rfl, rfl, Nat.le_refl _, rfl⟩

theorem trans (h : s.Headed names t) (h' : t.Headed names u) : s.Headed names u :=
  ⟨fun name hname => (h'.declared name hname).trans (h.declared name hname),
    h'.catalog.trans h.catalog, Nat.le_trans h.fresh h'.fresh, h'.typeNames.trans h.typeNames⟩

theorem mono (h : s.Headed names t) (hsub : names ⊆ names') : s.Headed names' t :=
  ⟨fun name hname => h.declared name fun hmem => hname (hsub hmem), h.catalog, h.fresh, h.typeNames⟩

theorem of_nil (h : s.Headed [] t) : s.Headed names t := h.mono (List.nil_subset _)

theorem record (h : s.Headed names t) (entry : NodeId × JType) :
    s.Headed names { t with typings := entry :: t.typings } :=
  ⟨h.declared, h.catalog, h.fresh, h.typeNames⟩

end State.Headed

variable {own : String → Prop} {I : NodeId → Prop} {N : String → Prop}

/-- The step does the same to both states if the names `N` are bound, and leaves the bindings. -/
def Resolves (setting : Setting) (own : String → Prop) (I : NodeId → Prop) (N : String → Prop)
    ⦃α : Type⦄ (m : Check α) : Prop :=
  ∀ s s' : State, s.Parallel own I s' → (∀ name, N name → BindsType s.table.scopes name) →
    ∃ r t t', exec (m setting) s = (r, t) ∧ exec (m setting) s' = (r, t') ∧ t.Parallel own I t' ∧
      t.table = s.table ∧ s.Headed [] t

/-- The name has one segment, which is among the names `N`. -/
def IsSimple (N : String → Prop) (name : QualifiedName) : Prop := ∃ n, name.segments = [n] ∧ N n

namespace Resolves

theorem pure (a : α) : Resolves setting own I N (Pure.pure a : Check α) :=
  fun s s' hs _ => ⟨.ok a, s, s', rfl, rfl, hs, rfl, .refl s⟩

theorem throw (e : AnalysisError) : Resolves setting own I N (MonadExcept.throw e : Check α) :=
  fun s s' hs _ => ⟨.error e, s, s', rfl, rfl, hs, rfl, .refl s⟩

theorem bind {m : Check α} {k : α → Check β} (hm : Resolves setting own I N m)
    (hk : ∀ a, Resolves setting own I N (k a)) : Resolves setting own I N (m >>= k) := by
  intro s s' hs hbound
  obtain ⟨r, t, t', hrun, hrun', ht, htable, hheaded⟩ := hm s s' hs hbound
  cases r with
  | error e => exact ⟨.error e, t, t', run_bind_error hrun, run_bind_error hrun', ht, htable, hheaded⟩
  | ok a =>
    rw [← htable] at hbound
    obtain ⟨r, u, u', hnext, hnext', hu, htable', hheaded'⟩ := hk a t t' ht hbound
    rw [run_bind_ok hrun, run_bind_ok hrun']
    exact ⟨r, u, u', hnext, hnext', hu, htable'.trans htable, hheaded.trans hheaded'⟩

theorem record (id : NodeId) (t : JType) : Resolves setting own I N (record id t) :=
  fun s _ hs _ => ⟨.ok (), _, _, rfl, rfl, hs.record id t, rfl, (State.Headed.refl s).record _⟩

/-- A bound name denotes what it is bound to, and the catalog is not asked. -/
theorem namedType?_bound {name : QualifiedName} {n : String} {t : JType} (hname : name.segments = [n])
    (h : boundType? s.table.scopes n = some t) :
    exec (namedType? name setting) s = (.ok (some t), s) := by
  have hsimple : exec (simpleType? n setting) s = (.ok (some t), s) := by
    rw [simpleType?, run_bind_ok (run_get _ _), h]
    rfl
  unfold namedType?
  rw [hname]
  dsimp only
  rw [run_bind_ok hsimple]
  rfl

theorem namedType? (name : QualifiedName) (hname : IsSimple N name) :
    Resolves setting own I N (namedType? name) := by
  obtain ⟨n, hname, hn⟩ := hname
  intro s s' hs hbound
  obtain ⟨t, ht⟩ := (hbound n hn).boundType? fun scope hscope =>
    ⟨_, hs.table.reachable.sound.scopes scope hscope⟩
  have ht' : boundType? s'.table.scopes n = some t := by rw [← boundType?_plain hs.table.scopes, ht]
  exact ⟨_, s, s', namedType?_bound hname ht, namedType?_bound hname ht', hs, rfl, .refl s⟩

theorem naming : Naming (IsSimple N) (Resolves setting own I N) where
  pure := pure
  throw := throw
  bind := bind
  record := record
  namedType? := namedType?

theorem sideBySide {m : Check α} (hm : Resolves setting own I N m) (hs : s.Parallel own I s')
    (hbound : ∀ name, N name → BindsType s.table.scopes name) :
    SideBySide setting m s s' fun _ t t' =>
      t.Parallel own I t' ∧ t.table = s.table ∧ s.Headed [] t := by
  obtain ⟨r, t, t', hrun, hrun', hpost⟩ := hm s s' hs hbound
  cases r with
  | error e => exact .inl ⟨e, t, t', hrun, hrun'⟩
  | ok a => exact .inr ⟨a, t, t', hrun, hrun', hpost⟩

end Resolves

/-! ## Declaring headers -/

/-- The types in the header of a class. -/
def headerTypes (d : Decl) : List TypeRef :=
  TypeParamDecl.allBounds d.typeParams ++ d.parent.toList ++ d.interfaces

/-- The names of the type parameters. -/
def paramNames (params : List TypeParamDecl) : List String := params.map TypeParamDecl.name

/-- All types in the headers of a class and of the classes among its members are given by simple names:
each of them is among the names `N` or is a type parameter of the class or of a class around it. -/
inductive SimpleHeaders : (String → Prop) → Decl → Prop where
  /-- The header of the class, and the classes among its members. -/
  | mk {N : String → Prop} {d : Decl}
      (header : ∀ t ∈ headerTypes d, ∀ name ∈ namesIn t,
        IsSimple (fun n => N n ∨ n ∈ paramNames d.typeParams) name)
      (nested : ∀ e ∈ d.nestedTypes, SimpleHeaders (fun n => N n ∨ n ∈ paramNames d.typeParams) e) :
      SimpleHeaders N d

/-- Declares a class with its header and the headers of the classes among its members. -/
def declareClass (height : Nat) (d : Decl) (nesting : Nesting) (enclosing : Option String) :
    Check Unit := do
  let binary ← binaryNameOf d
  declareHeader height d (← classHeader d binary nesting enclosing)

theorem has_declareClass (height : Nat) (d : Decl) (nesting : Nesting) (enclosing : Option String) :
    Has .ofExpr (declareClass height d nesting enclosing) := by
  have hmarks : Footprint.ofExpr.Allows (.decl d) := Footprint.MarksAll.allows (fun _ => trivial) _
  refine (goes_binaryNameOf d).bind fun binary => ?_
  exact (goes_classHeader d _ _ _ hmarks).bind fun header => goes_declareHeader _ d header hmarks

/-- What follows is the same for both states. -/
theorem SideBySide.look {k : State → Check α} {post : α → State → State → Prop} (hsame : k s = k s')
    (h : SideBySide setting (k s) s s' post) : SideBySide setting (MonadState.get >>= k) s s' post := by
  unfold SideBySide at h ⊢
  rw [show exec ((MonadState.get >>= k) setting) s' = exec (k s' setting) s' from rfl, ← hsame]
  exact h

/-- Bound names stay bound by a step that leaves the scopes. -/
theorem bindsType_of_has {m : Check α} (h : Has .ofExpr m) {a : α}
    (hrun : exec (m setting) s = (.ok a, t)) (hreach : s.table.Reachable) {name : String}
    (hbound : BindsType s.table.scopes name) : BindsType t.table.scopes name := by
  have hat := (h.run setting s).2 a (by rw [hrun])
  rw [hrun] at hat
  obtain ⟨-, top, kept, hscopes, htop, -, hbare⟩ := hat.table hreach
  rw [hscopes]
  exact (hbound.of_bare (hbare rfl)).append top

section

variable (hs : s.Parallel own I s')

include hs

/-- An operation on the symbol table, of which no more is used than that it succeeded. -/
theorem sideBySide_tableThen {γ : Type} {op : TableM α} {view : α → γ} (hop : Uniform view op)
    (name : String) {k : Check β} {post : β → State → State → Prop}
    (hk : ∀ a t t', t.Parallel own I t' → s.Headed [] t → exec op s.table = (.ok a, t.table) →
      SideBySide setting k t t' post) :
    SideBySide setting (do let _ ← inTableFor name op; k) s s' post := by
  obtain ⟨hresult, htable⟩ := hop.agree _ _ hs.table
  have hfresh := hop.fresh _ (hs.trans hs.symm).table
  have hleft := run_inTableFor name op setting s
  have hright := run_inTableFor name op setting s'
  rcases hop₁ : exec op s.table with ⟨e | a, u⟩ <;> rcases hop₂ : exec op s'.table with ⟨e' | a', u'⟩ <;>
    rw [hop₁, hop₂] at hresult htable <;> rw [hop₁] at hleft hfresh <;> rw [hop₂] at hright
  · cases hresult
    exact .inl ⟨_, _, _, run_bind_error hleft, run_bind_error hright⟩
  · cases hresult
  · cases hresult
  · unfold SideBySide
    rw [run_bind_ok hleft, run_bind_ok hright]
    exact hk a _ _ (hs.withTable htable) ⟨fun _ _ => rfl, rfl, hfresh, rfl⟩ hop₁

/-- An operation on the symbol table after which nothing follows. -/
theorem sideBySide_discardTable {γ : Type} {op : TableM α} {view : α → γ} (hop : Uniform view op)
    (name : String) : SideBySide setting (discard (inTableFor name op)) s s' fun _ t t' =>
      t.Parallel own I t' ∧ s.Headed [] t := by
  show SideBySide setting ((fun _ => ()) <$> inTableFor name op) s s' _
  rw [map_eq_pure_bind]
  exact sideBySide_tableThen hs hop name fun _ t t' ht hheaded _ => .pure ⟨ht, hheaded⟩

/-- Symbols are bound one after the other. -/
theorem sideBySide_bindEach {γ : Type} (l : List γ) (symbol : γ → Symbol)
    (hkind : ∀ c, (symbol c).kind = .typeParam ∨ (symbol c).kind = .type) {k : Check β}
    {post : β → State → State → Prop}
    (hk : ∀ t t', t.Parallel own I t' → s.Headed [] t →
      (∀ name, BindsType s.table.scopes name → BindsType t.table.scopes name) →
      (∀ c ∈ l, BindsType t.table.scopes (symbol c).name) → SideBySide setting k t t' post) :
    SideBySide setting (do l.forM fun c => inTableFor (symbol c).name (bindSymbol (symbol c)); k) s s'
      post := by
  induction l generalizing s s' with
  | nil => exact hk s s' hs (.refl s) (fun _ => id) (List.forall_mem_nil _)
  | cons c l ih =>
    rw [List.forM, bind_assoc]
    refine sideBySide_tableThen hs (.bindSymbol (symbol c)) _ fun a t t' ht hheaded hrun => ?_
    have hgrown := grown_of_binds hrun (bindSymbol_binds _) hs.table.reachable
    have hbound := bindsType_of_bindSymbol (hkind c) hs.table.accepts hrun
    refine ih ht fun u u' hu hheaded' hkept hnew => ?_
    refine hk u u' hu (hheaded.trans hheaded') (fun name h => hkept name (h.grown hgrown)) ?_
    exact List.forall_mem_cons.mpr ⟨hkept _ hbound, hnew⟩

/-- Type parameters, whose bounds may mention each other. -/
theorem sideBySide_typeParamsOf (params : List TypeParamDecl)
    (hnames : ∀ t ∈ TypeParamDecl.allBounds params, ∀ name ∈ namesIn t,
      IsSimple (fun n => N n ∨ n ∈ paramNames params) name)
    (hbound : ∀ name, N name → BindsType s.table.scopes name) :
    SideBySide setting (typeParamsOf params) s s' fun _ t t' => t.Parallel own I t' ∧ s.Headed [] t := by
  cases params with
  | nil => exact .pure ⟨hs, .refl s⟩
  | cons first rest =>
    refine sideBySide_tableThen hs (uniform_pushScope .block none) _ fun _ p p' hp hheaded hrun => ?_
    have hpushed : ∀ name, BindsType s.table.scopes name → BindsType p.table.scopes name := by
      intro name h
      rw [← (Prod.mk.inj hrun).2]
      exact h.cons _
    refine sideBySide_bindEach hp (first :: rest)
      (fun p => { name := p.name, kind := .typeParam, type := .typeVar p.name [.object] })
      (fun _ => .inl rfl) fun q q' hq hheaded' hkept hnew => ?_
    have hall : ∀ name, N name ∨ name ∈ paramNames (first :: rest) → BindsType q.table.scopes name := by
      rintro name (hname | hname)
      · exact hkept name (hpushed name (hbound name hname))
      · obtain ⟨c, hc, rfl⟩ := List.mem_map.mp hname
        exact hnew c hc
    have hsteps : Naming (IsSimple fun n => N n ∨ n ∈ paramNames (first :: rest))
        (Resolves setting own I fun n => N n ∨ n ∈ paramNames (first :: rest)) := Resolves.naming
    have hbounds := hsteps.mapM (first :: rest) (f := typeParamOf) fun p hp =>
      hsteps.bind (hsteps.resolveNamesOfEach p.bounds fun t ht name hname =>
        hnames t (List.mem_flatMap.mpr ⟨p, hp, ht⟩) name hname) fun _ => hsteps.pure _
    obtain ⟨r, t, t', hrun, hrun', ht, -, hheaded''⟩ := hbounds q q' hq hall
    have hattempt : exec (attempt ((first :: rest).mapM typeParamOf) setting) q = (.ok r, t) := by
      rw [exec_attempt, hrun]
    have hattempt' : exec (attempt ((first :: rest).mapM typeParamOf) setting) q' = (.ok r, t') := by
      rw [exec_attempt, hrun']
    refine .bind (.of_runs hattempt hattempt' ?_)
    refine sideBySide_tableThen ht uniform_popScope _ fun _ u u' hu hheaded₃ _ => ?_
    cases r with
    | error e => exact .throw e
    | ok a => exact .pure ⟨hu, hheaded.trans (hheaded'.trans (hheaded''.trans hheaded₃))⟩

end

theorem Returns.mapM {γ : Type} {f : α → Check β} {g : β → γ} {h : α → γ} (l : List α)
    (hf : ∀ a, Returns (fun b => g b = h a) (f a)) :
    Returns (fun bs => bs.map g = l.map h) (l.mapM f) := by
  induction l with
  | nil => exact .pure rfl
  | cons a l ih =>
    rw [List.mapM_cons]
    refine .bind (hf a) fun b hb => .bind ih fun bs hbs => .pure ?_
    rw [List.map_cons, List.map_cons, hb, hbs]

theorem Returns.attempt {p : α → Prop} {m : Check α} (hm : Returns p m) :
    Returns (fun r => ∀ a, r = .ok a → p a) (attempt m) := by
  rintro setting s s' r hrun a rfl
  rw [exec_attempt] at hrun
  exact hm (Prod.ext (Except.ok.inj (Prod.mk.inj hrun).1) rfl)

theorem Returns.settle {p : α → Prop} {r : Except AnalysisError α} (h : ∀ a, r = .ok a → p a) :
    Returns p (settle r) := by
  intro setting s s' a hrun
  rw [exec_settle] at hrun
  exact h a (Prod.mk.inj hrun).1

/-- Type parameters keep their names. -/
theorem returns_typeParamsOf (params : List TypeParamDecl) :
    Returns (fun ps => ps.map TypeParam.name = paramNames params) (typeParamsOf params) := by
  cases params with
  | nil => exact .pure rfl
  | cons first rest =>
    have hnames := Returns.mapM (g := TypeParam.name) (h := TypeParamDecl.name) (first :: rest)
      (f := typeParamOf) fun p => .last fun bounds => .pure rfl
    exact .last fun _ => .last fun _ => .bind hnames.attempt fun r hr => .last fun _ => .settle hr

theorem returns_classHeader_typeParams (d : Decl) (binary : String) (nesting : Nesting)
    (enclosing : Option String) :
    Returns (fun c => c.typeParams.map TypeParam.name = paramNames d.typeParams)
      (classHeader d binary nesting enclosing) := by
  unfold classHeader
  refine .bind (returns_typeParamsOf _) fun typeParams htypeParams => ?_
  refine .last fun _ => .last fun _ => .last fun written => .last fun interfaces => ?_
  exact .last fun _ => .last fun s => .last fun _ => .pure htypeParams

section

variable (hs : s.Parallel own I s')

include hs

/-- The header of a class. -/
theorem sideBySide_classHeader (d : Decl) (binary : String) (nesting : Nesting)
    (enclosing : Option String)
    (hnames : ∀ t ∈ headerTypes d, ∀ name ∈ namesIn t,
      IsSimple (fun n => N n ∨ n ∈ paramNames d.typeParams) name)
    (hbound : ∀ name, N name → BindsType s.table.scopes name) :
    SideBySide setting (classHeader d binary nesting enclosing) s s' fun _ t t' =>
      t.Parallel own I t' ∧ s.Headed [] t := by
  have hsteps : Naming (IsSimple fun n => N n ∨ n ∈ paramNames d.typeParams)
      (Resolves setting own I fun n => N n ∨ n ∈ paramNames d.typeParams) := Resolves.naming
  unfold classHeader
  dsimp only
  refine .bind ((sideBySide_typeParamsOf hs d.typeParams (fun t ht => hnames t ?_) hbound).imp
    fun params p p' hrun ⟨hp, hheaded⟩ => ?_)
  · exact List.mem_append_left _ (List.mem_append_left _ ht)
  have hparams := returns_typeParamsOf _ hrun
  have hkept : Has .ofExpr (typeParamsOf d.typeParams) :=
    goes_typeParamsOf _ fun _ _ => Footprint.MarksAll.allows (fun _ => trivial) _
  refine sideBySide_tableThen hp (uniform_pushScope .block none) _ fun _ q q' hq hheaded₂ hpush => ?_
  refine sideBySide_tableThen hq (.bindTypeParams params) _ fun _ r r' hr hheaded₃ hbind => ?_
  have hall : ∀ name, N name ∨ name ∈ paramNames d.typeParams → BindsType r.table.scopes name := by
    have hgrown := grown_of_binds hbind (bindTypeParams_binds _) hq.table.reachable
    rintro name (hname | hname)
    · have hbefore := bindsType_of_has hkept hrun hs.table.reachable (hbound name hname)
      have hpushed : BindsType q.table.scopes name := by
        rw [← (Prod.mk.inj hpush).2]
        exact hbefore.cons _
      exact hpushed.grown hgrown
    · rw [← hparams] at hname
      obtain ⟨c, hc, rfl⟩ := List.mem_map.mp hname
      exact bindsType_of_bindTypeParams (hq.trans hq.symm).table hbind c hc
  have hparent := hsteps.optionMapM d.parent (f := resolveType) fun t ht => hsteps.resolveNames t
    (hnames t (List.mem_append_left _ (List.mem_append_right _ (Option.mem_toList.mpr ht))))
  have hinterfaces := hsteps.resolveNamesOfEach d.interfaces fun t ht =>
    hnames t (List.mem_append_right _ ht)
  refine .bind ((hparent.sideBySide hr hall).imp fun written u u' _ ⟨hu, htable, hheaded₄⟩ => ?_)
  rw [← htable] at hall
  refine .bind ((hinterfaces.sideBySide hu hall).imp fun interfaces v v' _ ⟨hv, _, hheaded₅⟩ => ?_)
  refine sideBySide_tableThen hv uniform_popScope _ fun _ w w' hw hheaded₆ _ => ?_
  have hbefore := hheaded.trans (hheaded₂.trans hheaded₃)
  have hafter := hheaded₄.trans (hheaded₅.trans hheaded₆)
  refine .look ?_ (.bind (.of_runs rfl rfl (.pure ⟨hw.record _ _, (hbefore.trans hafter).record _⟩)))
  rw [memberNames, memberNames, funext hw.catalog.binaryName?]

/-- A class whose header is declared in both states is opened. -/
theorem sideBySide_openHeader {c : ClassDef} {binary : String} (hown : own binary)
    (hc : s.declared.get? binary = some c) (d : Decl) :
    SideBySide setting (openClass d binary none) s s' fun _ t t' =>
      t.Parallel own I t' ∧ s.Headed [] t ∧
        (∀ name, BindsType s.table.scopes name → BindsType t.table.scopes name) ∧
        ∀ p ∈ c.typeParams, BindsType t.table.scopes p.name := by
  refine sideBySide_tableThen hs (uniform_pushClassScope binary none) _
    fun _ p p' hp hheaded hpush => ?_
  have hload : p.declared.get? binary = some c := by rw [hheaded.declared _ List.not_mem_nil, hc]
  have hload' : p'.declared.get? binary = some c := by rw [← hp.declared _ hown, hload]
  refine .bind (.of_runs (loadAt_run hload _) (loadAt_run hload' _) ?_)
  refine sideBySide_tableThen hp (.bindTypeParams c.typeParams) _ fun _ q q' hq hheaded₂ hbind => ?_
  have hgrown := grown_of_binds hbind (bindTypeParams_binds _) hp.table.reachable
  rw [← bind_pure (inTable _ _)]
  refine sideBySide_tableThen hq (.forM c.memberClasses fun _ => .bindSymbol _) (title (.decl d))
    (k := pure ()) fun _ r r' hr hheaded₃ hmembers => ?_
  have hgrown' := grown_of_binds hmembers
    (.forM binds_refl binds_trans _ fun _ _ => bindSymbol_binds _) hq.table.reachable
  refine .pure ⟨hr, hheaded.trans (hheaded₂.trans hheaded₃), fun name h => ?_, fun param hparam => ?_⟩
  · have hpushed : BindsType p.table.scopes name := by
      rw [← (Prod.mk.inj hpush).2]
      exact h.cons _
    exact (hpushed.grown hgrown).grown hgrown'
  · exact (bindsType_of_bindTypeParams (hp.trans hp.symm).table hbind param hparam).grown hgrown'

/-- A class and the classes among its members get their headers. -/
theorem sideBySide_declareClass (height : Nat) (d : Decl) (nesting : Nesting)
    (enclosing : Option String) (hheaders : SimpleHeaders N d)
    (hbound : ∀ name, N name → BindsType s.table.scopes name)
    (hown : ∀ b ∈ familyNames s.catalog d, own b) :
    SideBySide setting (declareClass height d nesting enclosing) s s' fun _ t t' =>
      t.Parallel own I t' ∧ s.Headed (familyNames s.catalog d) t := by
  induction height generalizing d nesting enclosing N s s' with
  | zero =>
    obtain ⟨hheader, -⟩ := hheaders
    refine .bind ((sideBySide_binaryNameOf hs.catalog d).imp fun binary _ _ _ hbinary => ?_)
    obtain ⟨rfl, rfl, -⟩ := hbinary
    exact .bind ((sideBySide_classHeader hs d binary nesting enclosing hheader hbound).imp
      fun _ _ _ _ _ => .failAt _ _)
  | succ height ih =>
    obtain ⟨hheader, hnested⟩ := hheaders
    refine .bind ((sideBySide_binaryNameOf hs.catalog d).imp fun binary _ _ _ hbinary => ?_)
    obtain ⟨rfl, rfl, hbinary⟩ := hbinary
    rw [familyNames_eq, hbinary] at hown ⊢
    obtain ⟨hself, hothers⟩ := List.forall_mem_cons.mp hown
    refine .bind ((sideBySide_classHeader hs d binary nesting enclosing hheader hbound).imp
      fun header p p' hrun hmade => ?_)
    obtain ⟨hp, hheaded⟩ := hmade
    obtain rfl : header.name = binary := returns_classHeader d binary nesting enclosing hrun
    have hparams := returns_classHeader_typeParams _ _ _ _ hrun
    have hkept := goes_classHeader (F := .ofExpr) (k := 0) d header.name nesting enclosing
      (Footprint.MarksAll.allows (fun _ => trivial) _)
    rw [declareHeader]
    refine .bind (.of_runs (run_modify _ _ _) (run_modify _ _ _) ?_)
    have hdeclared : s.Headed ([header.name] ++ d.nestedTypes.flatMap (familyNames s.catalog))
        { p with declared := p.declared.insert header } := by
      refine hheaded.of_nil.trans ⟨fun name hname => ?_, rfl, Nat.le_refl _, rfl⟩
      have hne : header.name ≠ name := fun h => hname (h ▸ List.mem_cons_self)
      rw [ClassTable.get?_insert, if_neg hne]
    have hheld : (p.declared.insert header).get? header.name = some header := by
      rw [ClassTable.get?_insert, if_pos rfl]
    refine .bind ((sideBySide_openHeader (hp.declare header) hself hheld d).imp
      fun _ t t' _ hopen => ?_)
    obtain ⟨ht, hopened, hstill, hnew⟩ := hopen
    have hall : ∀ name, N name ∨ name ∈ paramNames d.typeParams → BindsType t.table.scopes name := by
      rintro name (hname | hname)
      · exact hstill name (bindsType_of_has hkept hrun hs.table.reachable (hbound name hname))
      · rw [← hparams] at hname
        obtain ⟨p, hp, rfl⟩ := List.mem_map.mp hname
        exact hnew p hp
    refine .bind ((SideBySide.forM (fun v v' => v.Parallel own I v' ∧
      (∀ name, N name ∨ name ∈ paramNames d.typeParams → BindsType v.table.scopes name) ∧
      s.Headed ([header.name] ++ d.nestedTypes.flatMap (familyNames s.catalog)) v)
      d.nestedTypes (fun e he v v' hpair => ?_)
      ⟨ht, hall, hdeclared.trans hopened.of_nil⟩).imp fun _ w w' _ hpair => ?_)
    · obtain ⟨hv, hall, hheaded⟩ := hpair
      have hmem : familyNames s.catalog e ⊆ d.nestedTypes.flatMap (familyNames s.catalog) :=
        fun b hb => List.mem_flatMap.mpr ⟨e, he, hb⟩
      have hclass := ih hv e (.member (isStaticMember header e)) (some header.name) (hnested e he) hall
      rw [hheaded.catalog] at hclass
      refine (hclass fun b hb => hothers b (hmem hb)).imp fun _ w w' hrun hmore => ?_
      obtain ⟨hw, hmore⟩ := hmore
      refine ⟨hw, fun name hname => ?_, hheaded.trans (hmore.mono fun b hb =>
        List.mem_append_right _ (hmem hb))⟩
      exact bindsType_of_has (has_declareClass height e _ _) hrun hv.table.reachable (hall name hname)
    · obtain ⟨hw, -, hheaded⟩ := hpair
      exact (sideBySide_discardTable hw uniform_popScope _).imp fun _ x x' _ hclosed =>
        ⟨hclosed.1, hheaded.trans hclosed.2.of_nil⟩

end

end Analysis

end JavaSema
