import JavaSema.Proofs.Analysis.Composed
import JavaSema.Proofs.ClassEnv.Overlay

/-!
# States that agree

Two states agree if they differ only in what the check of a class cannot see: in what the catalog
remembers, in the identities of symbols, in the order of declared classes, and in what was found out
about nodes of other classes.  A step leads from states that agree to states that agree.

There are three groups.

* `State.Agree` compares states.
* `Steady` says what a step does to states that agree, and what it leaves as it was.  Names of types
  are looked up steadily.
* Steps that give classes their members are steady, and so are those that check bodies without classes
  in them.
-/

namespace JavaSema.Analysis

open Source

variable {α β γ : Type}

/-! ## States -/

/-- The states have the same bindings in scope, declare the same classes under the names `own`, and
know the same of the nodes `I`. -/
structure State.Parallel (own : String → Prop) (I : NodeId → Prop) (s s' : State) : Prop where
  /-- The classes are the same. -/
  declared : ∀ name, own name → s.declared.get? name = s'.declared.get? name
  /-- No class is declared twice in the first state. -/
  distinct : s.declared.Distinct
  /-- No class is declared twice in the second state. -/
  distinct' : s'.declared.Distinct
  /-- The catalogs differ at most in what they remember. -/
  catalog : s.catalog.Same s'.catalog
  /-- The bindings are the same. -/
  table : s.table.Agree s'.table
  /-- The same is being returned from. -/
  frames : s.frames = s'.frames
  /-- The recorded types are the same. -/
  typings : ∀ id, I id → s.typings.lookup id = s'.typings.lookup id
  /-- The same expressions name a type. -/
  typeNames : ∀ id, I id → s.typeNames.contains id = s'.typeNames.contains id

/-- The states also show the same headers of classes, and what the catalogs remember is right. -/
structure State.Agree (outside : ClassEnv) (own : String → Prop) (I : NodeId → Prop) (s s' : State) :
    Prop extends State.Parallel own I s s' where
  /-- The headers are the same. -/
  headers : (overlay s.declared outside).headers = (overlay s'.declared outside).headers
  /-- The first catalog is right. -/
  faithful : s.catalog.Faithful (overlay s.declared outside)
  /-- The second catalog is right. -/
  faithful' : s'.catalog.Faithful (overlay s'.declared outside)

namespace State

variable {outside : ClassEnv} {own : String → Prop} {I : NodeId → Prop} {s s' s'' : State}

theorem Parallel.symm (h : s.Parallel own I s') : s'.Parallel own I s where
  declared name hname := (h.declared name hname).symm
  distinct := h.distinct'
  distinct' := h.distinct
  catalog := h.catalog.symm
  table := h.table.symm
  frames := h.frames.symm
  typings id hid := (h.typings id hid).symm
  typeNames id hid := (h.typeNames id hid).symm

theorem Parallel.trans (h : s.Parallel own I s') (h' : s'.Parallel own I s'') :
    s.Parallel own I s'' where
  declared name hname := (h.declared name hname).trans (h'.declared name hname)
  distinct := h.distinct
  distinct' := h'.distinct'
  catalog := h.catalog.trans h'.catalog
  table := h.table.trans h'.table
  frames := h.frames.trans h'.frames
  typings id hid := (h.typings id hid).trans (h'.typings id hid)
  typeNames id hid := (h.typeNames id hid).trans (h'.typeNames id hid)

/-- A state is like itself in all respects. -/
theorem Parallel.whole (h : s.Parallel own I s') :
    s.Parallel (fun _ => True) (fun _ => True) s :=
  ⟨fun _ _ => rfl, h.distinct, h.distinct, .refl _, h.table.trans h.table.symm, rfl, fun _ _ => rfl,
    fun _ _ => rfl⟩

theorem Parallel.withTable (h : s.Parallel own I s') {t t' : SymbolTable} (ht : t.Agree t') :
    ({ s with table := t } : State).Parallel own I { s' with table := t' } :=
  ⟨h.declared, h.distinct, h.distinct', h.catalog, ht, h.frames, h.typings, h.typeNames⟩

theorem Parallel.record (h : s.Parallel own I s') (id : NodeId) (t : JType) :
    ({ s with typings := (id, t) :: s.typings } : State).Parallel own I
      { s' with typings := (id, t) :: s'.typings } := by
  refine ⟨h.declared, h.distinct, h.distinct', h.catalog, h.table, h.frames, ?_, h.typeNames⟩
  intro i hi
  rw [List.lookup_cons, List.lookup_cons, h.typings i hi]

theorem Parallel.declare (h : s.Parallel own I s') (c : ClassDef) :
    ({ s with declared := s.declared.insert c } : State).Parallel own I
      { s' with declared := s'.declared.insert c } := by
  refine ⟨?_, h.distinct.insert c, h.distinct'.insert c, h.catalog, h.table, h.frames, h.typings,
    h.typeNames⟩
  intro name hname
  rw [ClassTable.get?_insert, ClassTable.get?_insert, h.declared name hname]

namespace Agree

theorem symm (h : s.Agree outside own I s') : s'.Agree outside own I s :=
  ⟨h.toParallel.symm, h.headers.symm, h.faithful', h.faithful⟩

theorem trans (h : s.Agree outside own I s') (h' : s'.Agree outside own I s'') :
    s.Agree outside own I s'' :=
  ⟨h.toParallel.trans h'.toParallel, h.headers.trans h'.headers, h.faithful, h'.faithful'⟩

theorem left (h : s.Agree outside own I s') : s.Agree outside own I s := h.trans h.symm

theorem whole (h : s.Agree outside own I s') : s.Agree outside (fun _ => True) (fun _ => True) s :=
  ⟨h.toParallel.whole, rfl, h.faithful, h.faithful⟩

/-- States that declare the same classes agree. -/
theorem of_get? {own' : String → Prop} (h : s.Parallel own I s')
    (hget : ∀ name, s.declared.get? name = s'.declared.get? name)
    (hfaithful : s.catalog.Faithful (overlay s.declared outside))
    (hfaithful' : s'.catalog.Faithful (overlay s'.declared outside)) :
    s.Agree outside own' I s' :=
  ⟨{ h with declared := fun name _ => hget name },
    congrArg ClassEnv.headers (overlay_congr h.distinct h.distinct' hget outside), hfaithful, hfaithful'⟩

theorem like (h : s.Agree outside own I s') : s.Like s' := ⟨h.table.scopes, h.catalog, h.frames⟩

theorem withTable (h : s.Agree outside own I s') {t t' : SymbolTable} (ht : t.Agree t') :
    ({ s with table := t } : State).Agree outside own I { s' with table := t' } :=
  ⟨h.toParallel.withTable ht, h.headers, h.faithful, h.faithful'⟩

theorem remember (h : s.Agree outside own I s') {c c' : Catalog}
    (hc : s.catalog.Later (overlay s.declared outside) c)
    (hc' : s'.catalog.Later (overlay s'.declared outside) c') :
    ({ s with catalog := c } : State).Agree outside own I { s' with catalog := c' } :=
  ⟨⟨h.declared, h.distinct, h.distinct', hc.same.symm.trans (h.catalog.trans hc'.same), h.table,
    h.frames, h.typings, h.typeNames⟩, h.headers, hc.faithful, hc'.faithful⟩

theorem record (h : s.Agree outside own I s') (id : NodeId) (t : JType) :
    ({ s with typings := (id, t) :: s.typings } : State).Agree outside own I
      { s' with typings := (id, t) :: s'.typings } :=
  ⟨h.toParallel.record id t, h.headers, h.faithful, h.faithful'⟩

theorem mark (h : s.Agree outside own I s') (id : NodeId) :
    ({ s with typeNames := id :: s.typeNames } : State).Agree outside own I
      { s' with typeNames := id :: s'.typeNames } := by
  refine ⟨⟨h.declared, h.distinct, h.distinct', h.catalog, h.table, h.frames, h.typings, ?_⟩,
    h.headers, h.faithful, h.faithful'⟩
  intro i hi
  rw [List.contains_cons, List.contains_cons, h.typeNames i hi]

theorem withFrames (h : s.Agree outside own I s') (f : List Frame → List Frame) :
    ({ s with frames := f s.frames } : State).Agree outside own I
      { s' with frames := f s'.frames } :=
  ⟨⟨h.declared, h.distinct, h.distinct', h.catalog, h.table, congrArg f h.frames, h.typings,
    h.typeNames⟩, h.headers, h.faithful, h.faithful'⟩

theorem withCalls (h : s.Agree outside own I s') (n n' : Nat) :
    ({ s with calls := n } : State).Agree outside own I { s' with calls := n' } :=
  ⟨⟨h.declared, h.distinct, h.distinct', h.catalog, h.table, h.frames, h.typings, h.typeNames⟩,
    h.headers, h.faithful, h.faithful'⟩

theorem depth_eq (h : s.Agree outside own I s') : s.table.depth = s'.table.depth := by
  have hlength := congrArg List.length h.table.scopes
  simpa [SymbolTable.depth] using hlength

/-- If all classes are the same, so is the environment. -/
theorem overlay_eq (h : s.Agree outside (fun _ => True) I s') :
    overlay s.declared outside = overlay s'.declared outside :=
  overlay_congr h.distinct h.distinct' (fun name => h.declared name trivial) outside

end Agree

/-- The later state has the same classes and the same catalog but for what it remembers, and knows
of no other expressions that they name a type than those with the numbers `M`. -/
structure Stays (M : NodeId → Prop) (s s' : State) : Prop where
  /-- The classes are the same. -/
  declared : s'.declared = s.declared
  /-- The catalogs differ at most in what they remember. -/
  catalog : s.catalog.Same s'.catalog
  /-- No name of a placeholder is taken back. -/
  fresh : s.table.fresh ≤ s'.table.fresh
  /-- Other expressions are not touched. -/
  typeNames : ∀ id, ¬ M id → s'.typeNames.contains id = s.typeNames.contains id

theorem Stays.refl (M : NodeId → Prop) (s : State) : Stays M s s :=
  ⟨rfl, .refl _, Nat.le_refl _, fun _ _ => rfl⟩

theorem Stays.trans {M : NodeId → Prop} (h : Stays M s s') (h' : Stays M s' s'') : Stays M s s'' :=
  ⟨h'.declared.trans h.declared, h.catalog.trans h'.catalog, Nat.le_trans h.fresh h'.fresh,
    fun id hid => (h'.typeNames id hid).trans (h.typeNames id hid)⟩

end State

/-! ## Steps -/

/-- An operation on the symbol table changes nothing else. -/
theorem run_inTableFor (name : String) (op : TableM α) (setting : Setting) (s : State) :
    exec (inTableFor name op setting) s = ((exec op s.table).1.mapError fun cause => ⟨name, cause⟩,
      { s with table := (exec op s.table).2 }) := by
  refine Prod.ext ?_ (exec_inTableFor name op setting s)
  show (exec ((tryTable op >>= _) setting) s).1 = _
  rw [run_bind_ok (show exec (tryTable op setting) s = (.ok (exec op s.table).1, _) from rfl)]
  cases (exec op s.table).1 with
  | error e => rfl
  | ok a => rfl

theorem run_inTable (n : Node) (op : TableM α) (setting : Setting) (s : State) :
    exec (inTable n op setting) s = ((exec op s.table).1.mapError fun cause => ⟨title n, cause⟩,
      { s with table := (exec op s.table).2 }) :=
  run_inTableFor (title n) op setting s

/-- The step leads from states that agree to states that agree, with the same outcome. -/
structure Steady (setting : Setting) (own : String → Prop) (I M : NodeId → Prop) ⦃α : Type⦄
    (m : Check α) : Prop where
  /-- What it does to states that agree. -/
  agree : ∀ s s' : State, s.Agree setting.classes own I s' →
    (exec (m setting) s).1 = (exec (m setting) s').1 ∧
      (exec (m setting) s).2.Agree setting.classes own I (exec (m setting) s').2
  /-- What it leaves as it was. -/
  stays : ∀ s : State, s.Agree setting.classes own I s → s.Stays M (exec (m setting) s).2

namespace Steady

variable {setting : Setting} {own : String → Prop} {I M : NodeId → Prop}

theorem pure (a : α) : Steady setting own I M (Pure.pure a : Check α) :=
  ⟨fun _ _ h => ⟨rfl, h⟩, fun s _ => .refl M s⟩

theorem throw (e : AnalysisError) : Steady setting own I M (MonadExcept.throw e : Check α) :=
  ⟨fun _ _ h => ⟨rfl, h⟩, fun s _ => .refl M s⟩

theorem read : Steady setting own I M (MonadReader.read : Check Setting) :=
  ⟨fun _ _ h => ⟨rfl, h⟩, fun s _ => .refl M s⟩

/-- Runs of a step from states that agree. -/
theorem cases {m : Check α} (hm : Steady setting own I M m) {s s' : State}
    (h : s.Agree setting.classes own I s') :
    ∃ r t t', exec (m setting) s = (r, t) ∧ exec (m setting) s' = (r, t') ∧
      t.Agree setting.classes own I t' ∧ s.Stays M t := by
  obtain ⟨hresult, hagree⟩ := hm.agree s s' h
  have hstays := hm.stays s h.left
  rcases hrun : exec (m setting) s with ⟨r, t⟩
  rcases hrun' : exec (m setting) s' with ⟨r', t'⟩
  rw [hrun, hrun'] at hresult hagree
  rw [hrun] at hstays
  obtain rfl : r = r' := hresult
  exact ⟨r, t, t', rfl, rfl, hagree, hstays⟩

/-- It is enough to look at two runs side by side. -/
theorem of_cases {m : Check α} (h : ∀ s s' : State, s.Agree setting.classes own I s' →
    ∃ r t t', exec (m setting) s = (r, t) ∧ exec (m setting) s' = (r, t') ∧
      t.Agree setting.classes own I t' ∧ s.Stays M t) : Steady setting own I M m := by
  constructor
  · intro s s' hs
    obtain ⟨r, t, t', hrun, hrun', hagree, -⟩ := h s s' hs
    rw [hrun, hrun']
    exact ⟨rfl, hagree⟩
  · intro s hs
    obtain ⟨r, t, t', hrun, -, -, hstays⟩ := h s s hs
    rw [hrun]
    exact hstays

theorem bind {m : Check α} {k : α → Check β} (hm : Steady setting own I M m)
    (hk : ∀ a, Steady setting own I M (k a)) : Steady setting own I M (m >>= k) := by
  apply of_cases
  intro s s' hs
  obtain ⟨r, t, t', hrun, hrun', hagree, hstays⟩ := hm.cases hs
  cases r with
  | error e => exact ⟨.error e, t, t', run_bind_error hrun, run_bind_error hrun', hagree, hstays⟩
  | ok a =>
    obtain ⟨r, u, u', hnext, hnext', hagree', hstays'⟩ := (hk a).cases hagree
    rw [run_bind_ok hrun, run_bind_ok hrun']
    exact ⟨r, u, u', hnext, hnext', hagree', hstays.trans hstays'⟩

theorem attempt {m : Check α} (hm : Steady setting own I M m) :
    Steady setting own I M (attempt m) := by
  apply of_cases
  intro s s' hs
  obtain ⟨r, t, t', hrun, hrun', hagree, hstays⟩ := hm.cases hs
  refine ⟨.ok r, t, t', ?_, ?_, hagree, hstays⟩
  · rw [exec_attempt, hrun]
  · rw [exec_attempt, hrun']

/-- A change of the state. -/
theorem update {f : State → α × State}
    (hagree : ∀ s s' : State, s.Agree setting.classes own I s' →
      (f s).1 = (f s').1 ∧ (f s).2.Agree setting.classes own I (f s').2)
    (hstays : ∀ s : State, s.Stays M (f s).2) : Steady setting own I M (modifyGet f : Check α) :=
  ⟨fun s s' h => ⟨congrArg Except.ok (hagree s s' h).1, (hagree s s' h).2⟩, fun s _ => hstays s⟩

/-- What follows is the same for both states. -/
theorem look {k : State → Check α}
    (hsame : ∀ s s' : State, s.Agree setting.classes own I s' → k s = k s')
    (hk : ∀ s, Steady setting own I M (k s)) : Steady setting own I M (MonadState.get >>= k) := by
  apply of_cases
  intro s s' hs
  obtain ⟨r, t, t', hrun, hrun', hagree, hstays⟩ := (hk s).cases hs
  refine ⟨r, t, t', hrun, ?_, hagree, hstays⟩
  show exec (k s' setting) s' = _
  rw [← hsame s s' hs]
  exact hrun'

theorem record (id : NodeId) (t : JType) : Steady setting own I M (record id t) :=
  update (fun _ _ h => ⟨rfl, h.record id t⟩) fun _ => ⟨rfl, .refl _, Nat.le_refl _, fun _ _ => rfl⟩

/-- Of the result of an operation on the symbol table, what follows sees no more than `view`. -/
theorem tryTable {op : TableM α} {view : α → γ} {k : Except ResolveError α → Check β}
    (hop : SymbolTable.Uniform view op) (hsame : ∀ r r', r.map view = r'.map view → k r = k r')
    (hk : ∀ r, Steady setting own I M (k r)) : Steady setting own I M (tryTable op >>= k) := by
  apply of_cases
  intro s s' hs
  obtain ⟨hview, htable⟩ := hop.agree s.table s'.table hs.table
  have hfirst : s.Stays M { s with table := (exec op s.table).2 } :=
    ⟨rfl, .refl _, hop.fresh s.table hs.left.table, fun _ _ => rfl⟩
  obtain ⟨r, t, t', hrun, hrun', hagree, hstays⟩ := (hk (exec op s.table).1).cases (hs.withTable htable)
  refine ⟨r, t, t', hrun, ?_, hagree, hfirst.trans hstays⟩
  show exec (k (exec op s'.table).1 setting) { s' with table := (exec op s'.table).2 } = _
  rw [← hsame _ _ hview]
  exact hrun'

/-! ## Names of types -/

end Steady

/-- What a simple type name denotes. -/
def simpleMeaning (env : ClassEnv) (s : State) (simple : String) : Option JType :=
  match boundType? s.table.scopes simple with
  | some t => some t
  | none =>
    match s.table.enclosingClasses.findSome? fun owner => s.catalog.memberClass? env owner simple with
    | some member => some (.ofClass member)
    | none => (s.catalog.meaning env simple).map .ofClass

/-- What a type name denotes. -/
def namedMeaning (env : ClassEnv) (s : State) (name : QualifiedName) : Option JType :=
  match name.segments with
  | [] => none
  | first :: rest =>
    match simpleMeaning env s first, rest with
    | some head, [] => some head
    | some head, rest =>
      if head.isTypeVar then none else (s.catalog.memberPath? env head.name rest).map .ofClass
    | none, [] => none
    | none, _ => (env.loadCanonical name.toDotted).map .ofClass

section Meaning

variable {setting : Setting} {s s' : State}

/-- A simple name is looked up without any other effect than that the answer is remembered. -/
theorem simpleType?_run (h : s.catalog.Faithful (overlay s.declared setting.classes))
    (simple : String) :
    ∃ c, s.catalog.Later (overlay s.declared setting.classes) c ∧
      exec (simpleType? simple setting) s
        = (.ok (simpleMeaning (overlay s.declared setting.classes) s simple), { s with catalog := c }) := by
  have hrun : exec (simpleType? simple setting) s = exec ((match boundType? s.table.scopes simple with
    | some t => Pure.pure (some t)
    | none => do
      let env ← classes
      match s.table.enclosingClasses.findSome? fun owner => s.catalog.memberClass? env owner simple with
      | some member => return some (.ofClass member)
      | none => return (← inCatalog (Catalog.resolve env simple)).map .ofClass : Check (Option JType))
      setting) s := rfl
  rw [hrun, simpleMeaning]
  cases boundType? s.table.scopes simple with
  | some t => exact ⟨s.catalog, .refl h, rfl⟩
  | none =>
    dsimp only
    rw [run_bind_ok (run_classes _ _)]
    cases s.table.enclosingClasses.findSome? fun owner =>
      s.catalog.memberClass? (overlay s.declared setting.classes) owner simple with
    | some member => exact ⟨s.catalog, .refl h, rfl⟩
    | none =>
      obtain ⟨hanswer, hlater⟩ := Catalog.resolve_run h simple
      refine ⟨_, hlater, ?_⟩
      rw [← hanswer]
      rfl

theorem namedType?_run (h : s.catalog.Faithful (overlay s.declared setting.classes))
    (name : QualifiedName) :
    ∃ c, s.catalog.Later (overlay s.declared setting.classes) c ∧
      exec (namedType? name setting) s
        = (.ok (namedMeaning (overlay s.declared setting.classes) s name), { s with catalog := c }) := by
  unfold namedType? namedMeaning
  cases name.segments with
  | nil => exact ⟨s.catalog, .refl h, rfl⟩
  | cons first rest =>
    obtain ⟨c, hlater, hrun⟩ := simpleType?_run h first
    refine ⟨c, hlater, ?_⟩
    dsimp only
    rw [run_bind_ok hrun]
    cases simpleMeaning (overlay s.declared setting.classes) s first with
    | none =>
      cases rest with
      | nil => rfl
      | cons second rest => rfl
    | some head =>
      cases rest with
      | nil => rfl
      | cons second rest =>
        dsimp only
        split
        · rfl
        · rw [hlater.same.memberPath?]
          rfl

variable {own : String → Prop} {I : NodeId → Prop} (h : s.Agree setting.classes own I s')

include h

theorem State.Agree.simpleMeaning (simple : String) :
    simpleMeaning (overlay s.declared setting.classes) s simple
      = simpleMeaning (overlay s'.declared setting.classes) s' simple := by
  have hmember : ∀ owner, s.catalog.memberClass? (overlay s.declared setting.classes) owner simple
      = s'.catalog.memberClass? (overlay s'.declared setting.classes) owner simple := by
    intro owner
    rw [← Catalog.memberClass?_headers, h.headers, Catalog.memberClass?_headers, h.catalog.memberClass?]
  have hmeaning : s.catalog.meaning (overlay s.declared setting.classes) simple
      = s'.catalog.meaning (overlay s'.declared setting.classes) simple := by
    rw [← Catalog.meaning_headers, h.headers, Catalog.meaning_headers, h.catalog.meaning]
  unfold Analysis.simpleMeaning
  rw [boundType?_plain h.table.scopes, h.like.enclosingClasses, funext hmember, hmeaning]

theorem State.Agree.namedMeaning (name : QualifiedName) :
    namedMeaning (overlay s.declared setting.classes) s name
      = namedMeaning (overlay s'.declared setting.classes) s' name := by
  have hpath : ∀ owner path, s.catalog.memberPath? (overlay s.declared setting.classes) owner path
      = s'.catalog.memberPath? (overlay s'.declared setting.classes) owner path := by
    intro owner path
    rw [← Catalog.memberPath?_headers, h.headers, Catalog.memberPath?_headers, h.catalog.memberPath?]
  have hcanonical : ∀ dotted, (overlay s.declared setting.classes).loadCanonical dotted
      = (overlay s'.declared setting.classes).loadCanonical dotted := by
    intro dotted
    rw [← ClassEnv.loadCanonical_headers, h.headers, ClassEnv.loadCanonical_headers]
  unfold Analysis.namedMeaning
  simp only [h.simpleMeaning, hpath, hcanonical]

end Meaning

namespace Steady

variable {setting : Setting} {own : String → Prop} {I M : NodeId → Prop}

theorem stays_remembering {s : State} {c : Catalog} {env : ClassEnv} (h : s.catalog.Later env c) :
    s.Stays M { s with catalog := c } :=
  ⟨rfl, h.same, Nat.le_refl _, fun _ _ => rfl⟩

theorem simpleType? (simple : String) : Steady setting own I M (simpleType? simple) := by
  apply of_cases
  intro s s' hs
  obtain ⟨c, hlater, hrun⟩ := simpleType?_run hs.faithful simple
  obtain ⟨c', hlater', hrun'⟩ := simpleType?_run hs.faithful' simple
  rw [← hs.simpleMeaning] at hrun'
  exact ⟨_, _, _, hrun, hrun', hs.remember hlater hlater', stays_remembering hlater⟩

theorem namedType? (name : QualifiedName) : Steady setting own I M (namedType? name) := by
  apply of_cases
  intro s s' hs
  obtain ⟨c, hlater, hrun⟩ := namedType?_run hs.faithful name
  obtain ⟨c', hlater', hrun'⟩ := namedType?_run hs.faithful' name
  rw [← hs.namedMeaning] at hrun'
  exact ⟨_, _, _, hrun, hrun', hs.remember hlater hlater', stays_remembering hlater⟩

/-- The steps that give classes their members are steady. -/
theorem resolving : Resolving (Steady setting own I M) where
  pure := pure
  throw := throw
  bind := bind
  record := record
  namedType? name _ := namedType? name
  attempt := attempt
  tryTable hop _ := tryTable hop

/-! ## Bodies -/

/-- Also the members of classes are bound. -/
theorem bindSymbol (n : Node) (symbol : Symbol) :
    Steady setting own I M (inTable n (Analysis.bindSymbol symbol)) := by
  unfold Analysis.inTable
  apply tryTable (.bindSymbol symbol)
  · rintro (e | a) (e' | a') hview
    · cases hview
      rfl
    · cases hview
    · cases hview
    · rfl
  · rintro (e | a)
    · exact throw _
    · exact pure a

theorem unwindTo (depth : Nat) : Steady setting own I M (unwindTo depth) := by
  have hgo : ∀ n, Steady setting own I M (unwindTo.go n) := by
    intro n
    induction n with
    | zero => exact pure _
    | succ n ih =>
      exact resolving.inTableForThen SymbolTable.uniform_popScope .popScope _ (fun _ _ _ => rfl) fun _ => ih
  apply look _ fun s => hgo _
  intro s s' hs
  rw [hs.depth_eq]

theorem retrying {m : Check α} {next : α → Check β} {other : AnalysisError → Check β}
    (hm : Steady setting own I M m) (hnext : ∀ a, Steady setting own I M (next a))
    (hother : ∀ e, Steady setting own I M (other e)) :
    Steady setting own I M (retrying m next other) := by
  apply of_cases
  intro s s' hs
  obtain ⟨r, t, t', hrun, hrun', hagree, hstays⟩ := hm.cases hs
  have hattempt : exec (Analysis.attempt m setting) s = (.ok r, t) := by rw [exec_attempt, hrun]
  have hattempt' : exec (Analysis.attempt m setting) s' = (.ok r, t') := by rw [exec_attempt, hrun']
  rw [Analysis.retrying, run_bind_ok (run_get _ s), run_bind_ok (run_get _ s'),
    run_bind_ok hattempt, run_bind_ok hattempt']
  cases r with
  | ok a =>
    obtain ⟨r, v, v', hv, hv', hagree', hstays'⟩ := (hnext a).cases hagree
    exact ⟨r, v, v', hv, hv', hagree', hstays.trans hstays'⟩
  | error e =>
    dsimp only
    split
    · exact ⟨.error e, t, t', rfl, rfl, hagree, hstays⟩
    · rw [hs.depth_eq]
      obtain ⟨r, v, v', hv, hv', hagree', hstays'⟩ := (unwindTo s'.table.depth).cases hagree
      cases r with
      | error e =>
        exact ⟨.error e, v, v', run_bind_error hv, run_bind_error hv', hagree', hstays.trans hstays'⟩
      | ok a =>
        rw [run_bind_ok hv, run_bind_ok hv', run_bind_ok (run_modify _ setting v),
          run_bind_ok (run_modify _ setting v')]
        obtain ⟨r, w, w', hw, hw', hagree'', hstays''⟩ :=
          (hother e).cases (hagree'.withCalls s.calls s'.calls)
        have hreset : t.Stays M { v with calls := s.calls } :=
          ⟨hstays'.declared, hstays'.catalog, hstays'.fresh, hstays'.typeNames⟩
        exact ⟨r, w, w', hw, hw', hagree'', hstays.trans (hreset.trans hstays'')⟩

theorem exec_attachMembers (d : Decl) (members : Scope) (s : State) :
    exec (attachMembers d members setting) s
      = (.ok (), { s with table := s.table.withMembers d.name members }) := by
  rw [attachMembers, run_modify, SymbolTable.withMembers]
  cases s.table.find? d.name .type with
  | none => rfl
  | some sym =>
    dsimp only
    split
    · rfl
    · rfl

/-- The members that a class leaves behind may have other identities. -/
theorem leaveClass (d : Decl) : Steady setting own I M (do attachMembers d (← closeClass d)) := by
  apply of_cases
  intro s s' hs
  obtain ⟨hview, htable⟩ := SymbolTable.uniform_popScope.agree _ _ hs.table
  have hfresh := SymbolTable.uniform_popScope.fresh _ hs.left.table
  have hstays : s.Stays M { s with table := (exec SymbolTable.popScope s.table).2 } :=
    ⟨rfl, .refl _, hfresh, fun _ _ => rfl⟩
  have hclosed := run_inTable (.decl d) SymbolTable.popScope setting s
  have hclosed' := run_inTable (.decl d) SymbolTable.popScope setting s'
  rcases hpop : (exec SymbolTable.popScope s.table).1 with e | members
  · rcases hpop' : (exec SymbolTable.popScope s'.table).1 with e' | members'
    · rw [hpop, hpop'] at hview
      cases hview
      rw [hpop] at hclosed
      rw [hpop'] at hclosed'
      exact ⟨_, _, _, run_bind_error hclosed, run_bind_error hclosed', hs.withTable htable, hstays⟩
    · rw [hpop, hpop'] at hview
      cases hview
  · rcases hpop' : (exec SymbolTable.popScope s'.table).1 with e' | members'
    · rw [hpop, hpop'] at hview
      cases hview
    · rw [hpop, hpop'] at hview
      rw [hpop] at hclosed
      rw [hpop'] at hclosed'
      have howner : members.plain.owner = members'.plain.owner :=
        congrArg Scope.owner (Except.ok.inj hview)
      rw [closeClass, run_bind_ok hclosed, run_bind_ok hclosed', exec_attachMembers, exec_attachMembers]
      refine ⟨_, _, _, rfl, rfl, hs.withTable (htable.withMembers d.name howner), ?_⟩
      exact hstays.trans ⟨rfl, .refl _, Nat.le_of_eq (SymbolTable.fresh_withMembers ..).symm,
        fun _ _ => rfl⟩

/-- The steps that look at the setting and at the state are steady. -/
theorem looking : Looking (Steady setting (fun _ => True) I M) where
  toNaming := resolving.toNaming
  read := read
  classes := by
    refine ⟨fun s s' hs => ⟨?_, hs⟩, fun s _ => .refl M s⟩
    show Except.ok (overlay s.declared setting.classes) = Except.ok (overlay s'.declared setting.classes)
    rw [hs.overlay_eq]
  look hsame hk := look (fun s s' hs => hsame s s' hs.like) hk

/-- The check of a unit without classes in bodies is composed of steady steps. -/
theorem compositional {u : SourceUnit} (hbodies : u.bodyClasses = [])
    (hI : ∀ n ∈ u.nodes, I n.id) (hM : ∀ n ∈ u.nodes, M n.id) :
    Compositional u (Steady setting (fun _ => True) I M) where
  toResolving := resolving
  read := read
  classes := looking.classes
  look := looking.look
  frames f := update (fun _ _ hs => ⟨rfl, hs.withFrames f⟩) fun _ =>
    ⟨rfl, .refl _, Nat.le_refl _, fun _ _ => rfl⟩
  calls f := update (fun _ _ hs => ⟨rfl, hs.withCalls _ _⟩) fun _ =>
    ⟨rfl, .refl _, Nat.le_refl _, fun _ _ => rfl⟩
  retrying := retrying
  simpleType? := simpleType?
  inBody := looking.inBody resolving bindSymbol leaveClass
  namesType e he := by
    refine look (fun s s' hs => ?_) fun s => pure _
    rw [hs.typeNames e.id (hI _ he)]
  markTypeName e he := by
    refine update (fun s s' hs => ⟨rfl, hs.mark e.id⟩) fun s => ⟨rfl, .refl _, Nat.le_refl _, ?_⟩
    intro id hid
    have hne : id ≠ e.id := fun heq => hid (heq ▸ hM _ he)
    rw [List.contains_cons, beq_false_of_ne hne, Bool.false_or]
  typeOf? hn hr := by
    refine look (fun s s' hs => ?_) fun s => pure _
    have hnode := hI _ (SourceUnit.child_mem_nodes hn (receiver?_mem_children hr))
    exact congrArg _ (hs.typings _ hnode)
  inCatalog hne := absurd hbodies hne
  declare hne := absurd hbodies hne

end Steady

end JavaSema.Analysis
