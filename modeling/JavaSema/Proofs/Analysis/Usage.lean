import JavaSema.Proofs.Analysis.Agree
import JavaSema.Proofs.Analysis.Bodies
import JavaSema.Proofs.Analysis.Order
import JavaSema.Proofs.Scope.Exit

/-!
# Which methods a call reads

A call that was resolved reads a method symbol that is looked up anew, by the name and the erased
parameters of the selected method.  The selected member itself is not compared, so that the symbol may
stand for a method of another class.

There are four groups.

* Matching symbols.  `Innermost` describes the symbol that a look-up by name and erased parameters
  finds, and `locateMethod?_cases` says that it finds that one.
* Members.  Where the members of a class are distinct, name and erased parameters tell which member is
  meant (`ClassDef.DistinctMembers.eq_of_memberAt?`).
* Reads.  `calls_read_innermost` says what a call reads, and when that is the selected member.
* A class that calls a method of another class and reads one of its own.
-/

namespace JavaSema

/-! ## Matching symbols -/

/-- Whether the symbol is a method with the name and the erased parameters of the definition. -/
def Symbol.Matches (u : Symbol) (m : MethodDef) : Prop :=
  u.kind = .method ∧ u.name = m.name ∧ u.params.map JType.erasure = m.params.map JType.erasure

theorem Symbol.matches_iff (u : Symbol) (m : MethodDef) :
    u.sameBinding (.ofMethod m.name .void m.params) = true ↔ u.Matches m := by
  rw [sameBinding_iff, Matches]
  constructor
  · rintro ⟨hname, hkind, hparams⟩
    exact ⟨hkind, hname, hparams hkind⟩
  · rintro ⟨hkind, hname, hparams⟩
    exact ⟨hname, hkind, fun _ => hparams⟩

namespace SymbolTable

/-- The symbol matches the method, its scope is open, and no symbol of a scope further inside matches
the method. -/
def Innermost (t : SymbolTable) (m : MethodDef) (scope : Scope) (u : Symbol) : Prop :=
  ∃ inner outer, t.scopes = inner ++ scope :: outer ∧ u ∈ scope.index ∧ u.Matches m ∧
    ∀ sc ∈ inner, ∀ r ∈ sc.index, ¬ r.Matches m

section

variable {t : SymbolTable} {m : MethodDef} {scope : Scope} {u : Symbol} (h : t.Innermost m scope u)

include h

theorem Innermost.mem : scope ∈ t.scopes := by
  obtain ⟨inner, outer, hscopes, -⟩ := h
  simp [hscopes]

theorem Innermost.index : u ∈ scope.index := by
  obtain ⟨_, _, -, hu, -⟩ := h
  exact hu

theorem Innermost.matches : u.Matches m := by
  obtain ⟨_, _, -, -, hu, -⟩ := h
  exact hu

end

theorem find?_get_matches (scope : Scope) (m : MethodDef) :
    ((scope.get m.name).find? fun s => s.sameBinding (.ofMethod m.name .void m.params))
      = scope.index.find? fun s => s.sameBinding (.ofMethod m.name .void m.params) :=
  hidden?_eq scope (.ofMethod m.name .void m.params)

/-- The look-up finds an innermost symbol that matches, if any open scope has one that matches. -/
theorem locateMethod?_cases (t : SymbolTable) (m : MethodDef) :
    (t.locateMethod? m.name m.params = none ∧
        ∀ scope ∈ t.scopes, ∀ u ∈ scope.index, ¬ u.Matches m) ∨
      ∃ scope u, t.locateMethod? m.name m.params = some (scope, u) ∧ t.Innermost m scope u := by
  have hnone : ∀ sc : Scope, (((sc.get m.name).find? fun s =>
      s.sameBinding (.ofMethod m.name .void m.params)).map fun s => (sc, s)) = none →
      ∀ u ∈ sc.index, ¬ u.Matches m := by
    intro sc hsc u hu hmatches
    rw [find?_get_matches, Option.map_eq_none_iff, List.find?_eq_none] at hsc
    exact hsc u hu ((u.matches_iff m).mpr hmatches)
  cases hlocate : t.locateMethod? m.name m.params with
  | none =>
    refine .inl ⟨rfl, fun scope hscope => hnone scope ?_⟩
    exact List.findSome?_eq_none_iff.mp hlocate scope hscope
  | some found =>
    obtain ⟨inner, scope, outer, hscopes, hfound, hinner⟩ := List.findSome?_eq_some_iff.mp hlocate
    obtain ⟨u, hu, rfl⟩ := Option.map_eq_some_iff.mp hfound
    rw [find?_get_matches] at hu
    refine .inr ⟨scope, u, rfl, inner, outer, hscopes, List.mem_of_find?_eq_some hu, ?_, ?_⟩
    · rw [← Symbol.matches_iff]
      simpa using List.find?_some hu
    · exact fun sc hsc => hnone sc (hinner sc hsc)

end SymbolTable

/-! ## Members -/

theorem Analysis.declaredMethod?_eq (env : ClassEnv) (ref : MemberRef) :
    declaredMethod? env ref = (env.find? ref.owner).bind fun c => c.memberAt? ref := by
  cases ref with
  | method | constructor => rfl
  | field owner name =>
    cases hc : env.find? owner <;> simp [declaredMethod?, MemberRef.owner, hc, ClassDef.memberAt?]

/-- No two methods or constructors of the class have the same name and erased parameters. -/
def ClassDef.DistinctMembers (c : ClassDef) : Prop :=
  (c.methods ++ c.constructors).Pairwise fun m m' =>
    ¬ (m.name = m'.name ∧ m.params.map JType.erasure = m'.params.map JType.erasure)

namespace ClassDef

variable {c : ClassDef} {ref ref' : MemberRef} {m m' : MethodDef}

/-- The place of the member among all methods and constructors of the class. -/
def placeOf (c : ClassDef) : MemberRef → Nat
  | .method _ i => i
  | .constructor _ i => c.methods.length + i
  | .field _ _ => 0

theorem getElem?_placeOf (hm : c.memberAt? ref = some m) :
    (c.methods ++ c.constructors)[c.placeOf ref]? = some m := by
  cases ref with
  | field => cases hm
  | method owner i =>
    have hi : c.methods[i]? = some m := hm
    obtain ⟨hlt, -⟩ := List.getElem?_eq_some_iff.mp hi
    rw [placeOf, List.getElem?_append_left hlt, hi]
  | constructor owner i =>
    rw [placeOf, List.getElem?_append_right (Nat.le_add_right _ _), Nat.add_sub_cancel_left]
    exact hm

/-- Methods come before constructors, so that a place tells which member it is. -/
theorem eq_of_placeOf (hm : c.memberAt? ref = some m) (hm' : c.memberAt? ref' = some m')
    (howner : ref.owner = ref'.owner) (hplace : c.placeOf ref = c.placeOf ref') : ref = ref' := by
  have hmethod : ∀ {i : Nat} {m : MethodDef}, c.methods[i]? = some m → i < c.methods.length :=
    fun h => (List.getElem?_eq_some_iff.mp h).1
  cases ref with
  | field => cases hm
  | method owner i =>
    cases ref' with
    | field => cases hm'
    | method owner' j =>
      obtain rfl : owner = owner' := howner
      obtain rfl : i = j := hplace
      rfl
    | constructor owner' j =>
      have := hmethod hm
      simp only [placeOf] at hplace
      omega
  | constructor owner i =>
    cases ref' with
    | field => cases hm'
    | method owner' j =>
      have := hmethod hm'
      simp only [placeOf] at hplace
      omega
    | constructor owner' j =>
      obtain rfl : owner = owner' := howner
      obtain rfl : i = j := Nat.add_left_cancel hplace
      rfl

/-- Two members of the class that have the same name and erased parameters are the same one. -/
theorem DistinctMembers.eq_of_memberAt? (h : c.DistinctMembers) (hm : c.memberAt? ref = some m)
    (hm' : c.memberAt? ref' = some m') (howner : ref.owner = ref'.owner) (hname : m.name = m'.name)
    (hparams : m.params.map JType.erasure = m'.params.map JType.erasure) : ref = ref' := by
  apply eq_of_placeOf hm hm' howner
  rw [DistinctMembers, List.pairwise_iff_getElem] at h
  obtain ⟨hlt, rfl⟩ := List.getElem?_eq_some_iff.mp (getElem?_placeOf hm)
  obtain ⟨hlt', rfl⟩ := List.getElem?_eq_some_iff.mp (getElem?_placeOf hm')
  rcases Nat.lt_trichotomy (c.placeOf ref) (c.placeOf ref') with hless | hsame | hless
  · exact absurd ⟨hname, hparams⟩ (h _ _ hlt hlt' hless)
  · exact hsame
  · exact absurd ⟨hname.symm, hparams.symm⟩ (h _ _ hlt' hlt hless)

end ClassDef

namespace Analysis

open Source SymbolTable

/-! ## Reads -/

/-- A call is counted.  Nothing else happens if the selected method is not declared. -/
theorem exec_recordCall_none {setting : Setting} {s : State} {candidate : MethodCandidate}
    (hm : declaredMethod? (overlay s.declared setting.classes) candidate.member = none) (n : Node) :
    exec (recordCall n candidate setting) s = (.ok (), { s with calls := s.calls + 1 }) := by
  have hclasses : exec (classes setting) { s with calls := s.calls + 1 }
      = (.ok (overlay s.declared setting.classes), { s with calls := s.calls + 1 }) := rfl
  rw [recordCall, run_bind_ok (run_modify _ _ _), run_bind_ok hclasses, hm]
  rfl

/-- Else the symbol with the name and the parameters of the selected method is read. -/
theorem exec_recordCall_some {setting : Setting} {s : State} {candidate : MethodCandidate}
    {m : MethodDef}
    (hm : declaredMethod? (overlay s.declared setting.classes) candidate.member = some m) (n : Node) :
    exec (recordCall n candidate setting) s
      = (((exec (lookupMethodForRead m.name m.params) s.table).1.mapError fun cause =>
            (⟨title n, cause⟩ : AnalysisError)).map fun _ => (),
          { s with
            calls := s.calls + 1
            table := (exec (lookupMethodForRead m.name m.params) s.table).2 }) := by
  have hclasses : exec (classes setting) { s with calls := s.calls + 1 }
      = (.ok (overlay s.declared setting.classes), { s with calls := s.calls + 1 }) := rfl
  have htable := run_inTable n (lookupMethodForRead m.name m.params) setting
    { s with calls := s.calls + 1 }
  rw [recordCall, run_bind_ok (run_modify _ _ _), run_bind_ok hclasses, hm]
  show exec (((fun _ => ()) <$> inTable n (lookupMethodForRead m.name m.params)) setting) _ = _
  rw [map_eq_pure_bind]
  dsimp only at htable
  cases hlookup : (exec (lookupMethodForRead m.name m.params) s.table).1 with
  | error e =>
    rw [hlookup] at htable
    rw [run_bind_error htable]
    rfl
  | ok found =>
    rw [hlookup] at htable
    rw [run_bind_ok htable]
    rfl

/-- A symbol that stands for a member of a class and matches the selected method stands for the
selected member only if the class declares that, and always then if the class still has that definition
and its members are distinct. -/
theorem member_of_isMember {env : ClassEnv} {ref : MemberRef} {m m' : MethodDef}
    (hm : declaredMethod? env ref = some m) {u : Symbol} (hu : u.Matches m) {c : ClassDef}
    (hmember : u.IsMember c m') :
    (u.type.member = some ref → c.name = ref.owner) ∧
      (env.find? c.name = some c → c.DistinctMembers → c.name = ref.owner →
        u.type.member = some ref) := by
  obtain ⟨hname, hparams, ref', href', howner', hat'⟩ := hmember
  rw [href', ← howner']
  constructor
  · rintro ⟨rfl⟩
    rfl
  · intro hc hdistinct hsame
    rw [declaredMethod?_eq, ← hsame, hc] at hm
    have hat : c.memberAt? ref = some m := hm
    obtain ⟨-, hname', hparams'⟩ := hu
    rw [hdistinct.eq_of_memberAt? hat' hat hsame (hname.symm.trans hname')
      (by rw [← hparams, hparams'])]

/-- The checks of the nodes of a unit keep methods in the bodies of their classes.

In every state, a call counts once and reads at most one symbol: an innermost method symbol with the
name and the erased parameters of the selected method, of which the observers of the table, of the
scope and of the symbol are told in this order until one rejects it.  If no observer does, it reads
nothing only if no open scope has such a symbol.

Where methods are in the bodies of their classes, the symbol stands for a member of the class in whose
body it is.  It stands for the selected member only if that class declares the selected method, and
always then, if the class still has the definition that it had in its body and its members are
distinct. -/
theorem calls_read_innermost (unit : SourceUnit) :
    (∀ height, (Checker.upTo height).Has (· ∈ unit.nodes) KeepsBodies) ∧
      ∀ (setting : Setting) (s : State) (n : Node) (candidate : MethodCandidate), ∃ reads,
        (exec (recordCall n candidate setting) s).2 = { s with
          calls := s.calls + 1
          table := { s.table with log := reads.reverse ++ s.table.log } } ∧
        ((∀ log, s.table.rejects log = false) → (exec (recordCall n candidate setting) s).1 = .ok ()) ∧
        ((reads = [] ∧ ∀ m, declaredMethod? (overlay s.declared setting.classes) candidate.member
              = some m → ∀ scope ∈ s.table.scopes, ∀ u ∈ scope.index, ¬ u.Matches m) ∨
          ∃ m scope u, declaredMethod? (overlay s.declared setting.classes) candidate.member = some m ∧
            s.table.Innermost m scope u ∧ reads <+: s.table.told .read scope u ∧
            ((∀ log, s.table.rejects log = false) → reads = s.table.told .read scope u) ∧
            (s.table.HoldsBodies → IsPlain m.name →
              ∃ c m', scope.owner = some c.name ∧ u.IsMember c m') ∧
            ∀ c m', u.IsMember c m' →
              (u.type.member = some candidate.member → c.name = candidate.owner) ∧
              ((overlay s.declared setting.classes).find? c.name = some c → c.DistinctMembers →
                c.name = candidate.owner → u.type.member = some candidate.member)) := by
  refine ⟨fun height => KeepsBodies.upTo unit height, fun setting s n candidate => ?_⟩
  cases hm : declaredMethod? (overlay s.declared setting.classes) candidate.member with
  | none =>
    rw [exec_recordCall_none hm]
    exact ⟨[], rfl, fun _ => rfl, .inl ⟨rfl, nofun⟩⟩
  | some m =>
    have hlookup : exec (lookupMethodForRead m.name m.params) s.table
        = exec (observed .read (s.table.locateMethod? m.name m.params)) s.table := by
      rw [lookupMethodForRead, exec_bind_ok (exec_get _)]
    have htells := Tells.observed (t := s.table) .read (s.table.locateMethod? m.name m.params)
    rw [exec_recordCall_some hm, hlookup]
    rcases s.table.locateMethod?_cases m with ⟨hnone, hall⟩ | ⟨scope, u, hfound, hinner⟩
    · rw [hnone]
      refine ⟨[], rfl, fun _ => rfl, .inl ⟨rfl, ?_⟩⟩
      rintro _ ⟨rfl⟩
      exact hall
    · have hmember : s.table.HoldsBodies → IsPlain m.name →
          ∃ c m', scope.owner = some c.name ∧ u.IsMember c m' := by
        intro hbodies hplain
        exact hbodies scope hinner.mem u hinner.index hinner.matches.1 (hinner.matches.2.1 ▸ hplain)
      have hexact : ∀ c m', u.IsMember c m' → _ ∧ _ := fun _ _ => member_of_isMember hm hinner.matches
      rw [hfound] at htells ⊢
      rcases htells s.table.log with ⟨a, hrun⟩ | ⟨e, made, hrun, hmade, hrejected⟩
      · rw [show exec _ s.table = _ from hrun]
        exact ⟨_, rfl, fun _ => rfl,
          .inr ⟨m, scope, u, rfl, hinner, List.prefix_rfl, fun _ => rfl, hmember, hexact⟩⟩
      · rw [show exec _ s.table = _ from hrun]
        have hnot : ¬ ∀ log, s.table.rejects log = false := by
          intro haccepts
          rw [haccepts _] at hrejected
          cases hrejected
        exact ⟨made, rfl, fun haccepts => absurd haccepts hnot,
          .inr ⟨m, scope, u, rfl, hinner, hmade, fun haccepts => absurd haccepts hnot, hmember,
            hexact⟩⟩

/-- A class with two methods of one name. -/
def overloadsF : ClassDef :=
  { ClassDef.empty "A" .ordinary with
    methods :=
      [{ name := "f", params := [], returnType := .void },
        { name := "f", params := [.string], returnType := .void }] }

/-- The members of the class, as they are bound in its body. -/
def membersOfF : List Symbol :=
  memberSymbols (fun _ => none) (plainClass 0 "A" none) overloadsF

/-- The state in the body of the class, before any symbol is bound there. -/
def beforeMembers : State :=
  { declared := ⟨[overloadsF]⟩
    table := (exec (pushClassScope "A" none) { observer := some "unit" }).2 }

/-- The state in a block in the body of the class. -/
def insideBody : State :=
  let bound := (exec ((membersOfF.forM fun u =>
    inTable (.decl (plainClass 0 "A" none)) (bindSymbol u)) { classes := ClassTable.toEnv {} })
    beforeMembers).2
  { bound with table := (exec (pushScope .block none) bound.table).2 }

theorem insideBody_holdsBodies : insideBody.table.HoldsBodies := by
  apply SymbolTable.KeepsBodies.pushScope
  apply KeepsBodies.holdsBodies_members membersOfF (fun u => isMember_of_mem_memberSymbols)
  · exact SymbolTable.KeepsBodies.pushClassScope "A" none _ fun scope hscope => by cases hscope
  · rfl

/-- In the block a call of the second method is a read of its symbol, which is in the body. -/
theorem insideBody_reads :
    insideBody.table.HoldsBodies ∧ IsPlain "f" ∧ (∀ log, insideBody.table.rejects log = false) ∧
      ∃ scope u, exec (recordCall (.decl (plainClass 0 "A" none))
          { member := .method "A" 1
            definition := { name := "f", params := [.string], returnType := .void } }
          { classes := ClassTable.toEnv {} }) insideBody = (.ok (), { insideBody with
        calls := 1
        table := { insideBody.table with
          log := (insideBody.table.told .read scope u).reverse ++ insideBody.table.log } }) ∧
      u.type.member = some (.method "A" 1) ∧ scope.owner = some "A" := by
  have hplain : IsPlain "f" := by decide
  have haccepts : ∀ log, insideBody.table.rejects log = false := fun _ => rfl
  refine ⟨insideBody_holdsBodies, hplain, haccepts, ?_⟩
  obtain ⟨reads, hstate, hok, hreads⟩ := (calls_read_innermost {}).2 { classes := ClassTable.toEnv {} }
    insideBody (.decl (plainClass 0 "A" none))
    ⟨.method "A" 1, { name := "f", params := [.string], returnType := .void }⟩
  have hmembers : ∀ scope ∈ insideBody.table.scopes, ∀ u ∈ scope.index,
      u.sameBinding (.ofMethod "f" .void [.string]) = true →
        u.type.member = some (.method "A" 1) := by decide +kernel
  rcases hreads with ⟨-, hnone⟩ | ⟨m, scope, u, hm, hinner, -, hall, hbody, hexact⟩
  · have hsome : ∃ scope ∈ insideBody.table.scopes, ∃ u ∈ scope.index,
        u.sameBinding (.ofMethod "f" .void [.string]) = true := by decide +kernel
    obtain ⟨scope, hscope, u, hu, hsame⟩ := hsome
    exact absurd ((u.matches_iff _).mp hsame) (hnone _ rfl scope hscope u hu)
  · obtain rfl := Option.some.inj hm
    obtain ⟨c, m', howner, hmember⟩ := hbody insideBody_holdsBodies hplain
    have hselected := hmembers scope hinner.mem u hinner.index ((u.matches_iff _).mpr hinner.matches)
    have hname : c.name = "A" := (hexact c m' hmember).1 hselected
    refine ⟨scope, u, Prod.ext (hok haccepts) ?_, hselected, ?_⟩
    · rw [hstate, hall haccepts]
      rfl
    · rw [howner, hname]

/-! ## A method of another class -/

/-- A setting with the root class, where an observer is told of all symbols of the unit. -/
def observedUnit : Setting :=
  { classes := ClassTable.toEnv ⟨[ClassDef.empty objectName .ordinary]⟩
    observers := { ofUnit := some "unit" } }

/-- A class with the given members. -/
def classWith (id : NodeId) (name : String) (members : List Member) : Decl :=
  { id, name, kind := .ordinary, modifiers := {}, typeParams := [], parent := none, interfaces := []
    constants := [], members, span := default }

/-- A method without result. -/
def voidMethod (id : NodeId) (name : String) (params : List Param) (body : List Stmt) : Member :=
  .method
    { modifiers := {}, typeParams := [], returnType := some ⟨id, .void⟩, name, params
      body := some ⟨id + 1, .block body⟩ }

/-- The call `b.f()`. -/
def callOnB : Expr := ⟨10, .call (some ⟨11, .name "b"⟩) [] "f" []⟩

/-- A class `A` with a method `f` and one that calls `f` on a `B`, and the class `B` with its own
method `f`. -/
def callsOther : SourceUnit :=
  { types :=
      [classWith 0 "A"
        [voidMethod 1 "f" [] [],
          voidMethod 3 "t" [⟨"b", ⟨5, .named ⟨["B"]⟩ none⟩, false⟩] [⟨9, .expr callOnB⟩]],
        classWith 12 "B" [voidMethod 13 "f" [] []]] }

/-- The only call is typed by the method of `B`, and the method of `A` is read. -/
theorem callsOther_reads_own :
    (callsOther.nodes.map Node.id).Nodup ∧
      (analyze observedUnit callsOther).1.toOption.map Summary.calls = some 1 ∧
      ((analyze observedUnit callsOther).2.typings.lookup callOnB.id).bind JType.member
        = some (.method "B" 0) ∧
      ∃ r ∈ (analyze observedUnit callsOther).2.table.log, r.event = .read ∧
        r.symbol.kind = .method ∧ r.symbol.type.member = some (.method "A" 0) := by
  refine ⟨by decide +kernel, ?_⟩
  simp only [analyze, analyzeFrom, declareUnit, checkUnit, Catalog.populate,
    NameMap.sorted_eq_insertionSort]
  exact ⟨by decide +kernel, by decide +kernel, by decide +kernel⟩

end Analysis

end JavaSema
