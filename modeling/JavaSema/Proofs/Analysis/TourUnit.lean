import JavaSema.Proofs.Analysis.Coverage
import JavaSema.Proofs.Analysis.TourClass

/-!
# The tour of a unit

A unit is analyzed in two steps: its classes are declared, and then their bodies are checked.

There are three groups.

* Declaring the classes of a unit names and counts nothing, and gives no expression a type.
* Checking their bodies takes the tour over the unit.
* Both steps together.
-/

namespace JavaSema.Analysis

open Source

variable {α : Type} {u : SourceUnit} {setting : Setting} {s s' : State}

/-! ## Declaring -/

/-- A step with a table of its own. -/
theorem Declares.ownTable {M : Model} {names : List String} {step : Check α}
    (hstep : Declares M names step) : Declares M names (do
      let saved := (← get).table
      modify fun s => { s with table := {} }
      let result ← attempt step
      modify fun s => { s with table := saved }
      settle result) := by
  intro setting s s' a hrun hs
  change exec (settle (exec (step setting) { s with table := {} }).1 setting)
    { (exec (step setting) { s with table := {} }).2 with table := s.table } = _ at hrun
  rw [exec_settle, Prod.mk.injEq] at hrun
  obtain ⟨hvalue, rfl⟩ := hrun
  have hinner : exec (step setting) { s with table := {} }
      = (.ok a, (exec (step setting) { s with table := {} }).2) := Prod.ext hvalue rfl
  obtain ⟨hcalls, hmodel⟩ := hstep hinner hs
  exact ⟨hcalls, hmodel⟩

theorem declares_declareTopLevel {M : Model} (d : Decl) :
    Declares M (familyNames M.catalog d) (declareTopLevel d) := by
  refine .after (still_binaryNameOf d) (p := fun b => M.catalog.binaryName? d = some b) ?_ ?_
  · rintro setting s s' b hrun rfl
    exact binaryNameOf_ok hrun
  intro binary hname
  refine .after (still_classHeader d binary _ _) (p := fun c => c.name = binary) ?_ ?_
  · exact fun hrun _ => returns_classHeader _ _ _ _ hrun
  rintro header rfl
  rw [familyNames_eq, hname]
  exact declares_declareHeader _ d header

/-- The classes that are declared are those outside of bodies. -/
theorem declares_declareUnit {M : Model} (u : SourceUnit) :
    Declares M (u.types.flatMap (familyNames M.catalog)) (declareUnit u) := by
  refine Declares.ownTable ?_
  refine .skip (.inTableFor _ _) fun _ => .skip .get fun s => .skip (.inTableFor _ _) fun _ => ?_
  have hheaders := Declares.forM (M := M) (g := familyNames M.catalog) u.types
    (fun d _ names => declares_declareTopLevel (M := M.declare names) d) []
  rw [← List.append_nil (u.types.flatMap _)]
  refine Declares.bind hheaders fun _ => .forM_same u.types fun d hd => ?_
  refine declares_declareMembers _ d fun x hx => mem_foldl_insertName.mpr (.inr ?_)
  exact List.mem_flatMap.mpr ⟨d, hd, hx⟩

/-- Declaring the classes of a unit gives no expression a type. -/
theorem typed_declareUnit {a : Unit} (hids : (u.nodes.map Node.id).Nodup)
    (h : exec (declareUnit u setting) s = (.ok a, s')) {e : Expr} (he : Node.expr e ∈ u.nodes)
    (htyped : Typed s'.typings e.id) : Typed s.typings e.id := by
  have hhas : Has (resolving fun id => ∃ m ∈ u.nodes, isDeclarative m = true ∧ m.id = id)
      (declareUnit u) := by
    refine has_declareUnit u fun d hd m hm hdeclarative => ?_
    exact ⟨m, SourceUnit.mem_nodes_iff.mpr ⟨d, hd, hm⟩, hdeclarative, rfl⟩
  obtain ⟨new, hnew, hmarks⟩ := hhas.typings setting s
  rw [h] at hnew
  rw [show s'.typings = _ from hnew] at htyped
  rcases typed_append_cases new htyped with ⟨p, hp, hid⟩ | htyped
  · obtain ⟨m, hm, hdeclarative, hmid⟩ := hmarks p hp
    cases List.inj_on_of_nodup_map hids hm he (hmid.trans hid)
    cases hdeclarative
  · exact htyped

/-! ## Checking -/

/-- The classes of a unit as stops. -/
def unitStops (u : SourceUnit) : List Stop := u.types.map fun d => .node (.decl d)

theorem below_unitStops (u : SourceUnit) : Stop.below (unitStops u) = u.nodes :=
  List.flatMap_map ..

/-- The tour over a unit. -/
def Tour.ofUnit (u : SourceUnit) : Tour := .along (fun _ => False) (.through (unitStops u))

/-- Which class is around does not matter for classes that are met as such. -/
theorem walkAll_decls (b : Option String) (ds : List Decl) (M : Model) :
    walkAll b (ds.map fun d => .node (.decl d)) M
      = walkAll none (ds.map fun d => .node (.decl d)) M := by
  induction ds generalizing M with
  | nil => rfl
  | cons d ds ih =>
    rw [List.map_cons, walkAll_cons, walkAll_cons, ih]
    show walkAll none _ (walk b (.decl d) M) = walkAll none _ (walk none (.decl d) M)
    rw [walk_eq, walk_eq none]
    rfl

/-- Checking the bodies of the classes of a unit takes the tour over the unit. -/
theorem checkUnit_ok {a : Unit} (hids : (u.nodes.map Node.id).Nodup)
    (h : exec (checkUnit u setting) s = (.ok a, s')) :
    ((Tour.ofUnit u).Countable s.typings →
      s'.calls = s.calls + (Tour.ofUnit u).tally s'.typings) ∧
    ((Tour.ofUnit u).Orderly s.typings → s'.model = walkAll none (unitStops u) s.model) := by
  have htour : Follows (Tour.ofUnit u) (u.types.forM (Checker.upTo u.height).decl) := by
    refine Travels.each u.types (fun d _ => (Checker.touring_upTo u.height).decl _ d) ⟨?_, ?_⟩
    · show ((Stop.below (unitStops u)).map Node.id).Nodup
      rwa [below_unitStops]
    · exact fun _ _ => id
  let name := u.packageName.toDotted
  let opened : State :=
    { s with table := { observer := setting.observers.ofUnit, rejects := setting.observers.rejects } }
  let pushed : State := (exec (inTableFor name (SymbolTable.pushScope .block none) setting) opened).2
  have hpushed : pushed.table.Reachable := (SymbolTable.Reachable.empty _ _).pushScope .block none
  change exec ((do
    inTableFor name pushed.catalog.populate
    u.types.forM (Checker.upTo u.height).decl
    discard (inTableFor name SymbolTable.popScope) : Check Unit) setting) pushed = _ at h
  obtain ⟨_, populated, hpopulate, h⟩ := ok_of_run_bind h
  have hhas : Has .silent (inTableFor name pushed.catalog.populate) :=
    (Moves.binds_below rfl (populate_binds _)).inTableFor name
  have hreach := hhas.reachable setting hpushed
  have hsame := typings_of_silent (hhas.typings setting pushed)
  have halike := Still.inTableFor name pushed.catalog.populate setting pushed
  rw [hpopulate] at hreach hsame halike
  obtain ⟨_, checked, hcheck, hpop⟩ := ok_of_run_bind h
  have hclosed := (Silent.inTableFor name SymbolTable.popScope).discard setting checked
  have halike' := (Still.inTableFor name SymbolTable.popScope).discard setting checked
  rw [hpop] at hclosed halike'
  constructor
  · intro hcount
    rw [halike'.1, htour.calls hcheck trivial trivial (hsame ▸ hcount), halike.1, hclosed]
    rfl
  · intro horder
    rw [halike'.2, htour.model hcheck trivial trivial hreach (hsame ▸ horder), halike.2]
    exact walkAll_decls _ u.types _

/-! ## Both steps -/

/-- The receivers of method references that have types before the analysis have nothing of the kind in
them.  An analysis does not visit them again. -/
def KnownFree (kind : Node → Bool) (u : SourceUnit) (before : Typings) : Prop :=
  ∀ n ∈ u.nodes, ∀ r, receiver? n = some r → Typed before r.id → Free kind (.expr r)

/-- Before the first analysis nothing has a type. -/
theorem knownFree_nil (kind : Node → Bool) (u : SourceUnit) : KnownFree kind u [] :=
  fun _ _ _ _ htyped => absurd htyped Bool.false_ne_true

/-- What an analysis that succeeds finds: the calls and the classes of the unit. -/
theorem run_analyzed {before : Typings} {summary : Summary} (hids : (u.nodes.map Node.id).Nodup)
    (hok : (analyzeFrom setting u before).1 = .ok summary) :
    summary = summarize u (analyzeFrom setting u before).2 ∧
    ((∀ n ∈ u.nodes, LambdaArgs RefsSilent n) → KnownFree hasCalls u before →
      (analyzeFrom setting u before).2.calls
        = (u.nodes.map (callsAt (analyzeFrom setting u before).2.typings)).sum) ∧
    ((∀ n ∈ u.nodes, LambdaArgs (Free isDecl) n) → KnownFree isDecl u before →
      (analyzeFrom setting u before).2.model = walkAll none (unitStops u)
        ((start setting u before).model.declare
          (u.types.flatMap (familyNames (start setting u before).model.catalog)))) := by
  obtain ⟨a, hrun⟩ := run_of_analyzeFrom_ok hok
  have hstate : (analyzeFrom setting u before).2 = (exec ((do declareUnit u; checkUnit u : Check Unit)
    setting) (start setting u before)).2 := rfl
  have hsummary : (analyzeFrom setting u before).1 = (exec ((do declareUnit u; checkUnit u :
    Check Unit) setting) (start setting u before)).1.map fun _ =>
      summarize u (analyzeFrom setting u before).2 := rfl
  generalize (analyzeFrom setting u before).2 = s' at hstate hsummary ⊢
  have hboth : exec ((do declareUnit u; checkUnit u : Check Unit) setting) (start setting u before)
      = (.ok a, s') := Prod.ext hrun hstate.symm
  obtain ⟨_, s, hdeclare, hcheck⟩ := ok_of_run_bind hboth
  obtain ⟨hcalls, hmodel⟩ := declares_declareUnit u hdeclare rfl
  obtain ⟨hcount, horder⟩ := checkUnit_ok hids hcheck
  have hfresh : ∀ kind, KnownFree kind u before → ∀ r ∈ (Tour.ofUnit u).fresh,
      ¬ Typed s.typings r.id ∨ Free kind (.expr r) := by
    intro kind hknown r hr
    have hr : r ∈ (Stop.below (unitStops u)).filterMap receiver? := hr
    have hexpr := Tour.receiver_mem hr
    rw [below_unitStops] at hr hexpr
    obtain ⟨n, hn, hr⟩ := List.mem_filterMap.mp hr
    refine Classical.or_iff_not_imp_left.mpr fun htyped => hknown n hn r hr ?_
    exact typed_declareUnit hids hdeclare hexpr (not_not.mp htyped)
  refine ⟨?_, fun hargs hknown => ?_, fun hargs hknown => ?_⟩
  · rw [hok, hrun] at hsummary
    exact Except.ok.inj hsummary
  · have htally := hcount ⟨⟨List.forall_mem_nil _, ?_⟩, hfresh _ hknown⟩
    · rw [htally, hcalls, Tour.ofUnit, Tour.tally_along]
      show 0 + (0 + ((Stop.below (unitStops u)).map (callsAt s'.typings)).sum) = _
      rw [below_unitStops]
      omega
    · show ∀ n ∈ Stop.below (unitStops u), _
      rwa [below_unitStops]
  · have hwalk := horder ⟨⟨List.forall_mem_nil _, ?_⟩, hfresh _ hknown⟩
    · rw [hwalk, hmodel]
    · show ∀ n ∈ Stop.below (unitStops u), _
      rwa [below_unitStops]

end JavaSema.Analysis
