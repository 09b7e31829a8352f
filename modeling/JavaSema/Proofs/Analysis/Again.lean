import JavaSema.Proofs.Analysis.Calls
import JavaSema.Proofs.Analysis.Composed

/-!
# Analyzing a unit again

A unit that was analyzed before has types already.  An analysis looks at recorded types in one place
only, the expression before the colons of a method reference.  So if these expressions have none, a
second analysis ends as the first one did.

There are two groups.

* `Blind` says that a step does the same whatever was recorded before it.  It is compositional, so the
  whole analysis is blind.
* The second analysis.  The condition on method references is needed: which expressions name a type is
  forgotten between two analyses, and so a reference to a method of a type is refused the second time.
-/

namespace JavaSema.Analysis

open Source

variable {α β : Type} {earlier : Typings}

/-! ## Steps that do not look at earlier types -/

/-- The state with types that were recorded earlier. -/
def State.after (s : State) (earlier : Typings) : State :=
  { s with typings := s.typings ++ earlier }

/-- The step does the same whether or not the types were recorded earlier. -/
def Blind (earlier : Typings) ⦃α : Type⦄ (m : Check α) : Prop :=
  ∀ setting s, exec (m setting) (s.after earlier)
    = ((exec (m setting) s).1, (exec (m setting) s).2.after earlier)

namespace Blind

theorem bind {m : Check α} {k : α → Check β} (hm : Blind earlier m) (hk : ∀ a, Blind earlier (k a)) :
    Blind earlier (m >>= k) := by
  intro setting s
  have hfirst := hm setting s
  rcases hrun : exec (m setting) s with ⟨e | a, s'⟩
  · rw [hrun] at hfirst
    rw [run_bind_error hrun, run_bind_error hfirst]
  · rw [hrun] at hfirst
    rw [run_bind_ok hrun, run_bind_ok hfirst]
    exact hk a setting s'

theorem attempt {m : Check α} (hm : Blind earlier m) : Blind earlier (attempt m) := by
  intro setting s
  rw [exec_attempt, exec_attempt, hm setting s]

theorem get {k : State → Check α} (hsame : ∀ s typings, k { s with typings } = k s)
    (hk : ∀ s, Blind earlier (k s)) : Blind earlier (MonadState.get >>= k) := by
  intro setting s
  show exec (k (s.after earlier) setting) (s.after earlier) = _
  rw [State.after, hsame]
  exact hk s setting s

/-- A change that has nothing to do with the recorded types leaves them. -/
theorem update {f : State → α × State}
    (hf : ∀ s typings, f { s with typings } = ((f s).1, { (f s).2 with typings })) :
    Blind earlier (modifyGet f : Check α) := by
  intro setting s
  have htypings : (f s).2.typings = s.typings := by
    have hsame := congrArg (fun r : α × State => r.2.typings) (hf s s.typings)
    exact hsame
  show ((.ok (f (s.after earlier)).1 : Except AnalysisError α), (f (s.after earlier)).2)
    = (.ok (f s).1, (f s).2.after earlier)
  rw [State.after, hf, State.after, htypings]

theorem modify {f : State → State}
    (hf : ∀ s typings, f { s with typings } = { f s with typings }) :
    Blind earlier (modify f : Check PUnit) := by
  apply update
  intro s typings
  rw [hf]

theorem pure (a : α) : Blind earlier (Pure.pure a) := fun _ _ => rfl

theorem throw (e : AnalysisError) : Blind earlier (MonadExcept.throw e : Check α) := fun _ _ => rfl

theorem read : Blind earlier (MonadReader.read : Check Setting) := fun _ _ => rfl

theorem classes : Blind earlier classes := get (fun _ _ => rfl) fun _ => read.bind fun _ => pure _

theorem inCatalog (op : StateM Catalog α) : Blind earlier (inCatalog op) := update fun _ _ => rfl

theorem tryTable (op : TableM α) : Blind earlier (tryTable op) := update fun _ _ => rfl

theorem inTableFor (name : String) (op : TableM α) : Blind earlier (inTableFor name op) := by
  apply (tryTable op).bind
  intro result
  cases result with
  | ok a => exact pure a
  | error e => exact throw _

theorem simpleType? (simple : String) : Blind earlier (simpleType? simple) := by
  apply get (fun _ _ => rfl)
  intro s
  split
  · exact pure _
  · apply classes.bind
    intro env
    split
    · exact pure _
    · exact (inCatalog _).bind fun _ => pure _

theorem namedType? (name : QualifiedName) : Blind earlier (namedType? name) := by
  unfold Analysis.namedType?
  split
  · exact pure _
  · apply (simpleType? _).bind
    intro head
    split
    · exact pure _
    · split
      · exact pure _
      · apply get (fun _ _ => rfl)
        intro s
        exact classes.bind fun _ => pure _
    · exact pure _
    · exact classes.bind fun _ => pure _

theorem attachMembers (d : Decl) (members : Scope) : Blind earlier (attachMembers d members) := by
  apply modify
  intro s typings
  dsimp only
  split
  · split
    · rfl
    · rfl
  · rfl

theorem unwindTo (depth : Nat) : Blind earlier (unwindTo depth) := by
  have hgo : ∀ n, Blind earlier (unwindTo.go n) := by
    intro n
    induction n with
    | zero => exact pure _
    | succ n ih => exact (inTableFor _ _).bind fun _ => ih
  exact get (fun _ _ => rfl) fun _ => hgo _

theorem retrying {m : Check α} {next : α → Check β} {other : AnalysisError → Check β}
    (hm : Blind earlier m) (hnext : ∀ a, Blind earlier (next a)) (hother : ∀ e, Blind earlier (other e)) :
    Blind earlier (retrying m next other) := by
  apply get (fun _ _ => rfl)
  intro before
  apply hm.attempt.bind
  intro result
  cases result with
  | ok a => exact hnext a
  | error e =>
    apply of_ite (throw _)
    apply (unwindTo _).bind
    intro _
    exact (modify fun _ _ => rfl).bind fun _ => hother e

theorem typeOf? {id : NodeId} (h : earlier.lookup id = none) : Blind earlier (typeOf? id) := by
  intro setting s
  have hlookup : (s.after earlier).typings.lookup id = s.typings.lookup id := by
    rw [State.after, List.lookup_append, h, Option.or_none]
  show ((.ok ((s.after earlier).typings.lookup id) : Except AnalysisError (Option JType)), _) = _
  rw [hlookup]
  rfl

theorem declare (c : ClassDef) : Blind earlier (declare c) := modify fun _ _ => rfl

theorem resolving : Resolving (Blind earlier) where
  pure := pure
  throw := throw
  bind := bind
  record _ _ _ _ := rfl
  namedType? name _ := namedType? name
  attempt := attempt
  tryTable _ _ _ hk := (tryTable _).bind hk

theorem looking : Looking (Blind earlier) where
  toNaming := resolving.toNaming
  read := read
  classes := classes
  look hsame hk := get (fun _ _ => hsame _ _ ⟨rfl, .refl _, rfl⟩) hk

section

variable {u : SourceUnit}
  (h : ∀ n ∈ u.nodes, ∀ r, receiver? n = some r → earlier.lookup r.id = none)

include h

/-- If nothing was recorded for the expressions before the colons of method references, all steps of
an analysis are blind. -/
theorem compositional : Compositional u (Blind earlier) where
  toResolving := resolving
  read := read
  classes := classes
  look := looking.look
  frames _ := modify fun _ _ => rfl
  calls _ := modify fun _ _ => rfl
  retrying := retrying
  simpleType? := simpleType?
  inBody := looking.inBody resolving (fun _ _ => inTableFor _ _) fun d =>
    (inTableFor _ _).bind (attachMembers d)
  namesType _ _ := get (fun _ _ => rfl) fun _ => pure _
  markTypeName _ _ := modify fun _ _ => rfl
  typeOf? hn hr := typeOf? (h _ hn _ hr)
  inCatalog _ _ op _ := inCatalog op
  declare _ := declare

theorem ofUnits : OfUnits u (Blind earlier) where
  toCompositional := compositional h
  get := get
  setTable _ := modify fun _ _ => rfl
  inTableFor := inTableFor
  declares := declare

end

end Blind

/-! ## The second analysis -/

theorem summarize_after (u : SourceUnit) {s : State}
    (h : ∀ id t, earlier.lookup id = some t → s.typings.lookup id = some t) :
    summarize u (s.after earlier) = summarize u s ∧
      ∀ id, (s.after earlier).typings.lookup id = s.typings.lookup id := by
  have hlookup : ∀ id, (s.after earlier).typings.lookup id = s.typings.lookup id := by
    intro id
    rw [State.after, List.lookup_append]
    cases hs : s.typings.lookup id with
    | some t => rfl
    | none =>
      cases hearlier : earlier.lookup id with
      | none => rfl
      | some t =>
        rw [h id t hearlier] at hs
        cases hs
  refine ⟨?_, hlookup⟩
  simp only [summarize, hlookup]
  rfl

/-- A unit that was analyzed with success is analyzed with the same result, also where its nodes keep
types from the first analysis.  Only the expressions before the colons of method references must not
have kept theirs. -/
theorem analyzed_again (setting : Setting) (u : SourceUnit) (summary : Summary)
    (hok : (analyze setting u).1 = .ok summary) (earlier : Typings)
    (hkept : ∀ id t, earlier.lookup id = some t →
      (analyze setting u).2.typings.lookup id = some t)
    (hrefs : ∀ n ∈ u.nodes, ∀ r, receiver? n = some r → earlier.lookup r.id = none) :
    (analyzeFrom setting u earlier).1 = .ok summary ∧
      ∀ id, (analyzeFrom setting u earlier).2.typings.lookup id
        = (analyze setting u).2.typings.lookup id := by
  have hstart : start setting u earlier = (start setting u []).after earlier := rfl
  have hagain : exec (unitSteps u setting) (start setting u earlier)
      = ((exec (unitSteps u setting) (start setting u [])).1,
        (exec (unitSteps u setting) (start setting u [])).2.after earlier) := by
    rw [hstart]
    have hblind : Blind earlier (unitSteps u) := (Blind.ofUnits hrefs).unitSteps
    exact hblind setting (start setting u [])
  obtain ⟨hsummary, hlookup⟩ := summarize_after u hkept
  rw [analyze, analyzeFrom_eq] at hok hsummary hlookup ⊢
  rw [analyzeFrom_eq, hagain]
  dsimp only at hok hsummary hlookup ⊢
  rw [hsummary]
  exact ⟨hok, hlookup⟩

/-- A unit with a lambda that is checked against two candidates is analyzed again with all its types in
place. -/
theorem callsMake_again :
    ∃ summary, (analyze twoSuppliers (callsRun callsMake)).1 = .ok summary ∧
      (analyzeFrom twoSuppliers (callsRun callsMake)
        (analyze twoSuppliers (callsRun callsMake)).2.typings).1 = .ok summary ∧
      (∀ n ∈ (callsRun callsMake).nodes, ∀ r, receiver? n = some r →
        (analyze twoSuppliers (callsRun callsMake)).2.typings.lookup r.id = none) ∧
      ∀ id, (analyzeFrom twoSuppliers (callsRun callsMake)
          (analyze twoSuppliers (callsRun callsMake)).2.typings).2.typings.lookup id
        = (analyze twoSuppliers (callsRun callsMake)).2.typings.lookup id := by
  have hsome : (analyze twoSuppliers (callsRun callsMake)).1.toOption.isSome = true := by
    decide +kernel
  have hnone : ∀ n ∈ (callsRun callsMake).nodes, (receiver? n).isNone = true :=
    List.all_eq_true.mp (by decide +kernel)
  have hrefs : ∀ n ∈ (callsRun callsMake).nodes, ∀ r, receiver? n = some r →
      (analyze twoSuppliers (callsRun callsMake)).2.typings.lookup r.id = none := by
    intro n hn r hr
    have hfalse := hnone n hn
    rw [hr] at hfalse
    cases hfalse
  rcases hrun : (analyze twoSuppliers (callsRun callsMake)).1 with e | summary
  · rw [hrun] at hsome
    cases hsome
  · obtain ⟨hagain, htypes⟩ := analyzed_again twoSuppliers (callsRun callsMake) summary hrun _
      (fun _ _ h => h) hrefs
    exact ⟨summary, rfl, hagain, hrefs, htypes⟩

/-- The statement `(S) A::make;`, where `A` is an expression that names a type. -/
def refersToMake : Stmt :=
  ⟨30, .expr ⟨31, .cast (simpleType 32 "S") ⟨33, .methodRef (.expr ⟨34, .name "A"⟩) [] "make"⟩⟩⟩

/-- A second analysis finds the type of `A` and no longer knows that it names a type: it looks for a
method of a value of this type, and fails. -/
theorem refersToMake_again :
    ¬ ∀ (setting : Setting) (u : SourceUnit) (summary : Summary),
      (analyze setting u).1 = .ok summary →
        (analyzeFrom setting u (analyze setting u).2.typings).1 = .ok summary ∧
          ∀ id, (analyzeFrom setting u (analyze setting u).2.typings).2.typings.lookup id
            = (analyze setting u).2.typings.lookup id := by
  intro hagain
  have hsome : (analyze twoSuppliers (callsRun callsMake [refersToMake])).1.toOption.isSome = true := by
    decide +kernel
  have hfails : (analyzeFrom twoSuppliers (callsRun callsMake [refersToMake])
      (analyze twoSuppliers (callsRun callsMake [refersToMake])).2.typings).1.toOption.isSome
        = false := by decide +kernel
  rcases hrun : (analyze twoSuppliers (callsRun callsMake [refersToMake])).1 with e | summary
  · rw [hrun] at hsome
    cases hsome
  · rw [(hagain twoSuppliers _ summary hrun).1] at hfails
    cases hfails

end JavaSema.Analysis
