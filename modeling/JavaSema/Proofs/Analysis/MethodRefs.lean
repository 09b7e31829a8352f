import JavaSema.Proofs.Analysis.Agree
import JavaSema.Proofs.Analysis.Usage

/-!
# Method references before and after selection

Overload resolution asks of a method reference whether it could implement a functional interface
(`MethodRef.fits`).  Once a method is selected the reference is checked against the same interface
(`checkFunctional`).

There are three groups.

* Open type variables.  Where no type variable is mentioned, nothing is open: `eraseOpen_eq`.  Wildcards
  are rebuilt all the same, and only those that are as they are written stay what they are.
* Quiet steps.  No step of an analysis makes an observer reject reports.
* References.  `checkFunctional_eq_fits` compares the two verdicts.
-/

namespace JavaSema

namespace JType

/-! ## Open type variables -/

mutual

/-- Whether each wildcard is as it is written: of the shape of its upper bound, without dimensions of its
own. -/
def wildcardsAsWritten : JType → Bool
  | { name, args, dims, upper, lower, var, wildcard, unresolved, binding, member } =>
    if wildcard then
      (upper.head?.any fun u => name == u.name && dims == u.dims && unresolved == u.unresolved)
        && args.isNone && var.isNone && binding == .declared && member.isNone
        && wildcardsAsWrittenList upper && wildcardsAsWrittenList lower
    else wildcardsAsWrittenOpt args

/-- Whether the wildcards of each type are as they are written. -/
def wildcardsAsWrittenList : List JType → Bool
  | [] => true
  | t :: ts => t.wildcardsAsWritten && wildcardsAsWrittenList ts

/-- Whether the wildcards of each type argument are as they are written. -/
def wildcardsAsWrittenOpt : Option (List JType) → Bool
  | none => true
  | some ts => wildcardsAsWrittenList ts

end

/-- A type that mentions no type variables stands for none, unless it is a wildcard. -/
theorem var_eq_none {t : JType} (hvars : t.mentionsVar = false) (hwild : t.wildcard = false) :
    t.var = none := by
  cases t
  cases hwild
  simp only [mentionsVar, Bool.not_false, Bool.and_true, Bool.or_eq_false_iff] at hvars
  simpa using hvars.1.1.1

mutual

/-- Without type variables a substitution changes wildcards only. -/
theorem subst_eq_self (b : Bindings) (dropUnbound : Bool) : ∀ t : JType, t.mentionsVar = false →
    t.wildcardsAsWritten = true → t.subst b dropUnbound = t
  | { name, args, dims, upper, lower, var, wildcard, unresolved, binding, member }, hvars, hwild => by
    cases wildcard with
    | false =>
      obtain rfl : var = none := by
        cases var with
        | none => rfl
        | some v => simp [mentionsVar] at hvars
      have hargs : mentionsVarOpt args = false := by
        simp only [mentionsVar, Bool.or_eq_false_iff] at hvars
        exact hvars.1.1.2
      rw [subst, substOpt_eq_self b dropUnbound args hargs hwild]
    | true =>
      simp only [mentionsVar, Bool.true_and, Bool.or_eq_false_iff] at hvars
      simp only [wildcardsAsWritten, if_true, Bool.and_eq_true, Option.isNone_iff_eq_none,
        beq_iff_eq] at hwild
      obtain ⟨⟨⟨⟨⟨⟨hhead, rfl⟩, rfl⟩, rfl⟩, rfl⟩, hupper⟩, hlower⟩ := hwild
      have hsame := substList_eq_self b dropUnbound upper hvars.1.2 hupper
      have hsameLower := substList_eq_self b dropUnbound lower hvars.2 hlower
      cases upper with
      | nil => cases hhead
      | cons u us =>
        simp only [List.head?_cons, Option.any_some, Bool.and_eq_true, beq_iff_eq] at hhead
        obtain ⟨⟨rfl, rfl⟩, rfl⟩ := hhead
        simp only [subst, hsame, hsameLower, erasure]

theorem substList_eq_self (b : Bindings) (dropUnbound : Bool) : ∀ ts : List JType,
    mentionsVarList ts = false → wildcardsAsWrittenList ts = true → substList b dropUnbound ts = ts
  | [], _, _ => rfl
  | t :: ts, hvars, hwild => by
    simp only [mentionsVarList, Bool.or_eq_false_iff] at hvars
    simp only [wildcardsAsWrittenList, Bool.and_eq_true] at hwild
    rw [substList, subst_eq_self b dropUnbound t hvars.1 hwild.1,
      substList_eq_self b dropUnbound ts hvars.2 hwild.2]

theorem substOpt_eq_self (b : Bindings) (dropUnbound : Bool) : ∀ args : Option (List JType),
    mentionsVarOpt args = false → wildcardsAsWrittenOpt args = true → substOpt b dropUnbound args = args
  | none, _, _ => rfl
  | some ts, hvars, hwild => by rw [substOpt, substList_eq_self b dropUnbound ts hvars hwild]

end

end JType

namespace Analysis

open Source SymbolTable

/-- A type without type variables in it stays the same when the open ones are replaced. -/
theorem eraseOpen_eq (table : SymbolTable) {t : JType} (hvars : t.mentionsVar = false)
    (hwild : t.wildcardsAsWritten = true) : eraseOpen table t = t :=
  t.subst_eq_self _ _ hvars hwild

/-! ## Quiet steps -/

variable {α β : Type}

/-- The step leaves a table without rejecting observers if it finds one.  Such a table agrees with
itself. -/
def KeepsQuiet ⦃α : Type⦄ (m : Check α) : Prop :=
  ∀ setting (s : State), s.table.Agree s.table →
    (exec (m setting) s).2.table.Agree (exec (m setting) s).2.table

namespace KeepsQuiet

theorem pure (a : α) : KeepsQuiet (Pure.pure a : Check α) := fun _ _ hs => hs

theorem throw (e : AnalysisError) : KeepsQuiet (MonadExcept.throw e : Check α) := fun _ _ hs => hs

/-- A change of other parts of the state. -/
theorem update {f : State → State} (h : ∀ s, (f s).table = s.table) :
    KeepsQuiet (modify f : Check PUnit) := by
  intro setting s hs
  rw [run_modify, h]
  exact hs

theorem bind {m : Check α} {k : α → Check β} (hm : KeepsQuiet m) (hk : ∀ a, KeepsQuiet (k a)) :
    KeepsQuiet (m >>= k) :=
  fun setting => Keeps.bind
    (R := fun s s' : State => s.table.Agree s.table → s'.table.Agree s'.table)
    (fun _ _ _ h h' hs => h' (h hs)) (hm setting) fun a => hk a setting

theorem ofNames : OfNames KeepsQuiet where
  pure := pure
  bind := bind
  get _ _ hs := hs
  read _ _ hs := hs
  inCatalog _ _ _ hs := hs
  throw := throw
  attempt hm := hm
  update h _ := update h
  tryTable hop _ _ s hs := (hop.agree s.table s.table hs).2

theorem inTableFor {γ : Type} {op : TableM α} {view : α → γ} (h : Uniform view op) (name : String) :
    KeepsQuiet (inTableFor name op) := by
  intro setting s hs
  rw [exec_inTableFor]
  exact (h.agree s.table s.table hs).2

theorem leaveClass (d : Decl) : KeepsQuiet (do attachMembers d (← closeClass d)) := by
  apply (inTableFor uniform_popScope _).bind
  intro members setting s hs
  rw [Steady.exec_attachMembers]
  exact hs.withMembers d.name rfl

theorem compositional (u : SourceUnit) : Compositional u KeepsQuiet :=
  ofNames.compositional u <|
    ofNames.looking.inBody ofNames.resolving (fun _ _ => inTableFor (.bindSymbol _) _) leaveClass

end KeepsQuiet

/-- Each expression is part of some unit. -/
theorem exists_unit (e : Expr) : ∃ u : SourceUnit, Node.expr e ∈ u.nodes := by
  let body : Stmt := ⟨0, .expr e⟩
  let d := classWith 0 "" [.initializer false body]
  refine ⟨{ types := [d] }, ?_⟩
  have hclass : Node.decl d ∈ SourceUnit.nodes { types := [d] } :=
    SourceUnit.mem_nodes_iff.mpr ⟨d, List.mem_singleton_self _, Node.self_mem_subtree _⟩
  have hbody := SourceUnit.child_mem_nodes hclass
    (Member.child_of_mem List.mem_cons_self (List.mem_singleton_self (Node.stmt body)))
  exact SourceUnit.child_mem_nodes hbody (List.mem_singleton_self _)

/-- Reading a method reference leaves no observer that rejects reports. -/
theorem accepts_after_methodRefOf {height : Nat} {e : Expr} {setting : Setting} {s s' : State}
    {ref : MethodRef} (hreachable : s.table.Reachable) (haccepts : ∀ log, s.table.rejects log = false)
    (href : exec (methodRefOf (Checker.upTo height) e setting) s = (.ok ref, s')) :
    ∀ log, s'.table.rejects log = false := by
  obtain ⟨u, hu⟩ := exists_unit e
  have hquiet : KeepsQuiet (methodRefOf (Checker.upTo height) e) :=
    ((KeepsQuiet.compositional u).upTo (height + 1)).methodRef e hu
  have hafter := hquiet setting s ⟨rfl, rfl, haccepts, haccepts, hreachable, hreachable⟩
  rw [href] at hafter
  exact hafter.accepts

/-! ## References -/

/-- A call is counted whatever it reads, if no observer rejects reports. -/
theorem exec_recordCall_accepts {setting : Setting} {s : State}
    (haccepts : ∀ log, s.table.rejects log = false) (n : Node) (candidate : MethodCandidate) :
    ∃ table, exec (recordCall n candidate setting) s = (.ok (), { s with calls := s.calls + 1, table }) := by
  cases hm : declaredMethod? (overlay s.declared setting.classes) candidate.member with
  | none => exact ⟨s.table, exec_recordCall_none hm n⟩
  | some m =>
    obtain ⟨log, hlookup⟩ := exec_observed haccepts .read (s.table.locateMethod? m.name m.params)
    have hrun : exec (lookupMethodForRead m.name m.params) s.table
        = (.ok ((s.table.locateMethod? m.name m.params).map Prod.snd), { s.table with log }) := by
      rw [lookupMethodForRead, exec_bind_ok (exec_get _)]
      exact hlookup
    refine ⟨{ s.table with log }, ?_⟩
    rw [exec_recordCall_some hm, hrun]
    rfl

/-- The function type mentions no type variables, and its wildcards are as they are written. -/
def IsSettled (f : FunctionType) : Prop :=
  ∀ t ∈ f.returnType :: f.params, t.mentionsVar = false ∧ t.wildcardsAsWritten = true

theorem IsSettled.eraseOpen {f : FunctionType} (hf : IsSettled f) (table : SymbolTable) :
    f.params.map (eraseOpen table) = f.params ∧ eraseOpen table f.returnType = f.returnType := by
  obtain ⟨hreturn, hparams⟩ := List.forall_mem_cons.mp hf
  refine ⟨?_, eraseOpen_eq table hreturn.1 hreturn.2⟩
  refine (List.map_congr_left fun t ht => ?_).trans (List.map_id _)
  exact eraseOpen_eq table (hparams t ht).1 (hparams t ht).2

/-- Against a settled function type a reference is accepted if it selects something that produces what
is returned. -/
theorem accepts_checkMethodRef {c : Checker} {e : Expr} {setting : Setting} {s s' : State}
    {ref : MethodRef} (href : exec (methodRefOf c e setting) s = (.ok ref, s'))
    (haccepts : ∀ log, s'.table.rejects log = false) {f : FunctionType} (hf : IsSettled f) :
    (exec (checkMethodRef c e f setting) s).1.toOption.isSome
      = (ref.select? (overlay s'.declared setting.classes) setting.config.inferenceDepth f.params).any
          fun selection =>
            returnFits (overlay s'.declared setting.classes) f.returnType selection.produced := by
  have hread : ∀ t : State, exec ((read : Check Setting) setting) t = (.ok setting, t) := fun _ => rfl
  rw [checkMethodRef, run_bind_ok href, run_bind_ok (run_get _ s')]
  dsimp only
  rw [(hf.eraseOpen s'.table).1, run_bind_ok (run_classes _ s'), run_bind_ok (hread s')]
  cases ref.select? (overlay s'.declared setting.classes) setting.config.inferenceDepth f.params with
  | none => rfl
  | some selection =>
    -- What follows the record of the call, in whatever table that leaves.
    have hrest : ∀ t : State, t.declared = s'.declared →
        (exec ((do
          let expected := Analysis.eraseOpen (← get).table f.returnType
          if !returnFits (← classes) expected selection.produced then
            failAt (.expr e) (.noCandidate .methodReference ref.name f.params)
          return {
            interfaceType := f.interfaceType
            produced := selection.produced
            declaredReturn := f.returnType } : Check Outcome) setting) t).1.toOption.isSome
          = returnFits (overlay s'.declared setting.classes) f.returnType selection.produced := by
      intro t ht
      rw [run_bind_ok (run_get _ t)]
      dsimp only
      rw [(hf.eraseOpen t.table).2, run_bind_ok (run_classes _ t), ht]
      cases returnFits (overlay s'.declared setting.classes) f.returnType selection.produced <;> rfl
    dsimp only
    cases happlicable : selection.applicable with
    | none => exact hrest s' rfl
    | some a =>
      obtain ⟨table, hrecord⟩ := exec_recordCall_accepts haccepts (.expr e) a.candidate
      rw [run_bind_ok hrecord]
      exact hrest _ rfl

/-- For a settled function type nothing is left open in a method reference. -/
theorem fits_of_isSettled {env : ClassEnv} {target : JType} {f : FunctionType}
    (hfunction : env.functionType? target = some f) (hf : IsSettled f) (depth : Nat)
    (ref : MethodRef) :
    ref.fits env depth target
      = (ref.select? env depth f.params).any fun selection =>
          returnFits env f.returnType selection.produced := by
  obtain ⟨hreturn, hparams⟩ := List.forall_mem_cons.mp hf
  have hclosed : f.params.any JType.mentionsVar = false :=
    List.any_eq_false.mpr fun t ht => Bool.not_eq_true _ ▸ (hparams t ht).1
  rw [MethodRef.fits, hfunction]
  dsimp only
  rw [hclosed, hreturn.1]
  cases ref.select? env depth f.params with
  | none => rfl
  | some selection => simp [returnFits]

/-- Only method references have the shape of one. -/
theorem exists_of_methodRefOf {c : Checker} {e : Expr} {setting : Setting} {s s' : State}
    {ref : MethodRef} (href : exec (methodRefOf c e setting) s = (.ok ref, s')) :
    ∃ target typeArgs name, e.shape = .methodRef target typeArgs name := by
  cases hshape : e.shape with
  | methodRef target typeArgs name => exact ⟨target, typeArgs, name, rfl⟩
  | _ =>
    simp only [methodRefOf, hshape] at href
    cases href

/-- A method reference is accepted for a target type exactly if it fits before it is selected, where the
function type of the target mentions no type variables and has its wildcards as they are written.

What stands before the colons is checked in between; it may declare classes, but none that change the
function type. -/
theorem checkFunctional_eq_fits (height : Nat) (e : Expr) (target : JType) (setting : Setting)
    (s s' : State) (ref : MethodRef) (hreachable : s.table.Reachable)
    (haccepts : ∀ log, s.table.rejects log = false)
    (href : exec (methodRefOf (Checker.upTo height) e setting) s = (.ok ref, s'))
    (hfunction : (overlay s'.declared setting.classes).functionType? target
      = (overlay s.declared setting.classes).functionType? target)
    (hsettled : ∀ f ∈ (overlay s.declared setting.classes).functionType? target, IsSettled f) :
    (exec (checkFunctional (Checker.upTo height) e target setting) s).1.toOption.isSome
      = ref.fits (overlay s'.declared setting.classes) setting.config.inferenceDepth target := by
  have hclasses : exec (classes setting) s = (.ok (overlay s.declared setting.classes), s) := rfl
  obtain ⟨refTarget, typeArgs, name, hshape⟩ := exists_of_methodRefOf href
  rw [checkFunctional, run_bind_ok hclasses]
  cases hf : (overlay s.declared setting.classes).functionType? target with
  | none =>
    rw [MethodRef.fits, hfunction, hf]
    rfl
  | some f =>
    have hchecked := accepts_checkMethodRef href (accepts_after_methodRefOf hreachable haccepts href)
      (hsettled f hf)
    rw [fits_of_isSettled (hfunction.trans hf) (hsettled f hf), ← hchecked]
    dsimp only
    rw [hshape]
    dsimp only
    rcases hrun : exec (checkMethodRef (Checker.upTo height) e f setting) s with ⟨error | outcome, t⟩
    · rw [run_bind_error hrun]
    · rw [run_bind_ok hrun]
      rfl

/-- An interface `F<A>` with the method `String[] get(A)`, and a class `M` with the static method
`<E> E[] first(List<E[]>)`. -/
def elementClasses : Setting :=
  let a := JType.typeVar "A" [.object]
  let e := JType.typeVar "E" [.object]
  { classes := ClassTable.toEnv
      ⟨[ClassDef.empty objectName .ordinary,
        { ClassDef.empty stringName .ordinary with superclass := some .object },
        { ClassDef.empty "List" .interface with typeParams := [.of "T" []] },
        { ClassDef.empty "F" .interface with
          typeParams := [.of "A" []]
          methods := [{ name := "get", params := [a], returnType := JType.string.arrayOf 1
                        isAbstract := true }] },
        { ClassDef.empty "M" .ordinary with
          superclass := some .object
          methods := [{ name := "first", typeParams := [.of "E" []]
                        params := [.generic "List" [e.arrayOf 1]], returnType := e.arrayOf 1
                        isStatic := true }] }]⟩ }

/-- The reference `M::first`. -/
def firstOfM : Expr := ⟨0, .methodRef (.type ⟨1, .named ⟨["M"]⟩ none⟩) [] "first"⟩

/-- The reference, and the state after it was read. -/
def firstOfMRun : Except AnalysisError MethodRef × State :=
  exec (methodRefOf (Checker.upTo 1) firstOfM elementClasses) {}

/-- The reference fits `F<List<String[]>>`, and is accepted for it. -/
theorem firstOfM_accepted :
    let target := JType.generic "F" [.generic "List" [JType.string.arrayOf 1]]
    (∀ f ∈ (overlay {} elementClasses.classes).functionType? target, IsSettled f) ∧
      firstOfMRun.2.declared = {} ∧
      (∃ ref, firstOfMRun.1 = .ok ref ∧
        ref.fits (overlay firstOfMRun.2.declared elementClasses.classes) 32 target = true) ∧
      (exec (checkFunctional (Checker.upTo 1) firstOfM target elementClasses) {}).1.toOption.isSome
        = true := by
  intro target
  have hsettled : ∀ f ∈ (overlay {} elementClasses.classes).functionType? target, IsSettled f := by
    unfold IsSettled
    decide +kernel
  have hdeclared : firstOfMRun.2.declared = {} := by rfl
  have hfits : (firstOfMRun.1.toOption.any fun ref =>
      ref.fits (overlay firstOfMRun.2.declared elementClasses.classes) 32 target) = true := by
    decide +kernel
  refine ⟨hsettled, hdeclared, ?_⟩
  rcases hrun : firstOfMRun with ⟨error | ref, s'⟩
  · rw [hrun] at hfits
    cases hfits
  · rw [hrun] at hfits hdeclared
    have hfunction : (overlay s'.declared elementClasses.classes).functionType? target
        = (overlay {} elementClasses.classes).functionType? target := by rw [hdeclared]
    refine ⟨⟨ref, rfl, hfits⟩, ?_⟩
    rw [checkFunctional_eq_fits 1 firstOfM target elementClasses {} s' ref (.empty _ _) (fun _ => rfl)
      hrun hfunction hsettled]
    exact hfits

/-- The type `F<List<T[]>>` of a member, where `T` is `? extends String`.  It holds an array of a
wildcard. -/
def arraysOfWildcard : JType :=
  (JType.generic "F" [.generic "List" [(JType.typeVar "T" [.object]).arrayOf 1]]).subst
    [("T", .wildUpper .string)] false

/-- The reference fits the type and is not accepted for it: the array of the wildcard, which mentions no
type variable, loses its dimension where open type variables are replaced. -/
theorem firstOfM_rejected :
    ¬ ∀ (height : Nat) (e : Expr) (target : JType) (setting : Setting) (s s' : State) (ref : MethodRef),
      s.table.Reachable → (∀ log, s.table.rejects log = false) →
        exec (methodRefOf (Checker.upTo height) e setting) s = (.ok ref, s') →
        (overlay s'.declared setting.classes).functionType? target
          = (overlay s.declared setting.classes).functionType? target →
        (∀ f ∈ (overlay s.declared setting.classes).functionType? target,
          ∀ t ∈ f.returnType :: f.params, t.mentionsVar = false) →
        (exec (checkFunctional (Checker.upTo height) e target setting) s).1.toOption.isSome
          = ref.fits (overlay s'.declared setting.classes) setting.config.inferenceDepth target := by
  intro hall
  have hclosed : ∀ f ∈ (overlay {} elementClasses.classes).functionType? arraysOfWildcard,
      ∀ t ∈ f.returnType :: f.params, t.mentionsVar = false := by decide +kernel
  have hfits : (firstOfMRun.1.toOption.any fun ref =>
      ref.fits (overlay firstOfMRun.2.declared elementClasses.classes) 32 arraysOfWildcard) = true := by
    decide +kernel
  have hrejected : (exec (checkFunctional (Checker.upTo 1) firstOfM arraysOfWildcard elementClasses)
      {}).1.toOption.isSome = false := by decide +kernel
  have hdeclared : firstOfMRun.2.declared = {} := by rfl
  rcases hrun : firstOfMRun with ⟨error | ref, s'⟩
  · rw [hrun] at hfits
    cases hfits
  · rw [hrun] at hfits hdeclared
    have hfunction : (overlay s'.declared elementClasses.classes).functionType? arraysOfWildcard
        = (overlay {} elementClasses.classes).functionType? arraysOfWildcard := by rw [hdeclared]
    have hsame := hall 1 firstOfM arraysOfWildcard elementClasses {} s' ref (.empty _ _)
      (fun _ => rfl) hrun hfunction hclosed
    rw [hrejected] at hsame
    exact Bool.false_ne_true (hsame.trans hfits)

end Analysis

end JavaSema
