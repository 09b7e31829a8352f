import JavaSema.Proofs.Analysis.Composed
import JavaSema.Proofs.Analysis.Lookup
import JavaSema.Proofs.ClassEnv.Named

/-!
# The open bodies of an analysis

Throughout the check of a unit the method symbols in scope are those of the classes whose bodies are
open: members of classes are bound where a body is opened, and nothing else binds a method.

There are three groups.

* Members.  The symbols that are bound in the body of a class stand for its members.
* Steps.  `KeepsBodies` says that a step keeps methods in the bodies of their classes, and
  `KeepsBodies.inBody` is the case of a body.
* Runs.  The property is compositional, so that it holds of the check of every node
  (`KeepsBodies.upTo`) and of the whole unit (`checkUnit_holdsBodies`).
-/

namespace JavaSema.Analysis

open Source SymbolTable

variable {α β γ : Type}

/-! ## Members -/

/-- The symbols that are bound for the methods of a class stand for them. -/
theorem isMember_of_mem_memberSymbols {observerOf : Node → Option String} {d : Decl} {c : ClassDef}
    {u : Symbol} (hu : u ∈ memberSymbols observerOf d c) (hkind : u.kind = .method) :
    ∃ m, u.IsMember c m := by
  simp only [memberSymbols, List.mem_append] at hu
  rcases hu with ((hu | hu) | hu) | hu
  · obtain ⟨k, -, rfl⟩ := List.mem_map.mp hu
    cases hkind
  · obtain ⟨f, -, hu⟩ := List.mem_flatMap.mp hu
    obtain ⟨v, -, hu⟩ := List.mem_filterMap.mp hu
    obtain ⟨definition, -, rfl⟩ := Option.map_eq_some_iff.mp hu
    cases hkind
  · obtain ⟨i, hi, rfl⟩ := List.mem_mapIdx.mp hu
    exact ⟨_, rfl, rfl, _, rfl, rfl, List.getElem?_eq_getElem hi⟩
  · obtain ⟨i, hi, rfl⟩ := List.mem_mapIdx.mp hu
    exact ⟨_, rfl, rfl, _, rfl, rfl, List.getElem?_eq_getElem hi⟩

/-! ## Steps -/

/-- The step keeps methods in the bodies of their classes, whatever its outcome. -/
def KeepsBodies ⦃α : Type⦄ (m : Check α) : Prop :=
  ∀ setting (s : State), setting.classes.Named → s.table.HoldsBodies →
    (exec (m setting) s).2.table.HoldsBodies

namespace KeepsBodies

theorem pure (a : α) : KeepsBodies (Pure.pure a : Check α) := fun _ _ _ hs => hs

theorem throw (e : AnalysisError) : KeepsBodies (MonadExcept.throw e : Check α) := fun _ _ _ hs => hs

/-- A change of other parts of the state. -/
theorem update {f : State → State} (h : ∀ s, (f s).table = s.table) :
    KeepsBodies (modify f : Check PUnit) := by
  intro setting s _ hs
  rw [run_modify, h]
  exact hs

/-- A step after one that kept the bodies. -/
theorem after {m : Check α} {k : α → Check β} {setting : Setting} {s : State}
    (hk : ∀ a, KeepsBodies (k a)) (hnamed : setting.classes.Named)
    (hm : (exec (m setting) s).2.table.HoldsBodies) :
    (exec ((m >>= k) setting) s).2.table.HoldsBodies := by
  rcases hrun : exec (m setting) s with ⟨e | a, s'⟩
  · rw [run_bind_error hrun]
    rwa [hrun] at hm
  · rw [run_bind_ok hrun]
    rw [hrun] at hm
    exact hk a setting s' hnamed hm

theorem bind {m : Check α} {k : α → Check β} (hm : KeepsBodies m) (hk : ∀ a, KeepsBodies (k a)) :
    KeepsBodies (m >>= k) :=
  fun setting s hnamed hs => after hk hnamed (hm setting s hnamed hs)

theorem ofNames : OfNames KeepsBodies where
  pure := pure
  bind := bind
  get _ _ _ hs := hs
  read _ _ _ hs := hs
  inCatalog _ _ _ _ hs := hs
  throw := throw
  attempt hm := hm
  update h _ := update h
  tryTable _ hkeeps _ s _ hs := hkeeps s.table hs

theorem inTableFor {op : TableM α} (h : SymbolTable.KeepsBodies op) (name : String) :
    KeepsBodies (inTableFor name op) := by
  intro setting s _ hs
  rw [exec_inTableFor]
  exact h s.table hs

theorem leaveClass (d : Decl) : KeepsBodies (do attachMembers d (← closeClass d)) := by
  apply (inTableFor .popScope _).bind
  intro members setting s _ hs
  rw [attachMembers, run_modify]
  dsimp only
  split
  · split
    · exact hs.attachMembers _ _
    · exact hs
  · exact hs

theorem table_inTable (n : Node) (op : TableM α) (setting : Setting) (s : State) :
    (exec (inTable n op setting) s).2.table = (exec op s.table).2 := by
  rw [exec_inTable]

/-- After the body of a class was opened, the innermost scope is that body. -/
theorem bodyOwner?_openClass {d : Decl} {binary : String} {observer : Option String}
    {setting : Setting} {s s' : State} {a : Unit}
    (hrun : exec (openClass d binary observer setting) s = (.ok a, s')) :
    s'.table.bodyOwner? = some binary := by
  obtain ⟨_, s₁, hpush, hrun⟩ := ok_of_run_bind hrun
  obtain ⟨c, s₂, hload, hrun⟩ := ok_of_run_bind hrun
  obtain ⟨_, s₃, hparams, hmembers⟩ := ok_of_run_bind hrun
  have hopened : s₁.table.bodyOwner? = some binary := by
    have htable := table_inTable (.decl d) (pushClassScope binary observer) setting s
    rw [hpush] at htable
    rw [htable]
    rfl
  have hloaded : s₂ = s₁ := by
    rw [run_loadAt] at hload
    exact (Prod.mk.inj hload).2.symm
  have htable := table_inTable (.decl d) (bindTypeParams c.typeParams) setting s₂
  have htable' := table_inTable (.decl d) (c.memberClasses.forM fun member => bindSymbol
    { name := Text.afterLast '$' member, kind := .type, type := .ofClass member }) setting s₃
  rw [hparams] at htable
  rw [hmembers] at htable'
  rw [htable', bodyOwner?_bindSymbols, htable, bindTypeParams, bodyOwner?_bindSymbols, hloaded, hopened]

/-- The run: the members of a class are bound in its body. -/
theorem holdsBodies_members {setting : Setting} {d : Decl} {c : ClassDef} (symbols : List Symbol)
    (hsymbols : ∀ u ∈ symbols, u.kind = .method → ∃ m, u.IsMember c m) {s : State}
    (hs : s.table.HoldsBodies) (howner : s.table.bodyOwner? = some c.name) :
    (exec ((symbols.forM fun u => inTable (.decl d) (bindSymbol u)) setting) s).2.table.HoldsBodies := by
  induction symbols generalizing s with
  | nil => exact hs
  | cons u symbols ih =>
    obtain ⟨hu, hrest⟩ := List.forall_mem_cons.mp hsymbols
    have hbound : (exec (inTable (.decl d) (bindSymbol u) setting) s).2.table.HoldsBodies ∧
        (exec (inTable (.decl d) (bindSymbol u) setting) s).2.table.bodyOwner? = some c.name := by
      rw [table_inTable]
      have hkept : Keeps (fun t t' : SymbolTable => t.HoldsBodies → t.bodyOwner? = some c.name →
          t'.HoldsBodies ∧ t'.bodyOwner? = some c.name) (bindSymbol u) :=
        Keeps.discard fun t ht hto => ⟨ht.pushMember hto hu, (bodyOwner?_pushSymbol u t).trans hto⟩
      exact hkept s.table hs howner
    show (exec ((inTable (.decl d) (bindSymbol u) >>= fun _ =>
      symbols.forM fun u => inTable (.decl d) (bindSymbol u)) setting) s).2.table.HoldsBodies
    rcases hrun : exec (inTable (.decl d) (bindSymbol u) setting) s with ⟨e | _, s'⟩
    · rw [hrun] at hbound
      rw [run_bind_error hrun]
      exact hbound.1
    · rw [hrun] at hbound
      rw [run_bind_ok hrun]
      exact ih hrest hbound.1 hbound.2

/-- The body of a class holds its members. -/
theorem inBody (d : Decl) (binary : String) (observer : Option String)
    {step : ClassDef → Check Unit} (hstep : ∀ owner, KeepsBodies (step owner)) :
    KeepsBodies (inBody d binary observer step) := by
  intro setting s hnamed hs
  have hopen := ofNames.looking.openClass ofNames.resolving d binary observer setting s hnamed hs
  rcases hrun : exec (openClass d binary observer setting) s with ⟨e | a, s'⟩
  · rw [Analysis.inBody, run_bind_error hrun]
    rwa [hrun] at hopen
  · rw [hrun] at hopen
    have howner := bodyOwner?_openClass hrun
    rw [Analysis.inBody, run_bind_ok hrun, (exec_closing _ _ _ _).1]
    apply leaveClass d setting _ hnamed
    have hloaded := run_loadAt (.decl d) binary setting s'
    cases hload : (overlay s'.declared setting.classes).load binary with
    | error e =>
      rw [hload] at hloaded
      rw [run_bind_error hloaded]
      exact hopen
    | ok owner =>
      rw [hload] at hloaded
      have hname : owner.name = binary := named_overlay hnamed s'.declared binary owner hload
      have hread : exec ((read : Check Setting) setting) s' = (.ok setting, s') := rfl
      rw [run_bind_ok hloaded, run_bind_ok hread]
      apply after (fun _ => hstep owner) hnamed
      apply holdsBodies_members _ (fun u => isMember_of_mem_memberSymbols) hopen
      rw [howner, hname]

/-! ## Runs -/

/-- The check of a unit is composed of steps that keep methods in the bodies of their classes. -/
theorem compositional (u : SourceUnit) : Compositional u KeepsBodies :=
  ofNames.compositional u inBody

theorem upTo (u : SourceUnit) (height : Nat) :
    (Checker.upTo height).Has (· ∈ u.nodes) KeepsBodies :=
  (compositional u).upTo height

theorem populate (c : Catalog) : SymbolTable.KeepsBodies c.populate :=
  .forM _ fun _ _ => (SymbolTable.KeepsBodies.pushSymbol (by simp)).bind fun _ => .pure _

end KeepsBodies

/-- The check of a unit starts without scopes, and so it ends, or fails, with no methods but in the
bodies of their classes. -/
theorem checkUnit_holdsBodies (u : SourceUnit) {setting : Setting} (hnamed : setting.classes.Named)
    (s : State) : (exec (checkUnit u setting) s).2.table.HoldsBodies := by
  have hread : exec ((read : Check Setting) setting) s = (.ok setting, s) := rfl
  rw [checkUnit, run_bind_ok hread, run_bind_ok (run_modify _ _ _)]
  have hrest : KeepsBodies (do
      inTableFor u.packageName.toDotted (pushScope .block none)
      inTableFor u.packageName.toDotted (← get).catalog.populate
      u.types.forM (Checker.upTo u.height).decl
      discard (inTableFor u.packageName.toDotted popScope)) := by
    apply (KeepsBodies.inTableFor (.pushScope _ _) _).bind
    intro _
    apply KeepsBodies.ofNames.get.bind
    intro _
    apply (KeepsBodies.inTableFor (KeepsBodies.populate _) _).bind
    intro _
    refine KeepsBodies.bind (KeepsBodies.ofNames.resolving.forM _ fun d hd => ?_) fun _ => ?_
    · exact (KeepsBodies.upTo u u.height).decl d (SourceUnit.mem_nodes_iff.mpr ⟨d, hd, Node.self_mem_subtree _⟩)
    · exact KeepsBodies.ofNames.resolving.discard (.inTableFor .popScope _)
  apply hrest setting _ hnamed
  exact fun scope hscope => by cases hscope

end JavaSema.Analysis
