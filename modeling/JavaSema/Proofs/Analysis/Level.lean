import JavaSema.Proofs.Analysis.Balance
import JavaSema.Proofs.Analysis.Nested
import JavaSema.Proofs.Analysis.Order

/-!
# What a failure leaves open

A check that fails leaves as many frames as there were.  Of the scopes that it opened it may leave some,
but only where a class is declared in the node.

There are three groups.

* `Level` says that a step leaves as many scopes open, whatever its outcome.
* The check of a node without declarations is level (`Checker.level_upTo`).
* Failures of all nodes (`failed_scopes_and_frames`).
-/

namespace JavaSema.Analysis

open Source

variable {α β : Type}

/-! ## Level steps -/

/-- The step leaves as many scopes open, whatever its outcome. -/
def Level ⦃α : Type⦄ (m : Check α) : Prop :=
  ∀ setting (s : State), (exec (m setting) s).2.table.depth = s.table.depth

namespace Level

theorem pure (a : α) : Level (Pure.pure a : Check α) := fun _ _ => rfl

theorem throw (e : AnalysisError) : Level (MonadExcept.throw e : Check α) := fun _ _ => rfl

theorem get : Level (MonadState.get : Check State) := fun _ _ => rfl

theorem read : Level (MonadReader.read : Check Setting) := fun _ _ => rfl

theorem update {f : State → State} (h : ∀ s, (f s).table = s.table) :
    Level (modify f : Check PUnit) :=
  fun _ s => congrArg SymbolTable.depth (h s)

theorem inCatalog (op : StateM Catalog α) : Level (inCatalog op) := fun _ _ => rfl

theorem bind {m : Check α} {f : α → Check β} (hm : Level m) (hf : ∀ a, Level (f a)) :
    Level (m >>= f) :=
  fun setting => Keeps.bind (R := fun s s' : State => s'.table.depth = s.table.depth)
    (fun _ _ _ h h' => h'.trans h) (hm setting) fun a => hf a setting

theorem remembering : Remembering Level where
  pure := pure
  bind := bind
  get := get
  read := read
  inCatalog _ := inCatalog _

theorem inTable {op : TableM α} (hop : SymbolTable.Level op) (n : Node) : Level (inTable n op) := by
  intro setting s
  rw [exec_inTable]
  exact hop s.table

/-- The scope that is opened is closed again, also where the step fails. -/
theorem inBlock {step : Check α} (n : Node) (hstep : Level step) : Level (inBlock n step) := by
  refine bind (read.bind fun _ => pure _) fun observer setting s => ?_
  have hopens : exec (Analysis.inTable n (SymbolTable.pushScope .block observer) setting) s
      = (.ok ⟨⟩, { s with table := (exec (SymbolTable.pushScope .block observer) s.table).2 }) := rfl
  have hcloses : Keeps (fun s s' : State => s'.table.depth = s.table.depth - 1)
      (Functor.discard (Analysis.inTable n SymbolTable.popScope) setting) := by
    refine Keeps.discard fun s => ?_
    rw [exec_inTable]
    exact SymbolTable.depth_popScope s.table
  rw [run_bind_ok hopens, (exec_closing _ _ _ _).1, hcloses, hstep, SymbolTable.depth_pushScope]
  rfl

/-- Frames are apart from scopes. -/
theorem withFrame {step : Check α} (frame : Frame) (hstep : Level step) :
    Level (withFrame frame step) := by
  intro setting s
  rw [(exec_withFrame frame step setting s).1]
  exact hstep setting (s.enter frame)

/-- After a failed attempt no scope is left to be closed. -/
theorem retrying {m : Check α} {next : α → Check β} {other : AnalysisError → Check β}
    (hm : Level m) (hnext : ∀ a, Level (next a)) (hother : ∀ e, Level (other e)) :
    Level (retrying m next other) := by
  intro setting before
  have hget : exec ((MonadState.get : Check State) setting) before = (.ok before, before) := rfl
  have htried := hm setting before
  rw [Analysis.retrying, run_bind_ok hget, run_bind_ok (exec_attempt _ _ _)]
  rcases hrun : exec (m setting) before with ⟨e | a, s⟩
  · rw [hrun] at htried
    dsimp only
    split
    · exact htried
    · have hunwound : exec (unwindTo before.table.depth setting) s = (.ok ⟨⟩, s) := by
        show exec (unwindTo.go (s.table.depth - before.table.depth) setting) s = _
        rw [htried, Nat.sub_self]
        rfl
      have hreset : Level (modify fun s : State => { s with calls := before.calls }) :=
        update fun _ => rfl
      rw [run_bind_ok hunwound]
      exact (hreset.bind (fun _ => hother e) setting s).trans htried
  · rw [hrun] at htried
    exact (hnext a setting s).trans htried

end Level

/-! ## Nodes without declarations -/

/-- No class is declared in the node. -/
def ClassFree (n : Node) : Prop := ∀ d, Node.decl d ∉ n.subtree

theorem classFree_iff {n : Node} :
    ClassFree n ↔ (∀ d, n ≠ .decl d) ∧ ∀ m ∈ n.children, ClassFree m := by
  simp only [ClassFree, Node.mem_subtree_iff (n := n), not_or, not_exists, not_and, forall_and,
    eq_comm (a := n), ne_eq]
  exact and_congr_right fun _ => ⟨fun h m hm d => h d m hm, fun h d m hm => h m hm d⟩

/-- What nodes without declarations are checked with is level. -/
theorem level_nested : Nested ClassFree Level where
  pure := .pure
  throw := .throw
  bind := .bind
  record _ _ := .update fun _ => rfl
  namedType? name _ := Level.remembering.namedType? name
  read := .read
  classes := Level.remembering.classes
  look _ hk := Level.get.bind hk
  child hn hm d hd := hn d (Node.mem_subtree_of_child hm hd)
  inTableThen _ hop _ n _ hk := (Level.inTable hop n).bind hk
  inBlock n := .inBlock n
  withFrame frame := .withFrame frame
  noteReturn _ := .update fun _ => rfl
  calls _ := .update fun _ => rfl
  retrying := .retrying
  simpleType? := Level.remembering.simpleType?
  namesType _ _ := Level.get.bind fun _ => .pure _
  markTypeName _ _ := .update fun _ => rfl
  typeOf? _ _ := Level.get.bind fun _ => .pure _
  anonymous {_ _ d} _ hn hd _ := absurd (Node.mem_subtree_of_child hd (Node.self_mem_subtree _)) (hn d)
  localClass {_ _ d} hn hd _ := absurd (Node.mem_subtree_of_child hd (Node.self_mem_subtree _)) (hn d)

theorem Checker.level_upTo (height : Nat) : (Checker.upTo height).Has ClassFree Level :=
  level_nested.upTo (fun _ _ d hd => absurd (Node.self_mem_subtree _) (hd d)) height

/-! ## Failures -/

theorem noteAll_length (values : List JType) (frames : List Frame) :
    (noteAll values frames).length = frames.length := by
  rcases noteAll_cases values frames with hsame | ⟨_, _, _, hlambda, hnoted⟩
  · rw [hsame]
  · rw [hnoted, hlambda, List.length_cons, List.length_cons]

/-- A step with a footprint closes no scope that was open, and leaves as many frames. -/
theorem Has.open_after {F : Footprint} {m : Check α} (h : Has F m) (setting : Setting) {s : State}
    (hs : s.table.Reachable) :
    (exec (m setting) s).2.frames.length = s.frames.length ∧
      s.table.depth ≤ (exec (m setting) s).2.table.depth := by
  obtain ⟨⟨j, hj⟩, -⟩ := h.run setting s
  obtain ⟨values, hframes, -⟩ := hj.frames
  constructor
  · rw [hframes, noteAll_length]
  · rw [hj.depth hs]
    exact Nat.le_add_right _ _

/-- From a state with a reachable table, the check of an expression or a statement that fails leaves as
many frames as there were and closes none of the scopes that were open before.  It closes all those
that it opened, if no class is declared in the node. -/
theorem failed_scopes_and_frames (setting : Setting) (height : Nat) (s : State)
    (hs : s.table.Reachable) :
    (∀ (e : Expr) (expected : Option JType) (failure : AnalysisError) (s' : State),
      exec ((Checker.upTo height).expr e expected setting) s = (.error failure, s') →
        s'.frames.length = s.frames.length ∧ s.table.depth ≤ s'.table.depth ∧
          (ClassFree (.expr e) → s'.table.depth = s.table.depth)) ∧
    (∀ (stmt : Stmt) (failure : AnalysisError) (s' : State),
      exec ((Checker.upTo height).stmt stmt setting) s = (.error failure, s') →
        s'.frames.length = s.frames.length ∧ s.table.depth ≤ s'.table.depth ∧
          (ClassFree (.stmt stmt) → s'.table.depth = s.table.depth)) := by
  have hbalanced := Checker.balanced_upTo height
  have hlevel := Checker.level_upTo height
  constructor
  · intro e expected failure s' hrun
    obtain ⟨hframes, hdepth⟩ := (hbalanced.expr e expected).open_after setting hs
    rw [hrun] at hframes hdepth
    refine ⟨hframes, hdepth, fun hfree => ?_⟩
    have hsame := hlevel.expr e expected hfree setting s
    rwa [hrun] at hsame
  · intro stmt failure s' hrun
    obtain ⟨hframes, hdepth⟩ := (hbalanced.stmt stmt).open_after setting hs
    rw [hrun] at hframes hdepth
    refine ⟨hframes, hdepth, fun hfree => ?_⟩
    have hsame := hlevel.stmt stmt hfree setting s
    rwa [hrun] at hsame

/-- The block with an expression whose name is unknown. -/
def unknownInBlock : Stmt := ⟨2, .block [⟨1, .expr ⟨0, .name "y"⟩⟩]⟩

/-- The scope of a block is closed where a name in it is unknown. -/
theorem unknownInBlock_scopes_and_frames :
    insideLambda.table.Reachable ∧ ClassFree (.stmt unknownInBlock) ∧
      ∃ failure s',
        exec ((Checker.upTo 3).stmt unknownInBlock noClasses) insideLambda = (.error failure, s') ∧
          s'.frames.length = insideLambda.frames.length ∧
          s'.table.depth = insideLambda.table.depth := by
  have hfree : ClassFree (.stmt unknownInBlock) := by
    have hname : ClassFree (.expr ⟨0, .name "y"⟩) := by
      rw [classFree_iff]
      simp [Node.children, Expr.children]
    have hstmt : ClassFree (.stmt ⟨1, .expr ⟨0, .name "y"⟩⟩) := by
      rw [classFree_iff]
      simpa [Node.children, Stmt.children] using hname
    rw [classFree_iff]
    simpa [Node.children, Stmt.children, unknownInBlock] using hstmt
  refine ⟨insideLambda_reachable, hfree, _, _, rfl, ?_⟩
  obtain ⟨hframes, -, hdepth⟩ :=
    (failed_scopes_and_frames noClasses 3 insideLambda insideLambda_reachable).2 unknownInBlock _ _ rfl
  exact ⟨hframes, hdepth hfree⟩

/-- The block with a class whose superclass is unknown. -/
def extendsMissing : Stmt :=
  ⟨3, .block [⟨2, .decl (plainClass 1 "L" (some ⟨0, .named ⟨["Missing"]⟩ none⟩))⟩]⟩

/-- The class leaves the scope of its header open, so the block closes that one and leaves its own. -/
theorem extendsMissing_leaves_scope :
    ¬ ∀ (setting : Setting) (height : Nat) (s : State), s.table.Reachable →
      (∀ (e : Expr) (expected : Option JType) (failure : AnalysisError) (s' : State),
        exec ((Checker.upTo height).expr e expected setting) s = (.error failure, s') →
          s'.table.depth = s.table.depth ∧ s'.frames.length = s.frames.length) ∧
      (∀ (stmt : Stmt) (failure : AnalysisError) (s' : State),
        exec ((Checker.upTo height).stmt stmt setting) s = (.error failure, s') →
          s'.table.depth = s.table.depth ∧ s'.frames.length = s.frames.length) := by
  intro hkept
  have hfails : (exec ((Checker.upTo 3).stmt extendsMissing noClasses) insideLambda).1.toOption
      = none := by decide +kernel
  have hdepth : (exec ((Checker.upTo 3).stmt extendsMissing noClasses) insideLambda).2.table.depth
      = insideLambda.table.depth + 1 := by decide +kernel
  rcases hrun : exec ((Checker.upTo 3).stmt extendsMissing noClasses) insideLambda with ⟨failure | t, s⟩
  · have hsame := ((hkept _ _ _ insideLambda_reachable).2 _ _ _ hrun).1
    rw [hrun, hsame] at hdepth
    omega
  · rw [hrun] at hfails
    cases hfails

end JavaSema.Analysis
