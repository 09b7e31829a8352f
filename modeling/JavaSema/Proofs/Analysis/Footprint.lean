import JavaSema.Analysis.Checker
import JavaSema.Proofs.Scope.Reachable

/-!
# Footprints

What a step of an analysis may leave behind in the state: recorded types, bindings in the innermost
scope, and values noted for a `return`.

There are four groups.

* States.  `Footprint.At` compares a state with an earlier one: so many scopes are open on top of
  those of the earlier state, and what is below them changed as the footprint allows.
* Steps.  `Goes` says that a step leads from so many open scopes to so many others, and `Has` that it
  leaves all scopes as they were.  `Has.goes` takes a step into open scopes.
* Rules for what steps are made of, one for each operation of the state.
* Rules for brackets: blocks, frames, and scopes that are unwound after a failure.
-/

namespace JavaSema.Analysis

open Source

variable {α β : Type}

/-! ## States -/

/-- What a step may leave behind. -/
structure Footprint where
  /-- The nodes whose types may be recorded. -/
  marks : NodeId → Prop
  /-- Whether symbols may be bound in the innermost scope. -/
  binds : Bool
  /-- Whether values may be noted for a `return`. -/
  returns : Bool

/-- The frames after the values were noted in order. -/
def noteAll (values : List JType) (frames : List Frame) : List Frame :=
  values.foldl (fun frames t => noteReturn t frames) frames

namespace Footprint

/-- What may become of the scopes that are not on top. -/
def Scopes (F : Footprint) (before after : List Scope) : Prop :=
  Grown before after ∧ (F.binds = false → after.map Scope.bare = before.map Scope.bare)

/-- What may become of the frames. -/
def Frames (F : Footprint) (before after : List Frame) : Prop :=
  ∃ values, after = noteAll values before ∧ (F.returns = false → values = [])

/-- What may become of the recorded types. -/
def Typings (F : Footprint) (before after : Typings) : Prop :=
  ∃ new, after = new ++ before ∧ ∀ p ∈ new, F.marks p.1

/-- The state can follow the earlier one, with `k` more scopes open. -/
structure At (F : Footprint) (k : Nat) (s₀ s : State) : Prop where
  /-- Types were recorded. -/
  typings : F.Typings s₀.typings s.typings
  /-- Values were noted. -/
  frames : F.Frames s₀.frames s.frames
  /-- The table is reachable if it was, and has `k` more scopes. -/
  table : s₀.table.Reachable → s.table.Reachable ∧
    ∃ top kept, s.table.scopes = top ++ kept ∧ top.length = k ∧ F.Scopes s₀.table.scopes kept

/-- The same footprint where symbols may be bound in the innermost scope. -/
def inner (F : Footprint) : Footprint := { F with binds := true }

/-- The same footprint where values may be noted. -/
def returning (F : Footprint) : Footprint := { F with returns := true }

/-- The one footprint allows what the other one does. -/
structure Le (F G : Footprint) : Prop where
  /-- Types that may be recorded. -/
  marks : ∀ id, F.marks id → G.marks id
  /-- Symbols that may be bound. -/
  binds : G.binds = false → F.binds = false
  /-- Values that may be noted. -/
  returns : G.returns = false → F.returns = false

variable {F G : Footprint} {k : Nat} {s₀ s s' : State}

theorem le_inner (F : Footprint) : F.Le F.inner := ⟨fun _ => id, nofun, id⟩

theorem scopes_of_bare {ss ss' : List Scope} (h : ss'.map Scope.bare = ss.map Scope.bare) :
    F.Scopes ss ss' :=
  ⟨grown_of_bare h, fun _ => h⟩

theorem Scopes.trans {ss ss' ss'' : List Scope} (h : F.Scopes ss ss') (h' : F.Scopes ss' ss'') :
    F.Scopes ss ss'' :=
  ⟨h.1.trans h'.1, fun hb => (h'.2 hb).trans (h.2 hb)⟩

theorem Scopes.length {ss ss' : List Scope} (h : F.Scopes ss ss') : ss'.length = ss.length := by
  cases h.1 with
  | nil => rfl
  | cons _ houter => simpa using congrArg List.length houter

theorem At.depth (h : F.At k s₀ s) (hs : s₀.table.Reachable) :
    s.table.depth = s₀.table.depth + k := by
  obtain ⟨-, top, kept, hscopes, hlength, hkept⟩ := h.table hs
  rw [SymbolTable.depth, SymbolTable.depth, hscopes, List.length_append, hkept.length, hlength,
    Nat.add_comm]

theorem frames_refl (frames : List Frame) : F.Frames frames frames := ⟨[], rfl, fun _ => rfl⟩

theorem Frames.trans {fs fs' fs'' : List Frame} (h : F.Frames fs fs') (h' : F.Frames fs' fs'') :
    F.Frames fs fs'' := by
  obtain ⟨values, rfl, hnone⟩ := h
  obtain ⟨values', rfl, hnone'⟩ := h'
  refine ⟨values ++ values', ?_, ?_⟩
  · simp [noteAll]
  · intro hr
    rw [hnone hr, hnone' hr]
    rfl

theorem typings_refl (typings : Analysis.Typings) : F.Typings typings typings :=
  ⟨[], rfl, by simp⟩

theorem Typings.trans {T T' T'' : Analysis.Typings} (h : F.Typings T T') (h' : F.Typings T' T'') :
    F.Typings T T'' := by
  obtain ⟨new, rfl, hnew⟩ := h
  obtain ⟨new', rfl, hnew'⟩ := h'
  refine ⟨new' ++ new, (List.append_assoc _ _ _).symm, ?_⟩
  intro p hp
  rcases List.mem_append.mp hp with hp | hp
  · exact hnew' p hp
  · exact hnew p hp

theorem at_refl (F : Footprint) (s : State) : F.At 0 s s :=
  ⟨typings_refl _, frames_refl _, fun h => ⟨h, [], _, rfl, rfl, scopes_of_bare rfl⟩⟩

theorem At.mono (h : F.At k s₀ s) (hle : F.Le G) : G.At k s₀ s := by
  obtain ⟨⟨new, hnew, hmarks⟩, ⟨values, hvalues, hnone⟩, htable⟩ := h
  refine ⟨⟨new, hnew, fun p hp => hle.marks _ (hmarks p hp)⟩,
    ⟨values, hvalues, fun hr => hnone (hle.returns hr)⟩, ?_⟩
  intro hreach
  obtain ⟨hreach', top, kept, hscopes, hlength, hgrown, hbare⟩ := htable hreach
  exact ⟨hreach', top, kept, hscopes, hlength, hgrown, fun hb => hbare (hle.binds hb)⟩

/-- A change of the other parts of the state is no matter. -/
theorem At.of_eq (h : F.At k s₀ s) (htable : s'.table = s.table) (hframes : s'.frames = s.frames)
    (htypings : s'.typings = s.typings) : F.At k s₀ s' := by
  refine ⟨?_, ?_, ?_⟩
  · rw [htypings]
    exact h.typings
  · rw [hframes]
    exact h.frames
  · rw [htable]
    exact h.table

/-- What happened below open scopes is seen from outside of them. -/
theorem At.trans {j : Nat} (h : F.At k s₀ s) (h' : F.inner.At j s s')
    (hbelow : k = 0 → F.At j s s') : F.At (j + k) s₀ s' := by
  refine ⟨h.typings.trans h'.typings, h.frames.trans h'.frames, ?_⟩
  intro hreach
  obtain ⟨hreach₁, top, kept, hscopes, hlength, hkept⟩ := h.table hreach
  cases top with
  | nil =>
    obtain rfl : k = 0 := hlength.symm
    obtain ⟨hreach₂, top', kept', hscopes', hlength', hkept'⟩ := (hbelow rfl).table hreach₁
    rw [hscopes] at hkept'
    exact ⟨hreach₂, top', kept', hscopes', hlength', hkept.trans hkept'⟩
  | cons a top =>
    obtain ⟨hreach₂, top', kept', hscopes', hlength', hkept', -⟩ := h'.table hreach₁
    rw [hscopes, List.cons_append] at hkept'
    -- the innermost scope is one of those on top, so that those below are as they were
    cases hkept' with
    | @cons _ b _ outer _ houter =>
      rw [List.map_append] at houter
      obtain ⟨top₂, kept₂, rfl, htop, hkept₂⟩ := List.map_eq_append_iff.mp houter
      refine ⟨hreach₂, top' ++ b :: top₂, kept₂, ?_, ?_, hkept.trans (scopes_of_bare hkept₂)⟩
      · rw [hscopes']
        simp
      · have hsame := congrArg List.length htop
        simp only [List.length_map] at hsame
        simp only [List.length_append, List.length_cons] at hlength ⊢
        omega

theorem At.append {j : Nat} (h : F.At k s₀ s) (h' : F.At j s s') : F.At (j + k) s₀ s' :=
  h.trans (h'.mono F.le_inner) fun _ => h'

theorem At.append_inner {j : Nat} (h : F.At (k + 1) s₀ s) (h' : F.inner.At j s s') :
    F.At (j + (k + 1)) s₀ s' :=
  h.trans h' nofun

end Footprint

/-! ## Steps -/

section Run

variable {m : Check α} {f : α → Check β} {setting : Setting} {s s' : State}

theorem run_bind_ok {a : α} (h : exec (m setting) s = (.ok a, s')) :
    exec ((m >>= f) setting) s = exec (f a setting) s' :=
  exec_bind_ok h

theorem run_bind_error {e : AnalysisError} (h : exec (m setting) s = (.error e, s')) :
    exec ((m >>= f) setting) s = (.error e, s') :=
  exec_bind_error h

/-- Both steps of a sequence that succeeds succeed. -/
theorem ok_of_run_bind {b : β} (h : exec ((m >>= f) setting) s = (.ok b, s')) :
    ∃ a t, exec (m setting) s = (.ok a, t) ∧ exec (f a setting) t = (.ok b, s') :=
  ok_of_exec_bind h

theorem run_modify (f : State → State) (setting : Setting) (s : State) :
    exec ((modify f : Check PUnit) setting) s = (.ok ⟨⟩, f s) := rfl

theorem run_get (setting : Setting) (s : State) :
    exec ((get : Check State) setting) s = (.ok s, s) := rfl

theorem run_classes (setting : Setting) (s : State) :
    exec (classes setting) s = (.ok (overlay s.declared setting.classes), s) := rfl

end Run

/-- A run ends in a state with `k` more scopes open, or it failed with any number of them. -/
def Footprint.Ends (F : Footprint) (k : Nat) (s₀ : State) (r : Except AnalysisError α × State) :
    Prop :=
  (∃ j, F.At j s₀ r.2) ∧ ∀ a, r.1 = .ok a → F.At k s₀ r.2

/-- The step leads from `k` open scopes to `k'` of them. -/
def Goes (F : Footprint) (k k' : Nat) (m : Check α) : Prop :=
  ∀ setting s₀ s, F.At k s₀ s → F.Ends k' s₀ (exec (m setting) s)

/-- The step leaves the scopes that were open, and no others where it succeeds. -/
abbrev Has (F : Footprint) (m : Check α) : Prop := Goes F 0 0 m

variable {F G : Footprint} {k k' k'' : Nat}

theorem Footprint.At.ends {s₀ s : State} (h : F.At k s₀ s) (r : Except AnalysisError α) :
    F.Ends k s₀ (r, s) :=
  ⟨⟨k, h⟩, fun _ _ => h⟩

theorem Footprint.ends_error {j : Nat} {s₀ s : State} (h : F.At j s₀ s) (e : AnalysisError) :
    F.Ends k s₀ ((.error e, s) : Except AnalysisError α × State) :=
  ⟨⟨j, h⟩, nofun⟩

theorem Footprint.Ends.bind {m : Check α} {f : α → Check β} {setting : Setting} {s₀ s : State}
    (hm : F.Ends k s₀ (exec (m setting) s)) (hf : ∀ a, Goes F k k' (f a)) :
    F.Ends k' s₀ (exec ((m >>= f) setting) s) := by
  obtain ⟨hfail, hok⟩ := hm
  rcases hrun : exec (m setting) s with ⟨e | a, s'⟩
  · rw [run_bind_error hrun]
    rw [hrun] at hfail
    exact ⟨hfail, nofun⟩
  · rw [run_bind_ok hrun]
    rw [hrun] at hok
    exact hf a setting s₀ s' (hok a rfl)

theorem Has.run {m : Check α} (h : Has F m) (setting : Setting) (s : State) :
    F.Ends 0 s (exec (m setting) s) :=
  h setting s s (F.at_refl s)

/-- A step may be judged by its runs alone. -/
theorem Goes.of_run {m : Check α} (h : ∀ setting s, F.Ends 0 s (exec (m setting) s)) :
    Goes F k k m := by
  intro setting s₀ s hat
  obtain ⟨⟨j, hj⟩, hok⟩ := h setting s
  refine ⟨⟨j + k, hat.append hj⟩, ?_⟩
  intro a ha
  have hend := hat.append (hok a ha)
  rwa [Nat.zero_add] at hend

/-- A step may be taken with any number of scopes open. -/
theorem Has.goes {m : Check α} (h : Has F m) : Goes F k k m := .of_run h.run

theorem Has.mono {m : Check α} (h : Has F m) (hle : F.Le G) : Has G m := by
  refine .of_run fun setting s => ?_
  obtain ⟨⟨j, hj⟩, hok⟩ := h.run setting s
  exact ⟨⟨j, hj.mono hle⟩, fun a ha => (hok a ha).mono hle⟩

/-! ## Rules for operations -/

namespace Goes

theorem pure (a : α) : Goes F k k (Pure.pure a : Check α) := fun _ _ _ hat => hat.ends _

theorem throw (e : AnalysisError) : Goes F k k' (MonadExcept.throw e : Check α) :=
  fun _ _ _ hat => F.ends_error hat e

theorem failNamed (name : String) (cause : ResolveError) :
    Goes F k k' (Analysis.failNamed name cause : Check α) := throw _

theorem failAt (n : Node) (cause : ResolveError) :
    Goes F k k' (Analysis.failAt n cause : Check α) := throw _

theorem bind {m : Check α} {f : α → Check β} (hm : Goes F k k' m) (hf : ∀ a, Goes F k' k'' (f a)) :
    Goes F k k'' (m >>= f) :=
  fun setting s₀ s hat => (hm setting s₀ s hat).bind hf

theorem ite {p : Prop} [Decidable p] {m m' : Check α} (hm : Goes F k k' m) (hm' : Goes F k k' m') :
    Goes F k k' (if p then m else m') := by
  split
  · exact hm
  · exact hm'

theorem map {m : Check α} (f : α → β) (hm : Goes F k k' m) : Goes F k k' (f <$> m) := by
  rw [map_eq_pure_bind]
  exact hm.bind fun a => pure (f a)

theorem discard {m : Check α} (hm : Goes F k k' m) : Goes F k k' (Functor.discard m) := hm.map _

theorem get : Goes F k k (MonadState.get : Check State) := fun _ _ _ hat => hat.ends _

theorem read : Goes F k k (MonadReader.read : Check Setting) := fun _ _ _ hat => hat.ends _

/-- A change of other parts of the state. -/
theorem modifyGet {f : State → α × State} (htable : ∀ s, (f s).2.table = s.table)
    (hframes : ∀ s, (f s).2.frames = s.frames) (htypings : ∀ s, (f s).2.typings = s.typings) :
    Goes F k k (MonadStateOf.modifyGet f : Check α) :=
  fun _ _ s hat => (hat.of_eq (htable s) (hframes s) (htypings s)).ends _

theorem forM (l : List β) {f : β → Check PUnit} (hf : ∀ b ∈ l, Goes F k k (f b)) :
    Goes F k k (l.forM f) := by
  induction l with
  | nil => exact pure _
  | cons b l ih =>
    refine bind (hf b List.mem_cons_self) fun _ => ih fun c hc => ?_
    exact hf c (List.mem_cons_of_mem _ hc)

theorem mapM (l : List α) {f : α → Check β} (hf : ∀ a ∈ l, Goes F k k (f a)) :
    Goes F k k (l.mapM f) := by
  induction l with
  | nil => exact pure _
  | cons a l ih =>
    rw [List.mapM_cons]
    refine bind (hf a List.mem_cons_self) fun _ => bind (ih fun c hc => ?_) fun _ => pure _
    exact hf c (List.mem_cons_of_mem _ hc)

theorem foldlM (l : List α) {f : β → α → Check β} (b : β) (hf : ∀ b, ∀ a ∈ l, Goes F k k (f b a)) :
    Goes F k k (l.foldlM f b) := by
  induction l generalizing b with
  | nil => exact pure _
  | cons a l ih =>
    rw [List.foldlM_cons]
    refine bind (hf b a List.mem_cons_self) fun b' => ih b' fun b c hc => ?_
    exact hf b c (List.mem_cons_of_mem _ hc)

theorem optionMapM (o : Option α) {f : α → Check β} (hf : ∀ a ∈ o, Goes F k k (f a)) :
    Goes F k k (o.mapM f) := by
  cases o with
  | none => exact pure _
  | some a => exact (hf a rfl).map some

theorem record {id : NodeId} (h : F.marks id) (t : JType) : Goes F k k (record id t) := by
  intro setting s₀ s hat
  have hnew : F.Typings s.typings ((id, t) :: s.typings) := by
    refine ⟨[(id, t)], rfl, ?_⟩
    intro p hp
    rw [List.mem_singleton.mp hp]
    exact h
  have hat' : F.At k s₀ { s with typings := (id, t) :: s.typings } :=
    ⟨hat.typings.trans hnew, hat.frames, hat.table⟩
  exact hat'.ends _

theorem noteReturn (h : F.returns = true) (t : JType) :
    Goes F k k (modify fun s => { s with frames := noteReturn t s.frames } : Check PUnit) := by
  intro setting s₀ s hat
  have hnew : F.Frames s.frames (Analysis.noteReturn t s.frames) := by
    refine ⟨[t], rfl, ?_⟩
    intro hreturns
    rw [h] at hreturns
    cases hreturns
  have hat' : F.At k s₀ { s with frames := Analysis.noteReturn t s.frames } :=
    ⟨hat.typings, hat.frames.trans hnew, hat.table⟩
  exact hat'.ends _

end Goes

/-! ## Rules for the symbol table -/

/-- The operation leads from `k` open scopes to `k'` of them, also where it fails. -/
def Moves (F : Footprint) (k k' : Nat) (op : TableM α) : Prop :=
  ∀ s₀ s, F.At k s₀ s → F.At k' s₀ { s with table := (exec op s.table).2 }

theorem exec_inTable (n : Node) (op : TableM α) (setting : Setting) (s : State) :
    (exec (inTable n op setting) s).2 = { s with table := (exec op s.table).2 } := by
  show (exec (tryTable op setting >>= _) s).2 = _
  rw [exec_bind_ok (show exec (tryTable op setting) s
    = (.ok (exec op s.table).1, { s with table := (exec op s.table).2 }) from rfl)]
  cases (exec op s.table).1 <;> rfl

theorem exec_inTableFor (name : String) (op : TableM α) (setting : Setting) (s : State) :
    (exec (inTableFor name op setting) s).2 = { s with table := (exec op s.table).2 } := by
  show (exec (tryTable op setting >>= _) s).2 = _
  rw [exec_bind_ok (show exec (tryTable op setting) s
    = (.ok (exec op s.table).1, { s with table := (exec op s.table).2 }) from rfl)]
  cases (exec op s.table).1 <;> rfl

theorem Moves.inTable {op : TableM α} (h : Moves F k k' op) (n : Node) :
    Goes F k k' (inTable n op) := by
  intro setting s₀ s hat
  have hend := h s₀ s hat
  rw [← exec_inTable n op setting s] at hend
  exact hend.ends _

theorem Moves.inTableFor {op : TableM α} (h : Moves F k k' op) (name : String) :
    Goes F k k' (inTableFor name op) := by
  intro setting s₀ s hat
  have hend := h s₀ s hat
  rw [← exec_inTableFor name op setting s] at hend
  exact hend.ends _

namespace Moves

/-- An operation is judged by what it does to reachable tables. -/
theorem of_table {op : TableM α} (h : ∀ (t : SymbolTable) (ss : List Scope), t.Reachable →
    (∃ top kept, t.scopes = top ++ kept ∧ top.length = k ∧ F.Scopes ss kept) →
      (exec op t).2.Reachable ∧
        ∃ top kept, (exec op t).2.scopes = top ++ kept ∧ top.length = k' ∧ F.Scopes ss kept) :
    Moves F k k' op := by
  intro s₀ s hat
  refine ⟨hat.typings, hat.frames, ?_⟩
  intro hreach
  obtain ⟨hreach', hscopes⟩ := hat.table hreach
  exact h s.table s₀.table.scopes hreach' hscopes

theorem pushScope (kind : ScopeKind) (observer : Option String) :
    Moves F k (k + 1) (SymbolTable.pushScope kind observer) := by
  refine of_table fun t ss hreach ⟨top, kept, hscopes, hlength, hkept⟩ => ?_
  refine ⟨hreach.pushScope kind observer, { kind, observer } :: top, kept, ?_, ?_, hkept⟩
  · show _ :: t.scopes = _
    rw [hscopes]
    rfl
  · rw [List.length_cons, hlength]

theorem pushClassScope (owner : String) (observer : Option String) :
    Moves F k (k + 1) (SymbolTable.pushClassScope owner observer) := by
  refine of_table fun t ss hreach ⟨top, kept, hscopes, hlength, hkept⟩ => ?_
  refine ⟨hreach.pushClassScope owner observer,
    { kind := .classBody, owner := some owner, observer } :: top, kept, ?_, ?_, hkept⟩
  · show _ :: t.scopes = _
    rw [hscopes]
    rfl
  · rw [List.length_cons, hlength]

theorem popScope : Moves F (k + 1) k SymbolTable.popScope := by
  refine of_table fun t ss hreach ⟨top, kept, hscopes, hlength, hkept⟩ => ?_
  refine ⟨hreach.popScope, top.tail, kept, ?_, ?_, hkept⟩
  · rw [(SymbolTable.popScope_scopes t).1, hscopes]
    cases top with
    | nil => cases hlength
    | cons a top => rfl
  · rw [List.length_tail, hlength]
    rfl

/-- Looking a symbol up leaves the scopes. -/
theorem observed (event : Event) (found : SymbolTable → Option (Scope × Symbol)) :
    Moves F k k (do SymbolTable.observed event (found (← get))) := by
  refine of_table fun t ss hreach hscopes => ?_
  rw [exec_bind_ok (exec_get _)]
  have hsame := SymbolTable.observed_keeps event (found t) t
  refine ⟨hreach.observed event (found t), ?_⟩
  rw [hsame.1]
  exact hscopes

/-- Symbols are bound in an open scope. -/
theorem binds {op : TableM α} (h : Keeps SymbolTable.Binds op) : Moves F (k + 1) (k + 1) op := by
  refine of_table fun t ss hreach ⟨top, kept, hscopes, hlength, hkept⟩ => ?_
  obtain ⟨hreach', hgrown⟩ := h t hreach
  refine ⟨hreach', ?_⟩
  cases top with
  | nil => cases hlength
  | cons a top =>
    rw [hscopes, List.cons_append] at hgrown
    generalize (exec op t).2.scopes = scopes at hgrown
    cases hgrown with
    | @cons _ b _ outer _ houter =>
      rw [List.map_append] at houter
      obtain ⟨top₂, kept₂, rfl, htop, hkept₂⟩ := List.map_eq_append_iff.mp houter
      refine ⟨b :: top₂, kept₂, rfl, ?_, hkept.trans (Footprint.scopes_of_bare hkept₂)⟩
      have hsame := congrArg List.length htop
      simp only [List.length_map] at hsame
      rw [← hlength, List.length_cons, List.length_cons, hsame]

/-- Symbols are bound in the innermost scope, where that is allowed. -/
theorem binds_below (hb : F.binds = true) {op : TableM α} (h : Keeps SymbolTable.Binds op) :
    Moves F 0 0 op := by
  refine of_table fun t ss hreach ⟨top, kept, hscopes, hlength, hkept⟩ => ?_
  obtain ⟨hreach', hgrown⟩ := h t hreach
  obtain rfl : top = [] := List.eq_nil_of_length_eq_zero hlength
  rw [List.nil_append] at hscopes
  rw [hscopes] at hgrown
  refine ⟨hreach', [], _, rfl, rfl, hkept.1.trans hgrown, ?_⟩
  intro hbinds
  rw [hb] at hbinds
  cases hbinds

end Moves

/-! ## Rules for brackets -/

theorem exec_attempt (step : Check α) (setting : Setting) (s : State) :
    exec (attempt step setting) s = (.ok (exec (step setting) s).1, (exec (step setting) s).2) := rfl

theorem exec_settle (r : Except AnalysisError α) (setting : Setting) (s : State) :
    exec (settle r setting) s = (r, s) := by
  cases r <;> rfl

/-- A step that closes a scope, also where it fails. -/
def Pops (close : Check α) : Prop :=
  ∀ (F : Footprint) k setting s₀ s, F.At (k + 1) s₀ s → F.At k s₀ (exec (close setting) s).2

theorem pops_inTable (n : Node) : Pops (inTable n SymbolTable.popScope) := by
  intro F k setting s₀ s hat
  rw [exec_inTable]
  exact Moves.popScope s₀ s hat

theorem pops_inTableFor (name : String) : Pops (inTableFor name SymbolTable.popScope) := by
  intro F k setting s₀ s hat
  rw [exec_inTableFor]
  exact Moves.popScope s₀ s hat

/-- What follows the closing of a scope may not open one, nor leave one open where it fails. -/
theorem Pops.bind {close : Check α} (h : Pops close) {f : α → Check β}
    (hf : ∀ (F : Footprint) k a setting s₀ s, F.At k s₀ s → F.At k s₀ (exec (f a setting) s).2) :
    Pops (close >>= f) := by
  intro F k setting s₀ s hat
  have hpop := h F k setting s₀ s hat
  rcases hrun : exec (close setting) s with ⟨e | a, s'⟩
  · rw [run_bind_error hrun]
    rwa [hrun] at hpop
  · rw [run_bind_ok hrun]
    rw [hrun] at hpop
    exact hf F k a setting s₀ s' hpop

theorem Pops.discard {close : Check α} (h : Pops close) : Pops (Functor.discard close) := by
  show Pops (_ <$> close)
  rw [map_eq_pure_bind]
  exact h.bind fun _ _ _ _ _ _ hat => hat

theorem exec_closing (close : Check Unit) (step : Check α) (setting : Setting) (s : State) :
    (exec (closing close step setting) s).2
        = (exec (close setting) (exec (step setting) s).2).2 ∧
      ∀ a, (exec (closing close step setting) s).1 = .ok a →
        (exec (step setting) s).1 = .ok a := by
  rw [closing, run_bind_ok (exec_attempt _ _ _), run_bind_ok (exec_attempt _ _ _)]
  rcases (exec (step setting) s).1 with e | a
  · rw [run_bind_error (exec_settle _ _ _)]
    exact ⟨rfl, nofun⟩
  · rw [run_bind_ok (exec_settle _ _ _)]
    rcases (exec (close setting) (exec (step setting) s).2).1 with e | u
    · rw [run_bind_error (exec_settle _ _ _)]
      exact ⟨rfl, nofun⟩
    · rw [run_bind_ok (exec_settle _ _ _)]
      exact ⟨rfl, fun b hb => hb⟩

namespace Goes

/-- A step that binds symbols, inside a scope that is closed after it. -/
theorem closing {close : Check Unit} {step : Check α} (hstep : Has F.inner step)
    (hclose : Pops close) : Goes F (k + 1) k (closing close step) := by
  intro setting s₀ s hat
  obtain ⟨hstate, hvalue⟩ := exec_closing close step setting s
  obtain ⟨⟨j, hj⟩, hok⟩ := hstep.run setting s
  rw [Footprint.Ends, hstate]
  refine ⟨⟨j + k, ?_⟩, ?_⟩
  · exact hclose F (j + k) setting s₀ _ (hat.append_inner hj)
  · intro a ha
    have hend := hat.append_inner (hok a (hvalue a ha))
    rw [Nat.zero_add] at hend
    exact hclose F k setting s₀ _ hend

theorem inBlock {step : Check α} (hstep : Has F.inner step) (n : Node) :
    Goes F k k (inBlock n step) := by
  refine Has.goes ?_
  refine bind (read.bind fun _ => pure _) fun observer => ?_
  refine bind ((Moves.pushScope .block observer).inTable n) fun _ => ?_
  exact closing hstep (pops_inTable n).discard

/-- A scope that is closed after a step, whose failure counts after that of closing. -/
theorem popAfter {close : Check α} {step : Check β} (hstep : Has F.inner step)
    (hclose : Pops close) :
    Goes F (k + 1) k (do
      let result ← attempt step
      let _ ← close
      settle result) := by
  intro setting s₀ s hat
  obtain ⟨⟨j, hj⟩, hok⟩ := hstep.run setting s
  rw [run_bind_ok (exec_attempt _ _ _)]
  have hfail := hclose F (j + k) setting s₀ _ (hat.append_inner hj)
  rcases hclosed : exec (close setting) (exec (step setting) s).2 with ⟨e | u, s'⟩
  · rw [run_bind_error hclosed]
    rw [hclosed] at hfail
    exact F.ends_error hfail e
  · rw [run_bind_ok hclosed, exec_settle]
    rw [hclosed] at hfail
    refine ⟨⟨j + k, hfail⟩, ?_⟩
    intro b hb
    have hend := hat.append_inner (hok b hb)
    rw [Nat.zero_add] at hend
    have hpop := hclose F k setting s₀ _ hend
    rwa [hclosed] at hpop

end Goes

/-! ### Frames -/

/-- Noting values changes the innermost frame only. -/
theorem drop_noteAll (values : List JType) (frame : Frame) (frames : List Frame) :
    (noteAll values (frame :: frames)).drop 1 = frames := by
  induction values generalizing frame with
  | nil => rfl
  | cons t values ih =>
    have hnote : ∃ frame', noteReturn t (frame :: frames) = frame' :: frames := by
      cases frame <;> exact ⟨_, rfl⟩
    obtain ⟨frame', hframe⟩ := hnote
    show (noteAll values (noteReturn t (frame :: frames))).drop 1 = frames
    rw [hframe]
    exact ih frame'

/-- The state inside a frame. -/
def State.enter (s : State) (frame : Frame) : State := { s with frames := frame :: s.frames }

/-- The state outside of its innermost frame. -/
def State.leave (s : State) : State := { s with frames := s.frames.drop 1 }

theorem exec_withFrame (frame : Frame) (step : Check α) (setting : Setting) (s : State) :
    (exec (withFrame frame step setting) s).2 = (exec (step setting) (s.enter frame)).2.leave ∧
      ∀ a, (exec (withFrame frame step setting) s).1 = .ok a →
        (exec (step setting) (s.enter frame)).1 = .ok a.1 := by
  have hpush : exec ((modify fun s => { s with frames := frame :: s.frames } : Check PUnit) setting) s
      = (.ok ⟨⟩, s.enter frame) := rfl
  rw [withFrame, run_bind_ok hpush, run_bind_ok (exec_attempt _ _ _)]
  generalize exec (step setting) (s.enter frame) = r
  rcases r with ⟨e | a, s'⟩
  · exact ⟨rfl, nofun⟩
  · refine ⟨rfl, ?_⟩
    rintro ⟨b, last⟩ hb
    injection hb with hb
    injection hb with hb
    rw [hb]

/-- A step inside a frame of its own, in which values may be noted. -/
theorem Goes.withFrame {step : Check α} (hstep : Has F.returning step) (frame : Frame) :
    Goes F k k (withFrame frame step) := by
  refine .of_run fun setting s => ?_
  obtain ⟨hstate, hvalue⟩ := exec_withFrame frame step setting s
  obtain ⟨⟨j, hj⟩, hok⟩ := hstep.run setting (s.enter frame)
  have hout : ∀ j s', F.returning.At j (s.enter frame) s' → F.At j s s'.leave := by
    intro j s' hat
    refine ⟨hat.typings, ?_, hat.table⟩
    obtain ⟨values, hframes, -⟩ := hat.frames
    refine ⟨[], ?_, fun _ => rfl⟩
    show s'.frames.drop 1 = s.frames
    rw [hframes]
    exact drop_noteAll values frame s.frames
  rw [Footprint.Ends, hstate]
  refine ⟨⟨j, hout j _ hj⟩, ?_⟩
  intro a ha
  exact hout 0 _ (hok a.1 (hvalue a ha))

/-! ### Unwinding -/

theorem goes_unwind (n : Nat) : Goes F (n + k) k (unwindTo.go n) := by
  induction n with
  | zero =>
    rw [Nat.zero_add]
    exact .pure _
  | succ n ih =>
    have hpop : Goes F (n + 1 + k) (n + k) (inTableFor "<scope>" SymbolTable.popScope) := by
      rw [Nat.add_right_comm]
      exact Moves.popScope.inTableFor _
    exact hpop.bind fun _ => ih

/-- After a failure, closing scopes down to the earlier depth closes those that were left open. -/
theorem ends_unwindTo {j : Nat} {s₀ s : State} (h : F.At j s₀ s) (setting : Setting) :
    F.Ends 0 s₀ (exec (unwindTo s₀.table.depth setting) s) := by
  have hopen : F.At (s.table.depth - s₀.table.depth) s₀ s := by
    refine ⟨h.typings, h.frames, ?_⟩
    intro hreach
    obtain ⟨hreach', top, kept, hscopes, hlength, hkept⟩ := h.table hreach
    refine ⟨hreach', top, kept, hscopes, ?_, hkept⟩
    rw [h.depth hreach, hlength, Nat.add_sub_cancel_left]
  exact goes_unwind (k := 0) _ setting s₀ s hopen

end JavaSema.Analysis
