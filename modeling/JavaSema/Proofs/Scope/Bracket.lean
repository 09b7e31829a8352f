import JavaSema.Proofs.Scope.Reachable

/-!
# Closing a scope restores what was bound before

A run of operations that opens a scope, works inside it and closes it leaves the stack of scopes as it
was.  So all lookups answer what they answered before, with the same symbols.

There are three groups.

* Operations.  `Op` lists what can be done to a table, and `Balanced` the sequences in which each scope
  that is opened is closed again.
* Scopes.  One operation works on the innermost scope only, and `Balanced.scopes` carries that along a
  sequence.
* Observers.  Operations leave the observers, so that a lookup which tells them ends as before, if they
  judge each report alone and not by the ones before it.
-/

namespace JavaSema.SymbolTable

/-! ## Operations -/

/-- An operation on a symbol table that may change it.  The other lookups only read it. -/
inductive Op where
  /-- Opens a scope. -/
  | pushScope (kind : ScopeKind) (observer : Option String)
  /-- Opens the body of a class. -/
  | pushClassScope (owner : String) (observer : Option String)
  /-- Closes the innermost scope. -/
  | popScope
  /-- Binds a symbol. -/
  | pushSymbol (s : Symbol)
  /-- Looks a symbol up, which is told to be read. -/
  | read (name : String) (kind : SymbolKind)
  /-- Looks a symbol up, which is told to be written. -/
  | write (name : String) (kind : SymbolKind)
  /-- Looks a method up, which is told to be read. -/
  | readMethod (name : String) (params : List JType)

namespace Op

/-- Carries the operation out. -/
def run : Op → TableM Unit
  | pushScope kind observer => SymbolTable.pushScope kind observer
  | pushClassScope owner observer => SymbolTable.pushClassScope owner observer
  | popScope => discard SymbolTable.popScope
  | pushSymbol s => discard (SymbolTable.pushSymbol s)
  | read name kind => discard (lookupForRead name kind)
  | write name kind => discard (lookupForWrite name kind)
  | readMethod name params => discard (lookupMethodForRead name params)

/-- Whether the operation opens a scope. -/
def opens : Op → Bool
  | pushScope _ _ | pushClassScope _ _ => true
  | _ => false

/-- Whether the operation leaves the number of scopes. -/
def isInner : Op → Bool
  | pushScope _ _ | pushClassScope _ _ | popScope => false
  | _ => true

end Op

/-- Carries the operations out in order, up to the first one that fails. -/
def runAll (ops : List Op) : TableM Unit := ops.forM Op.run

/-- The sequences in which scopes are closed that were opened, and no others. -/
inductive Balanced : List Op → Prop where
  /-- Nothing is done. -/
  | nil : Balanced []
  /-- A symbol is bound or looked up first. -/
  | inner {op : Op} {rest : List Op} (hop : op.isInner = true) (hrest : Balanced rest) :
      Balanced (op :: rest)
  /-- A scope is opened, and closed after a balanced sequence. -/
  | nested {opening : Op} {body rest : List Op} (hopen : opening.opens = true)
      (hbody : Balanced body) (hrest : Balanced rest) :
      Balanced (opening :: body ++ .popScope :: rest)

/-! ## Scopes -/

theorem ok_of_exec_discard {α : Type} {op : TableM α} {t t' : SymbolTable}
    (h : exec (discard op) t = (.ok (), t')) : ∃ a, exec op t = (.ok a, t') := by
  change exec ((fun _ => ()) <$> op) t = _ at h
  rw [map_eq_pure_bind] at h
  obtain ⟨a, u, hrun, hpure⟩ := ok_of_exec_bind h
  cases hpure
  exact ⟨a, hrun⟩

/-- An operation on symbols leaves all scopes but the innermost one. -/
theorem Op.scopes_of_isInner {op : Op} (hop : op.isInner = true) {t t' : SymbolTable}
    (hrun : exec op.run t = (.ok (), t')) {top : Scope} {base : List Scope}
    (hscopes : t.scopes = top :: base) : ∃ top', t'.scopes = top' :: base := by
  have hlookup : ∀ (event : Event) (locate : SymbolTable → Option (Scope × Symbol)),
      exec (discard (do observed event (locate (← get)))) t = (.ok (), t') →
        ∃ top', t'.scopes = top' :: base := by
    intro event locate hrun
    obtain ⟨a, hrun⟩ := ok_of_exec_discard hrun
    rw [exec_bind_ok (exec_get _)] at hrun
    have hkept := observed_keeps event (locate t) t
    rw [hrun] at hkept
    exact ⟨top, hkept.1.trans hscopes⟩
  cases op with
  | pushSymbol s =>
    obtain ⟨a, hrun⟩ := ok_of_exec_discard hrun
    have hcases := pushSymbol_cases s t
    rw [hrun] at hcases
    rcases hcases with hsame | ⟨scope, rest, heq, ⟨hnew, -⟩ | ⟨old, -, -, -, name, hnew, -⟩⟩
    · exact ⟨top, hsame.1.trans hscopes⟩
    · rw [hscopes, List.cons.injEq] at heq
      exact ⟨_, heq.2 ▸ hnew⟩
    · rw [hscopes, List.cons.injEq] at heq
      exact ⟨_, heq.2 ▸ hnew⟩
  | read name kind => exact hlookup .read (fun t => locate? t.scopes name kind) hrun
  | write name kind => exact hlookup .write (fun t => locate? t.scopes name kind) hrun
  | readMethod name params => exact hlookup .read (fun t => t.locateMethod? name params) hrun
  | pushScope | pushClassScope | popScope => cases hop

theorem Op.scopes_of_opens {op : Op} (hop : op.opens = true) {t t' : SymbolTable}
    (hrun : exec op.run t = (.ok (), t')) : ∃ scope, t'.scopes = scope :: t.scopes := by
  cases op with
  | pushScope kind observer =>
    cases hrun
    exact ⟨_, rfl⟩
  | pushClassScope owner observer =>
    cases hrun
    exact ⟨_, rfl⟩
  | popScope | pushSymbol | read | write | readMethod => cases hop

theorem Op.scopes_of_popScope {t t' : SymbolTable} (hrun : exec Op.popScope.run t = (.ok (), t')) :
    t'.scopes = t.scopes.tail := by
  obtain ⟨a, hrun⟩ := ok_of_exec_discard hrun
  have hscopes := (popScope_scopes t).1
  rwa [hrun] at hscopes

/-- The operations of a sequence that succeeds succeed one after the other. -/
theorem ok_of_runAll_append {ops ops' : List Op} {t t' : SymbolTable}
    (hrun : exec (runAll (ops ++ ops')) t = (.ok (), t')) :
    ∃ u, exec (runAll ops) t = (.ok (), u) ∧ exec (runAll ops') u = (.ok (), t') := by
  change exec (forM (ops ++ ops') Op.run) t = _ at hrun
  rw [List.forM_append] at hrun
  obtain ⟨_, u, hfirst, hrest⟩ := ok_of_exec_bind hrun
  exact ⟨u, hfirst, hrest⟩

theorem ok_of_runAll_cons {op : Op} {ops : List Op} {t t' : SymbolTable}
    (hrun : exec (runAll (op :: ops)) t = (.ok (), t')) :
    ∃ u, exec op.run t = (.ok (), u) ∧ exec (runAll ops) u = (.ok (), t') := by
  obtain ⟨_, u, hfirst, hrest⟩ := ok_of_exec_bind (f := fun _ => runAll ops) hrun
  exact ⟨u, hfirst, hrest⟩

/-- A balanced sequence leaves all scopes but the innermost one. -/
theorem Balanced.scopes {ops : List Op} (h : Balanced ops) {t t' : SymbolTable}
    (hrun : exec (runAll ops) t = (.ok (), t')) {top : Scope} {base : List Scope}
    (hscopes : t.scopes = top :: base) : ∃ top', t'.scopes = top' :: base := by
  induction h generalizing t t' top base with
  | nil =>
    cases hrun
    exact ⟨top, hscopes⟩
  | inner hop _ ih =>
    obtain ⟨u, hstep, hrest⟩ := ok_of_runAll_cons hrun
    obtain ⟨top', htop⟩ := Op.scopes_of_isInner hop hstep hscopes
    exact ih hrest htop
  | nested hopen _ _ ihbody ihrest =>
    obtain ⟨u, hbracket, hrest⟩ := ok_of_runAll_append hrun
    obtain ⟨u₁, hstep, hbody⟩ := ok_of_runAll_cons hbracket
    obtain ⟨u₂, hpop, hrest⟩ := ok_of_runAll_cons hrest
    obtain ⟨scope, hopened⟩ := Op.scopes_of_opens hopen hstep
    obtain ⟨scope', hinside⟩ := ihbody hbody hopened
    have hclosed := Op.scopes_of_popScope hpop
    rw [hinside, List.tail_cons] at hclosed
    exact ihrest hrest (hclosed.trans hscopes)

/-! ## Observers -/

/-- The two tables have the same observer, and reject reports by the same rule. -/
def SameObservers (t t' : SymbolTable) : Prop := t'.observer = t.observer ∧ t'.rejects = t.rejects

theorem sameObservers_refl (t : SymbolTable) : SameObservers t t := ⟨rfl, rfl⟩

theorem sameObservers_trans (t t' t'' : SymbolTable) (h : SameObservers t t')
    (h' : SameObservers t' t'') : SameObservers t t'' :=
  ⟨h'.1.trans h.1, h'.2.trans h.2⟩

theorem tell_keepsObservers (event : Event) (symbol : Symbol) (observer : Option String) :
    Keeps SameObservers (tell event symbol observer) := by
  intro t
  cases observer with
  | none => exact sameObservers_refl t
  | some observer =>
    rw [tell, exec_bind_ok (exec_modify _ _), exec_bind_ok (exec_get _)]
    split
    · exact ⟨rfl, rfl⟩
    · exact ⟨rfl, rfl⟩

theorem dispatch_keepsObservers (event : Event) (scope : Scope) (symbol : Symbol) :
    Keeps SameObservers (dispatch event scope symbol) := by
  refine .bind sameObservers_trans sameObservers_refl fun _ => ?_
  refine .bind sameObservers_trans (tell_keepsObservers _ _ _) fun _ => ?_
  exact .bind sameObservers_trans (tell_keepsObservers _ _ _) fun _ => tell_keepsObservers _ _ _

theorem observed_keepsObservers (event : Event) (found : Option (Scope × Symbol)) :
    Keeps SameObservers (observed event found) := by
  cases found with
  | none => exact .pure sameObservers_refl _
  | some found =>
    refine .bind sameObservers_trans (dispatch_keepsObservers _ _ _) fun _ => ?_
    exact .pure sameObservers_refl _

theorem popScope_keepsObservers : Keeps SameObservers popScope := by
  refine .bind sameObservers_trans sameObservers_refl fun t => ?_
  split
  · exact sameObservers_refl
  · rename_i scope rest _
    refine .bind sameObservers_trans (fun _ => ⟨rfl, rfl⟩) fun _ => ?_
    refine .bind sameObservers_trans ?_ fun _ => .pure sameObservers_refl _
    induction scope.order with
    | nil => exact .pure sameObservers_refl _
    | cons s order ih =>
      exact .bind sameObservers_trans (dispatch_keepsObservers _ _ _) fun _ => ih

theorem shadow_keepsObservers (scope : Scope) (s : Symbol) : Keeps SameObservers (shadow scope s) := by
  intro t
  rcases shadow_cases scope s t with hshadow | ⟨old, -, -, -, name, hshadow⟩
  · rw [hshadow]
    exact sameObservers_refl t
  · rw [hshadow]
    exact ⟨rfl, rfl⟩

theorem pushSymbol_keepsObservers (s : Symbol) : Keeps SameObservers (pushSymbol s) := by
  unfold pushSymbol
  split
  · exact sameObservers_refl
  refine .bind sameObservers_trans sameObservers_refl fun scopes => ?_
  split
  · exact sameObservers_refl
  refine .bind sameObservers_trans (shadow_keepsObservers _ _) fun (_, placeholder) => ?_
  refine .bind sameObservers_trans (fun _ => ⟨rfl, rfl⟩) fun _ => ?_
  refine .bind sameObservers_trans (fun _ => ⟨rfl, rfl⟩) fun _ => ?_
  have hpush := dispatch_keepsObservers .push
  cases placeholder with
  | none =>
    exact .bind sameObservers_trans (hpush _ _) fun _ => .pure sameObservers_refl _
  | some p =>
    refine .bind sameObservers_trans (hpush _ _) fun _ => ?_
    exact .bind sameObservers_trans (hpush _ _) fun _ => .pure sameObservers_refl _

/-- Operations leave the observers. -/
theorem Op.keepsObservers (op : Op) : Keeps SameObservers op.run := by
  have hlookup : ∀ (event : Event) (locate : SymbolTable → Option (Scope × Symbol)),
      Keeps SameObservers (do observed event (locate (← get))) := fun event locate =>
    .bind sameObservers_trans sameObservers_refl fun _ => observed_keepsObservers _ _
  cases op with
  | pushScope kind observer => exact fun _ => ⟨rfl, rfl⟩
  | pushClassScope owner observer => exact fun _ => ⟨rfl, rfl⟩
  | popScope => exact popScope_keepsObservers.discard
  | pushSymbol s => exact (pushSymbol_keepsObservers s).discard
  | read name kind => exact (hlookup .read fun t => locate? t.scopes name kind).discard
  | write name kind => exact (hlookup .write fun t => locate? t.scopes name kind).discard
  | readMethod name params => exact (hlookup .read fun t => t.locateMethod? name params).discard

/-- Whether a report is rejected does not depend on the reports before it. -/
def JudgesAlone (t : SymbolTable) : Prop :=
  ∀ report log log', t.rejects (report :: log) = t.rejects (report :: log')

/-- The two tables have the same observers, which judge each report alone. -/
structure JudgeAlike (t t' : SymbolTable) : Prop where
  observers : SameObservers t t'
  alone : t.JudgesAlone

/-- Telling an observer ends alike in tables that judge alike. -/
theorem exec_tell_alike {t t' : SymbolTable} (h : JudgeAlike t t') (event : Event)
    (symbol : Symbol) (observer : Option String) :
    (exec (tell event symbol observer) t').1 = (exec (tell event symbol observer) t).1 := by
  cases observer with
  | none => rfl
  | some observer =>
    rw [tell, exec_bind_ok (exec_modify _ _), exec_bind_ok (exec_get _),
      exec_bind_ok (exec_modify _ _), exec_bind_ok (exec_get _)]
    dsimp only
    rw [h.observers.2, h.alone _ t'.log t.log]
    split
    · rfl
    · rfl

/-- Two steps after each other end alike if each of them does. -/
theorem exec_bind_alike {α β : Type} {m : TableM α} {f : α → TableM β}
    (hkeeps : Keeps SameObservers m)
    (hm : ∀ {t t'}, JudgeAlike t t' → (exec m t').1 = (exec m t).1)
    (hf : ∀ a {t t'}, JudgeAlike t t' → (exec (f a) t').1 = (exec (f a) t).1)
    {t t' : SymbolTable} (h : JudgeAlike t t') :
    (exec (m >>= f) t').1 = (exec (m >>= f) t).1 := by
  have hfirst := hm h
  have hkept := hkeeps t
  have hkept' := hkeeps t'
  rw [exec_bind, exec_bind]
  rcases hrun : exec m t with ⟨r, u⟩
  rcases hrun' : exec m t' with ⟨r', u'⟩
  rw [hrun] at hfirst hkept
  rw [hrun'] at hfirst hkept'
  dsimp only at hfirst
  subst hfirst
  cases r' with
  | error e => rfl
  | ok a =>
    refine hf a ⟨⟨?_, ?_⟩, ?_⟩
    · rw [hkept'.1, h.observers.1, hkept.1]
    · rw [hkept'.2, h.observers.2, hkept.2]
    · rw [JudgesAlone, hkept.2]
      exact h.alone

theorem exec_observed_alike {t t' : SymbolTable} (h : JudgeAlike t t') (event : Event)
    (found : Option (Scope × Symbol)) :
    (exec (observed event found) t').1 = (exec (observed event found) t).1 := by
  cases found with
  | none => rfl
  | some found =>
    refine exec_bind_alike (dispatch_keepsObservers _ _ _) (fun h => ?_) (fun _ _ _ _ => rfl) h
    rw [dispatch, exec_bind_ok (exec_get _), exec_bind_ok (exec_get _), h.observers.1]
    refine exec_bind_alike (tell_keepsObservers _ _ _) (fun h => exec_tell_alike h _ _ _) ?_ h
    intro _ _ _ h
    refine exec_bind_alike (tell_keepsObservers _ _ _) (fun h => exec_tell_alike h _ _ _) ?_ h
    exact fun _ _ _ h => exec_tell_alike h _ _ _

/-- A lookup that tells of a symbol gives that symbol, if nobody rejects the report. -/
theorem eq_of_exec_observed {event : Event} {found : Option (Scope × Symbol)} {t u : SymbolTable}
    {answer : Option Symbol} (h : exec (observed event found) t = (.ok answer, u)) :
    answer = found.map Prod.snd := by
  cases found with
  | none =>
    cases h
    rfl
  | some found =>
    obtain ⟨_, _, -, hpure⟩ := ok_of_exec_bind h
    cases hpure
    rfl

/-- Opening a scope, a balanced sequence of operations and closing the scope, all with success, leave
the scopes as they were.  So every lookup gives the symbol that it gave before.  A lookup of a method
that tells the observers tells them of the method that it told them of before, and gives it unless they
reject that; it ends as it did before if they judge each report alone. -/
theorem bracket_restores (t t' : SymbolTable) (opening : Op) (body : List Op)
    (hopen : opening.opens = true) (hbody : Balanced body)
    (hrun : exec (runAll (opening :: body ++ [.popScope])) t = (.ok (), t')) :
    t'.scopes = t.scopes ∧
      (∀ name kind, t'.find? name kind = t.find? name kind) ∧
      (∀ name kind scopeKind, t'.findIn? name kind scopeKind = t.findIn? name kind scopeKind) ∧
      (∀ env name args, t'.findMethod? env name args = t.findMethod? env name args) ∧
      (∀ name params, t'.locateMethod? name params = t.locateMethod? name params ∧
        (∀ s s', (exec (lookupMethodForRead name params) t).1 = .ok s →
          (exec (lookupMethodForRead name params) t').1 = .ok s' → s' = s) ∧
        (t.JudgesAlone → (exec (lookupMethodForRead name params) t').1
          = (exec (lookupMethodForRead name params) t).1)) ∧
      t'.innermostClass? = t.innermostClass? ∧ t'.enclosingClasses = t.enclosingClasses := by
  have hobservers : SameObservers t t' := by
    have hkept := Keeps.forM sameObservers_refl sameObservers_trans
      (opening :: body ++ [.popScope]) (fun op _ => op.keepsObservers) t
    have hend : (exec (runAll (opening :: body ++ [.popScope])) t).2 = t' := by rw [hrun]
    rwa [← hend]
  have hscopes : t'.scopes = t.scopes := by
    obtain ⟨u, hbracket, hclose⟩ := ok_of_runAll_append hrun
    obtain ⟨u₁, hstep, hinside⟩ := ok_of_runAll_cons hbracket
    obtain ⟨u₂, hpop, hdone⟩ := ok_of_runAll_cons hclose
    cases hdone
    obtain ⟨scope, hopened⟩ := Op.scopes_of_opens hopen hstep
    obtain ⟨scope', hbefore⟩ := hbody.scopes hinside hopened
    rw [Op.scopes_of_popScope hpop, hbefore, List.tail_cons]
  refine ⟨hscopes, ?_, ?_, ?_, ?_, ?_, ?_⟩
  · intro name kind
    rw [find?, find?, hscopes]
  · intro name kind scopeKind
    rw [findIn?, findIn?, hscopes]
  · intro env name args
    rw [findMethod?, findMethod?, hscopes]
  · intro name params
    have hlocate : t'.locateMethod? name params = t.locateMethod? name params := by
      rw [locateMethod?, locateMethod?, hscopes]
    rw [lookupMethodForRead, exec_bind_ok (exec_get _), exec_bind_ok (exec_get _), hlocate]
    refine ⟨rfl, fun s s' hs hs' => ?_, fun halone => exec_observed_alike ⟨hobservers, halone⟩ _ _⟩
    have hfound := eq_of_exec_observed (Prod.ext hs rfl)
    have hfound' := eq_of_exec_observed (Prod.ext hs' rfl)
    rw [hfound, hfound']
  · rw [innermostClass?, innermostClass?, enclosingClasses, enclosingClasses, hscopes]
  · rw [enclosingClasses, enclosingClasses, hscopes]

/-- A table with a variable `a` in the body of a class. -/
def boundOnce : SymbolTable :=
  (exec (do
    pushClassScope "C" none
    pushSymbol { name := "a", kind := .var, type := .primitive .int }) {}).2

/-- What is done inside a block: `a` is bound twice, and once more in a class of its own. -/
def rebindings : List Op :=
  [.pushSymbol { name := "a", kind := .var, type := .string },
    .pushSymbol { name := "a", kind := .var, type := .object },
    .pushClassScope "C$1" none,
    .pushSymbol { name := "a", kind := .var, type := .null },
    .popScope,
    .read "a" .var]

/-- The variable of the class is found again after it was hidden in a block, and a lookup of a method
ends as before. -/
theorem boundOnce_restored :
    ∃ t', exec (runAll (.pushScope .block none :: rebindings ++ [.popScope])) boundOnce
        = (.ok (), t') ∧ t'.scopes = boundOnce.scopes ∧
      t'.find? "a" .var = boundOnce.find? "a" .var ∧
      (exec (lookupMethodForRead "f" []) t').1 = (exec (lookupMethodForRead "f" []) boundOnce).1 := by
  have hclass : Balanced [.pushSymbol { name := "a", kind := .var, type := .null }] :=
    .inner rfl .nil
  have hread : Balanced [.read "a" .var] := .inner rfl .nil
  have hopen : (Op.pushClassScope "C$1" none).opens = true := rfl
  have hbody : Balanced rebindings := .inner rfl (.inner rfl (.nested hopen hclass hread))
  obtain ⟨t', hrun⟩ :
      ∃ t', exec (runAll (.pushScope .block none :: rebindings ++ [.popScope])) boundOnce
        = (.ok (), t') := ⟨_, rfl⟩
  obtain ⟨hscopes, hfind, -, -, hlookup, -⟩ :=
    bracket_restores boundOnce t' (.pushScope .block none) rebindings rfl hbody hrun
  have halone : boundOnce.JudgesAlone := fun _ _ _ => rfl
  exact ⟨t', hrun, hscopes, hfind "a" .var, (hlookup "f" []).2.2 halone⟩

end JavaSema.SymbolTable
