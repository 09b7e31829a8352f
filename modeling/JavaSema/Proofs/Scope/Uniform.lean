import JavaSema.Analysis.Functional
import JavaSema.Proofs.Scope.Reachable

/-!
# Operations that do not depend on identities

Two symbol tables may hold the same bindings under different identities, and the types in the one may
have their members already where those in the other have not.  No operation can tell such tables
apart, as long as no report is rejected.

There are four groups.

* `Symbol.plain` and `Scope.plain` are what is left without identities and members.
* Lookups by name see no more than that.
* `SymbolTable.Agree` compares tables, and `Uniform` says that an operation leads from tables that
  agree to tables that agree.
* One theorem for each operation.
-/

namespace JavaSema

variable {α β γ δ : Type}

/-! ## Symbols and scopes -/

/-- The symbol without its identity and its members. -/
def Symbol.plain (s : Symbol) : Symbol := { s with id := 0, members := none }

/-- The scope with its symbols as lookups by name see them. -/
def Scope.plain (scope : Scope) : Scope :=
  { scope with index := scope.index.map Symbol.plain, order := [] }

theorem Symbol.plain_bare (s : Symbol) : s.bare.plain = s.plain := by
  unfold Symbol.bare
  split
  · rfl
  · rfl

theorem Scope.plain_bare (scope : Scope) : scope.bare.plain = scope.plain := by
  have hcomp : Symbol.plain ∘ Symbol.bare = Symbol.plain := funext Symbol.plain_bare
  simp only [Scope.plain, Scope.bare, List.map_map, hcomp]

/-- Scopes that differ only in the members of symbols look the same. -/
theorem map_plain_of_bare {ss ss' : List Scope} (h : ss'.map Scope.bare = ss.map Scope.bare) :
    ss.map Scope.plain = ss'.map Scope.plain := by
  have hcomp : Scope.plain ∘ Scope.bare = Scope.plain := funext Scope.plain_bare
  have hplain := congrArg (List.map Scope.plain) h
  rw [List.map_map, List.map_map, hcomp] at hplain
  exact hplain.symm

theorem Symbol.type_eq_of_plain {s t : Symbol} (h : s.plain = t.plain) : s.type = t.type := by
  show s.plain.type = t.plain.type
  rw [h]

/-- A search for a symbol by a property that has nothing to do with identities. -/
theorem Symbol.find?_plain {p : Symbol → Bool} (hp : ∀ s, p s.plain = p s) (l : List Symbol) :
    (l.find? p).map plain = (l.map plain).find? p := by
  rw [List.find?_map, show p ∘ plain = p from funext hp]

namespace Scope

theorem get_plain (scope : Scope) (name : String) :
    (scope.get name).map Symbol.plain = scope.plain.get name := by
  show _ = (scope.index.map Symbol.plain).filter _
  rw [List.filter_map]
  rfl

theorem find?_plain (scope : Scope) (name : String) (kind : SymbolKind) :
    (scope.find? name kind).map Symbol.plain = scope.plain.find? name kind := by
  rw [find?, Symbol.find?_plain (fun _ => rfl), get_plain]
  rfl

/-- A search through the scopes, of which no more matters than `view`. -/
theorem findSome?_plain {g : Scope → Option α} {view : α → γ}
    (hg : ∀ a b : Scope, a.plain = b.plain → (g a).map view = (g b).map view) {ss ss' : List Scope}
    (h : ss.map plain = ss'.map plain) :
    (ss.findSome? g).map view = (ss'.findSome? g).map view := by
  induction ss generalizing ss' with
  | nil =>
    obtain rfl : ss' = [] := by simpa using h.symm
    rfl
  | cons a ss ih =>
    cases ss' with
    | nil => simp at h
    | cons b ss' =>
      simp only [List.map_cons, List.cons.injEq] at h
      have hhead := hg a b h.1
      rw [List.findSome?_cons, List.findSome?_cons]
      cases ha : g a with
      | some x =>
        rw [ha] at hhead
        obtain ⟨y, hb, hxy⟩ := Option.map_eq_some_iff.mp hhead.symm
        rw [hb, Option.map_some, Option.map_some, hxy]
      | none =>
        rw [ha] at hhead
        rw [Option.map_eq_none_iff.mp hhead.symm]
        exact ih h.2

end Scope

/-! ## Lookups -/

section Lookups

variable {ss ss' : List Scope} (h : ss.map Scope.plain = ss'.map Scope.plain)

include h

theorem SymbolTable.locate?_plain (name : String) (kind : SymbolKind) :
    (locate? ss name kind).map (Symbol.plain ∘ Prod.snd)
      = (locate? ss' name kind).map (Symbol.plain ∘ Prod.snd) := by
  apply Scope.findSome?_plain _ h
  intro a b hab
  rw [Option.map_map, Option.map_map]
  show (a.find? name kind).map Symbol.plain = (b.find? name kind).map Symbol.plain
  rw [Scope.find?_plain, Scope.find?_plain, hab]

theorem Analysis.boundType?_plain (simple : String) :
    Analysis.boundType? ss simple = Analysis.boundType? ss' simple := by
  let bound (scope : Scope) : Option JType :=
    ((scope.find? simple .typeParam).or (scope.find? simple .type)).map Symbol.type
  have hbound : ∀ scope, bound scope = bound scope.plain := by
    intro scope
    show Option.map _ _ = Option.map _ _
    rw [← Scope.find?_plain, ← Scope.find?_plain]
    cases scope.find? simple .typeParam with
    | some s => rfl
    | none =>
      cases scope.find? simple .type with
      | some s => rfl
      | none => rfl
  have hsame : (ss.findSome? bound).map id = (ss'.findSome? bound).map id := by
    apply Scope.findSome?_plain _ h
    intro a b hab
    rw [hbound a, hbound b, hab]
  rw [Option.map_id] at hsame
  exact hsame

theorem filterMap_owner_plain : ss.filterMap Scope.owner = ss'.filterMap Scope.owner := by
  have howner : ∀ l : List Scope, l.filterMap Scope.owner = (l.map Scope.plain).filterMap Scope.owner := by
    intro l
    rw [List.filterMap_map]
    rfl
  rw [howner, h, ← howner]

end Lookups

namespace SymbolTable

/-- A method is found by its name and the erasures of its parameters. -/
theorem locateMethod?_plain {t t' : SymbolTable}
    (h : t.scopes.map Scope.plain = t'.scopes.map Scope.plain) (name : String)
    (params : List JType) :
    (t.locateMethod? name params).map (Symbol.plain ∘ Prod.snd)
      = (t'.locateMethod? name params).map (Symbol.plain ∘ Prod.snd) := by
  apply Scope.findSome?_plain _ h
  intro a b hab
  rw [Option.map_map, Option.map_map]
  show ((a.get name).find? _).map Symbol.plain = ((b.get name).find? _).map Symbol.plain
  rw [Symbol.find?_plain (fun _ => rfl), Symbol.find?_plain (fun _ => rfl), Scope.get_plain,
    Scope.get_plain, hab]

theorem find?_plain {t t' : SymbolTable}
    (h : t.scopes.map Scope.plain = t'.scopes.map Scope.plain) (name : String) (kind : SymbolKind) :
    (t.find? name kind).map Symbol.plain = (t'.find? name kind).map Symbol.plain := by
  have hlocate := locate?_plain h name kind
  rwa [← Option.map_map, ← Option.map_map] at hlocate

theorem eraseOpen_plain {t t' : SymbolTable}
    (h : t.scopes.map Scope.plain = t'.scopes.map Scope.plain) :
    Analysis.eraseOpen t = Analysis.eraseOpen t' := by
  have hvar : Analysis.isOpenVar t = Analysis.isOpenVar t' := by
    funext v
    have hfind := find?_plain h v .typeParam
    unfold Analysis.isOpenVar
    cases ht : t.find? v .typeParam with
    | none =>
      rw [ht] at hfind
      rw [Option.map_eq_none_iff.mp hfind.symm]
    | some s =>
      rw [ht] at hfind
      obtain ⟨s', hs', hplain⟩ := Option.map_eq_some_iff.mp hfind.symm
      rw [hs']
      have htype : s'.type = s.type := Symbol.type_eq_of_plain hplain
      dsimp only
      rw [htype]
  funext type
  rw [Analysis.eraseOpen, Analysis.eraseOpen, hvar]

/-! ## Tables -/

/-- The tables hold the same bindings, and nobody rejects reports. -/
structure Agree (t t' : SymbolTable) : Prop where
  /-- Lookups see the same symbols. -/
  scopes : t.scopes.map Scope.plain = t'.scopes.map Scope.plain
  /-- The next placeholder has the same name. -/
  fresh : t.fresh = t'.fresh
  /-- The first table rejects nothing. -/
  accepts : ∀ log, t.rejects log = false
  /-- The second table rejects nothing. -/
  accepts' : ∀ log, t'.rejects log = false
  /-- The first table is one that operations lead to. -/
  reachable : t.Reachable
  /-- The second table is one that operations lead to. -/
  reachable' : t'.Reachable

theorem Agree.symm {t t' : SymbolTable} (h : t.Agree t') : t'.Agree t :=
  ⟨h.scopes.symm, h.fresh.symm, h.accepts', h.accepts, h.reachable', h.reachable⟩

theorem Agree.trans {t t' t'' : SymbolTable} (h : t.Agree t') (h' : t'.Agree t'') : t.Agree t'' :=
  ⟨h.scopes.trans h'.scopes, h.fresh.trans h'.fresh, h.accepts, h'.accepts', h.reachable,
    h'.reachable'⟩

/-- The operation leads from tables that agree to tables that agree, with results of which `view` is
the same.  It takes back no name of a placeholder. -/
structure Uniform (view : α → γ) (op : TableM α) : Prop where
  /-- What it does to tables that agree. -/
  agree : ∀ t t', t.Agree t' →
    (exec op t).1.map view = (exec op t').1.map view ∧ (exec op t).2.Agree (exec op t').2
  /-- Names of placeholders are used up. -/
  fresh : ∀ t, t.Agree t → t.fresh ≤ (exec op t).2.fresh

/-! ## Reports -/

section Reports

variable {t : SymbolTable} (h : ∀ log, t.rejects log = false)

include h

theorem exec_tell (event : Event) (s : Symbol) (observer : Option String) :
    ∃ log, exec (tell event s observer) t = (.ok (), { t with log }) := by
  cases observer with
  | none => exact ⟨t.log, rfl⟩
  | some observer =>
    refine ⟨{ observer, event, symbol := s } :: t.log, ?_⟩
    rw [tell, exec_bind_ok (exec_modify _ _), exec_bind_ok (exec_get _)]
    simp only [h]
    rfl

theorem exec_dispatch (event : Event) (scope : Scope) (s : Symbol) :
    ∃ log, exec (dispatch event scope s) t = (.ok (), { t with log }) := by
  obtain ⟨log, htable⟩ := exec_tell h event s t.observer
  obtain ⟨log', hscope⟩ := exec_tell (t := { t with log }) h event s scope.observer
  obtain ⟨log'', hsymbol⟩ := exec_tell (t := { t with log := log' }) h event s s.observer
  refine ⟨log'', ?_⟩
  rw [dispatch, exec_bind_ok (exec_get _), exec_bind_ok htable, exec_bind_ok hscope]
  exact hsymbol

theorem exec_dispatchAll (event : Event) (scope : Scope) (symbols : List Symbol) :
    ∃ log, exec (dispatchAll event scope symbols) t = (.ok (), { t with log }) := by
  induction symbols generalizing t with
  | nil => exact ⟨t.log, rfl⟩
  | cons s rest ih =>
    obtain ⟨log, hfirst⟩ := exec_dispatch h event scope s
    obtain ⟨log', hrest⟩ := ih (t := { t with log }) h
    refine ⟨log', ?_⟩
    rw [dispatchAll, exec_bind_ok hfirst]
    exact hrest

theorem exec_observed (event : Event) (found : Option (Scope × Symbol)) :
    ∃ log, exec (observed event found) t = (.ok (found.map Prod.snd), { t with log }) := by
  cases found with
  | none => exact ⟨t.log, rfl⟩
  | some found =>
    obtain ⟨log, hrun⟩ := exec_dispatch h event found.1 found.2
    refine ⟨log, ?_⟩
    rw [observed, exec_bind_ok hrun]
    rfl

end Reports

/-! ## Scopes -/

theorem uniform_pushScope (kind : ScopeKind) (observer : Option String) :
    Uniform id (pushScope kind observer) := by
  refine ⟨?_, fun t _ => Nat.le_refl _⟩
  intro t t' h
  refine ⟨rfl, ?_, h.fresh, h.accepts, h.accepts', h.reachable.pushScope kind observer,
    h.reachable'.pushScope kind observer⟩
  show _ :: t.scopes.map Scope.plain = _ :: t'.scopes.map Scope.plain
  rw [h.scopes]

theorem uniform_pushClassScope (owner : String) (observer : Option String) :
    Uniform id (pushClassScope owner observer) := by
  refine ⟨?_, fun t _ => Nat.le_refl _⟩
  intro t t' h
  refine ⟨rfl, ?_, h.fresh, h.accepts, h.accepts', h.reachable.pushClassScope owner observer,
    h.reachable'.pushClassScope owner observer⟩
  show _ :: t.scopes.map Scope.plain = _ :: t'.scopes.map Scope.plain
  rw [h.scopes]

theorem exec_popScope_nil {t : SymbolTable} (h : t.scopes = []) :
    exec popScope t = (.error (.unbalancedScope .nothingToPop), t) := by
  rw [popScope, exec_bind_ok (exec_get _), h]
  rfl

theorem exec_popScope_cons {t : SymbolTable} (haccepts : ∀ log, t.rejects log = false) {scope : Scope}
    {rest : List Scope} (h : t.scopes = scope :: rest) :
    ∃ log, exec popScope t = (.ok scope, { t with scopes := rest, log }) := by
  obtain ⟨log, hrun⟩ := exec_dispatchAll (t := { t with scopes := rest }) haccepts .pop scope scope.order
  refine ⟨log, ?_⟩
  rw [popScope, exec_bind_ok (exec_get _), h]
  dsimp only
  rw [exec_bind_ok (exec_modify _ _), exec_bind_ok hrun]
  rfl

theorem uniform_popScope : Uniform Scope.plain popScope := by
  refine ⟨?_, ?_⟩
  · intro t t' h
    have hreach := h.reachable.popScope
    have hreach' := h.reachable'.popScope
    cases hscopes : t.scopes with
    | nil =>
      have hscopes' : t'.scopes = [] := by simpa [hscopes] using h.scopes.symm
      rw [exec_popScope_nil hscopes, exec_popScope_nil hscopes']
      exact ⟨rfl, h⟩
    | cons scope rest =>
      obtain ⟨scope', rest', hscopes', hscope, hrest⟩ : ∃ scope' rest', t'.scopes = scope' :: rest' ∧
          scope'.plain = scope.plain ∧ rest'.map Scope.plain = rest.map Scope.plain := by
        have hsame := h.scopes.symm
        rw [hscopes, List.map_cons] at hsame
        exact List.map_eq_cons_iff.mp hsame
      obtain ⟨log, hrun⟩ := exec_popScope_cons h.accepts hscopes
      obtain ⟨log', hrun'⟩ := exec_popScope_cons h.accepts' hscopes'
      rw [hrun] at hreach
      rw [hrun'] at hreach'
      rw [hrun, hrun']
      exact ⟨congrArg Except.ok hscope.symm, hrest.symm, h.fresh, h.accepts, h.accepts', hreach, hreach'⟩
  · intro t h
    cases hscopes : t.scopes with
    | nil => exact Nat.le_of_eq (by rw [exec_popScope_nil hscopes])
    | cons scope rest =>
      obtain ⟨log, hrun⟩ := exec_popScope_cons h.accepts hscopes
      exact Nat.le_of_eq (by rw [hrun])

/-! ## Lookups that are reported -/

theorem uniform_observed (event : Event) (found : SymbolTable → Option (Scope × Symbol))
    (hfound : ∀ t t' : SymbolTable, t.scopes.map Scope.plain = t'.scopes.map Scope.plain →
      (found t).map (Symbol.plain ∘ Prod.snd) = (found t').map (Symbol.plain ∘ Prod.snd)) :
    Uniform (Option.map Symbol.plain) (do observed event (found (← get))) := by
  refine ⟨?_, ?_⟩
  · intro t t' h
    obtain ⟨log, hrun⟩ := exec_observed h.accepts event (found t)
    obtain ⟨log', hrun'⟩ := exec_observed h.accepts' event (found t')
    have hreach := h.reachable.observed event (found t)
    have hreach' := h.reachable'.observed event (found t')
    rw [hrun] at hreach
    rw [hrun'] at hreach'
    rw [exec_bind_ok (exec_get _), exec_bind_ok (exec_get _), hrun, hrun']
    refine ⟨?_, h.scopes, h.fresh, h.accepts, h.accepts', hreach, hreach'⟩
    show Except.ok (Option.map _ (Option.map _ _)) = Except.ok (Option.map _ (Option.map _ _))
    rw [Option.map_map, Option.map_map, hfound t t' h.scopes]
  · intro t h
    obtain ⟨log, hrun⟩ := exec_observed h.accepts event (found t)
    exact Nat.le_of_eq (by rw [exec_bind_ok (exec_get _), hrun])

theorem uniform_lookupForRead (name : String) (kind : SymbolKind) :
    Uniform (Option.map Symbol.plain) (lookupForRead name kind) :=
  uniform_observed .read (fun t => locate? t.scopes name kind) fun _ _ h => locate?_plain h name kind

theorem uniform_lookupForWrite (name : String) (kind : SymbolKind) :
    Uniform (Option.map Symbol.plain) (lookupForWrite name kind) :=
  uniform_observed .write (fun t => locate? t.scopes name kind) fun _ _ h => locate?_plain h name kind

theorem uniform_lookupMethodForRead (name : String) (params : List JType) :
    Uniform (Option.map Symbol.plain) (lookupMethodForRead name params) :=
  uniform_observed .read (fun t => t.locateMethod? name params) fun _ _ h =>
    locateMethod?_plain h name params

/-! ## Binding -/

/-- Taking a symbol out by its identity takes out the first one that is bound alike. -/
theorem filter_id_eq_eraseP {l : List Symbol} (hnodup : (l.map Symbol.id).Nodup) {p : Symbol → Bool}
    {old : Symbol} (hold : l.find? p = some old) :
    l.filter (fun s => s.id != old.id) = l.eraseP p := by
  induction l with
  | nil => cases hold
  | cons s l ih =>
    obtain ⟨hs, hnodup⟩ := List.nodup_cons.mp hnodup
    rw [List.find?_cons] at hold
    cases hp : p s with
    | true =>
      rw [hp] at hold
      obtain rfl : s = old := by simpa using hold
      have hothers : ∀ r ∈ l, (r.id != s.id) = true := by
        intro r hr
        have hne : r.id ≠ s.id := fun heq => hs (heq ▸ List.mem_map_of_mem hr)
        simpa using hne
      rw [List.filter_cons, if_neg (by simp), List.eraseP_cons_of_pos hp, List.filter_eq_self.mpr hothers]
    | false =>
      rw [hp] at hold
      have hne : s.id ≠ old.id := by
        intro heq
        exact hs (heq ▸ List.mem_map_of_mem (List.mem_of_find?_eq_some hold))
      rw [List.filter_cons, if_pos (by simpa using hne), List.eraseP_cons_of_neg (by simp [hp]),
        ih hnodup hold]

/-- The symbol of the scope that a new one would hide. -/
def hidden? (scope : Scope) (s : Symbol) : Option Symbol :=
  (scope.get s.name).find? fun old => old.sameBinding s

theorem hidden?_eq (scope : Scope) (s : Symbol) :
    hidden? scope s = scope.index.find? fun old => old.sameBinding s := by
  have hname : ∀ old : Symbol, old.sameBinding s = true → (old.name == s.name) = true := by
    intro old hsame
    simp only [Symbol.sameBinding, Bool.and_eq_true] at hsame
    exact hsame.1.1
  rw [hidden?, Scope.get, List.find?_filter]
  congr 1
  funext old
  cases hsame : old.sameBinding s with
  | true => simp [hname old hsame]
  | false => simp

theorem hidden?_plain (scope : Scope) (s : Symbol) :
    (hidden? scope s).map Symbol.plain = hidden? scope.plain s := by
  rw [hidden?_eq, hidden?_eq]
  exact Symbol.find?_plain (fun _ => rfl) _

/-- The placeholder of a symbol that is hidden next. -/
def nextPlaceholder (t : SymbolTable) (old : Symbol) : Symbol :=
  old.placeholder t.nextId (old.name ++ "#" ++ toString (t.fresh + 1))

section Push

variable {t : SymbolTable} {scope : Scope} {rest : List Scope} {s : Symbol}
  (haccepts : ∀ log, t.rejects log = false) (hresolved : s.type.unresolved = false)
  (hscopes : t.scopes = scope :: rest)

include haccepts hresolved hscopes

/-- A symbol that hides none is added to the innermost scope. -/
theorem exec_pushSymbol_new (hhidden : hidden? scope s = none) :
    ∃ log, exec (pushSymbol s) t = (.ok { s with id := t.nextId },
      { t with
        scopes := scope.insert { s with id := t.nextId } :: rest
        nextId := t.nextId + 1
        log }) := by
  let pushed : SymbolTable :=
    { t with scopes := scope.insert { s with id := t.nextId } :: rest, nextId := t.nextId + 1 }
  obtain ⟨log, hrun⟩ := exec_dispatch (t := pushed) haccepts .push
    (scope.insert { s with id := t.nextId }) { s with id := t.nextId }
  refine ⟨log, ?_⟩
  have hshadow : exec (shadow scope s) t = (.ok (scope, none), t) := by
    rw [shadow, show List.find? _ _ = none from hhidden]
    rfl
  rw [pushSymbol, hresolved]
  simp only [Bool.false_eq_true, if_false]
  rw [exec_bind_ok (exec_get _), hscopes]
  dsimp only
  rw [exec_bind_ok hshadow, exec_bind_ok (exec_freshId _), exec_bind_ok (exec_setInnermost _ _)]
  dsimp only
  rw [hscopes, List.drop_succ_cons, List.drop_zero, exec_bind_ok hrun]
  rfl

/-- A symbol that hides another one takes its place, and the other one is kept as a placeholder. -/
theorem exec_pushSymbol_hiding {old : Symbol} (hhidden : hidden? scope s = some old) :
    ∃ log, exec (pushSymbol s) t = (.ok { s with id := t.nextId + 1 },
      { t with
        scopes := (scope.substitute old (t.nextPlaceholder old)).insert { s with id := t.nextId + 1 }
          :: rest
        fresh := t.fresh + 1
        nextId := t.nextId + 1 + 1
        log }) := by
  let grown := (scope.substitute old (t.nextPlaceholder old)).insert { s with id := t.nextId + 1 }
  let pushed : SymbolTable :=
    { t with scopes := grown :: rest, fresh := t.fresh + 1, nextId := t.nextId + 1 + 1 }
  obtain ⟨log, hrun⟩ := exec_dispatch (t := pushed) haccepts .push grown (t.nextPlaceholder old)
  obtain ⟨log', hrun'⟩ := exec_dispatch (t := { pushed with log }) haccepts .push grown
    { s with id := t.nextId + 1 }
  refine ⟨log', ?_⟩
  have hshadow : exec (shadow scope s) t =
      (.ok (scope.substitute old (t.nextPlaceholder old), some (t.nextPlaceholder old)),
        { t with fresh := t.fresh + 1, nextId := t.nextId + 1 }) := by
    rw [shadow, show List.find? _ _ = some old from hhidden]
    rfl
  rw [pushSymbol, hresolved]
  simp only [Bool.false_eq_true, if_false]
  rw [exec_bind_ok (exec_get _), hscopes]
  dsimp only
  rw [exec_bind_ok hshadow, exec_bind_ok (exec_freshId _), exec_bind_ok (exec_setInnermost _ _)]
  dsimp only
  rw [hscopes, List.drop_succ_cons, List.drop_zero, exec_bind_ok hrun, exec_bind_ok hrun']
  rfl

end Push

theorem plain_insert (scope : Scope) (s : Symbol) :
    (scope.insert s).plain = { scope.plain with index := scope.plain.index ++ [s.plain] } := by
  simp [Scope.insert, Scope.plain]

theorem plain_substitute {scope : Scope} {n : Nat} (hsound : scope.Sound n) {s old new : Symbol}
    (hhidden : hidden? scope s = some old) :
    (scope.substitute old new).plain =
      { scope.plain with
        index := (scope.plain.index.eraseP fun r => r.sameBinding s) ++ [new.plain] } := by
  have hnodup : (scope.index.map Symbol.id).Nodup :=
    ((hsound.perm.map Symbol.id).nodup_iff).mpr hsound.nodup
  rw [hidden?_eq] at hhidden
  simp only [Scope.substitute, Scope.plain, filter_id_eq_eraseP hnodup hhidden, List.map_append,
    List.eraseP_map]
  rfl

theorem exec_pushSymbol_unresolved {s : Symbol} (h : s.type.unresolved = true) (t : SymbolTable) :
    exec (pushSymbol s) t = (.error (.malformedSymbol s.name), t) := by
  rw [pushSymbol, h]
  rfl

theorem exec_pushSymbol_nil {s : Symbol} (hresolved : s.type.unresolved = false) {t : SymbolTable}
    (h : t.scopes = []) : exec (pushSymbol s) t = (.error (.unbalancedScope .noScope), t) := by
  rw [pushSymbol, hresolved]
  simp only [Bool.false_eq_true, if_false]
  rw [exec_bind_ok (exec_get _), h]
  rfl

theorem Agree.pushSymbol {t t' : SymbolTable} (h : t.Agree t') (s : Symbol) :
    (exec (pushSymbol s) t).1.map Symbol.plain = (exec (pushSymbol s) t').1.map Symbol.plain ∧
      (exec (pushSymbol s) t).2.Agree (exec (pushSymbol s) t').2 := by
  have hreach := h.reachable.pushSymbol s
  have hreach' := h.reachable'.pushSymbol s
  cases hresolved : s.type.unresolved with
  | true =>
    rw [exec_pushSymbol_unresolved hresolved, exec_pushSymbol_unresolved hresolved]
    exact ⟨rfl, h⟩
  | false =>
    cases hscopes : t.scopes with
    | nil =>
      have hscopes' : t'.scopes = [] := by simpa [hscopes] using h.scopes.symm
      rw [exec_pushSymbol_nil hresolved hscopes, exec_pushSymbol_nil hresolved hscopes']
      exact ⟨rfl, h⟩
    | cons scope rest =>
      obtain ⟨scope', rest', hscopes', hscope, hrest⟩ : ∃ scope' rest', t'.scopes = scope' :: rest' ∧
          scope'.plain = scope.plain ∧ rest'.map Scope.plain = rest.map Scope.plain := by
        have hsame := h.scopes.symm
        rw [hscopes, List.map_cons] at hsame
        exact List.map_eq_cons_iff.mp hsame
      have hhidden' : (hidden? scope' s).map Symbol.plain = (hidden? scope s).map Symbol.plain := by
        rw [hidden?_plain, hidden?_plain, hscope]
      cases hhidden : hidden? scope s with
      | none =>
        rw [hhidden] at hhidden'
        obtain ⟨log, hrun⟩ := exec_pushSymbol_new h.accepts hresolved hscopes hhidden
        obtain ⟨log', hrun'⟩ := exec_pushSymbol_new h.accepts' hresolved hscopes'
          (Option.map_eq_none_iff.mp hhidden')
        rw [hrun] at hreach
        rw [hrun'] at hreach'
        rw [hrun, hrun']
        refine ⟨rfl, ?_, h.fresh, h.accepts, h.accepts', hreach, hreach'⟩
        simp only [List.map_cons, plain_insert, hscope, hrest]
        rfl
      | some old =>
        rw [hhidden] at hhidden'
        obtain ⟨old', hold', hplain⟩ := Option.map_eq_some_iff.mp hhidden'
        obtain ⟨log, hrun⟩ := exec_pushSymbol_hiding h.accepts hresolved hscopes hhidden
        obtain ⟨log', hrun'⟩ := exec_pushSymbol_hiding h.accepts' hresolved hscopes' hold'
        have hsound := h.reachable.sound.scopes scope (by simp [hscopes])
        have hsound' := h.reachable'.sound.scopes scope' (by simp [hscopes'])
        have hplaceholder : (t'.nextPlaceholder old').plain = (t.nextPlaceholder old).plain := by
          have hname : ∀ (t : SymbolTable) (old : Symbol), (t.nextPlaceholder old).plain =
              { old.plain with
                name := old.plain.name ++ "#" ++ toString (t.fresh + 1)
                shadows := some old.plain.name } := fun _ _ => rfl
          rw [hname, hname, hplain, h.fresh]
        rw [hrun] at hreach
        rw [hrun'] at hreach'
        rw [hrun, hrun']
        refine ⟨rfl, ?_, congrArg (· + 1) h.fresh, h.accepts, h.accepts', hreach, hreach'⟩
        simp only [List.map_cons, plain_insert, plain_substitute hsound hhidden,
          plain_substitute hsound' hold', hscope, hrest, hplaceholder]
        rfl

theorem uniform_pushSymbol (s : Symbol) : Uniform Symbol.plain (pushSymbol s) := by
  refine ⟨fun t t' h => h.pushSymbol s, ?_⟩
  intro t h
  cases hresolved : s.type.unresolved with
  | true => exact Nat.le_of_eq (by rw [exec_pushSymbol_unresolved hresolved])
  | false =>
    cases hscopes : t.scopes with
    | nil => exact Nat.le_of_eq (by rw [exec_pushSymbol_nil hresolved hscopes])
    | cons scope rest =>
      cases hhidden : hidden? scope s with
      | none =>
        obtain ⟨log, hrun⟩ := exec_pushSymbol_new h.accepts hresolved hscopes hhidden
        exact Nat.le_of_eq (by rw [hrun])
      | some old =>
        obtain ⟨log, hrun⟩ := exec_pushSymbol_hiding h.accepts hresolved hscopes hhidden
        rw [hrun]
        exact Nat.le_succ _

/-! ## Members -/

/-- The table after the type of that name, if it is the owner of the scope, got its members. -/
def withMembers (t : SymbolTable) (name : String) (members : Scope) : SymbolTable :=
  match t.find? name .type with
  | some s => if some s.type.name = members.owner then t.attachMembers s.id members else t
  | none => t

theorem fresh_withMembers (t : SymbolTable) (name : String) (members : Scope) :
    (t.withMembers name members).fresh = t.fresh := by
  unfold withMembers
  split
  · split
    · rfl
    · rfl
  · rfl

/-- Members make no difference to lookups. -/
theorem plain_attachMembers (t : SymbolTable) (id : Nat) (members : Scope) :
    (t.attachMembers id members).scopes.map Scope.plain = t.scopes.map Scope.plain := by
  have hsymbol : ∀ s : Symbol, (attached id members s).plain = s.plain := by
    intro s
    unfold attached
    split
    · rfl
    · rfl
  simp [attachMembers_scopes, Scope.plain, hsymbol]

/-- A type gets its members in both tables or in neither. -/
theorem Agree.withMembers {t t' : SymbolTable} (h : t.Agree t') (name : String) {m m' : Scope}
    (howner : m.owner = m'.owner) : (t.withMembers name m).Agree (t'.withMembers name m') := by
  have hfind := find?_plain h.scopes name .type
  unfold SymbolTable.withMembers
  cases ht : t.find? name .type with
  | none =>
    rw [ht] at hfind
    rw [Option.map_eq_none_iff.mp hfind.symm]
    exact h
  | some s =>
    rw [ht] at hfind
    obtain ⟨s', hs', hplain⟩ := Option.map_eq_some_iff.mp hfind.symm
    have htype : s'.type = s.type := Symbol.type_eq_of_plain hplain
    rw [hs']
    dsimp only
    rw [htype, howner]
    split
    · refine ⟨?_, h.fresh, h.accepts, h.accepts', h.reachable.attachMembers name s ht m,
        h.reachable'.attachMembers name s' hs' m'⟩
      rw [plain_attachMembers, plain_attachMembers, h.scopes]
    · exact h

/-! ## Sequences of operations -/

namespace Uniform

variable {view : α → γ} {op : TableM α}

/-- A result that is looked at in no other way may be passed on. -/
theorem bind (hop : Uniform view op) {k : α → TableM β} {view' : β → δ}
    (hsame : ∀ a a', view a = view a' → k a = k a') (hk : ∀ a, Uniform view' (k a)) :
    Uniform view' (op >>= k) := by
  have hfirst : ∀ {t t' : SymbolTable}, t.Agree t' →
      (∃ e s s', exec op t = (.error e, s) ∧ exec op t' = (.error e, s') ∧ s.Agree s') ∨
        ∃ a a' s s', exec op t = (.ok a, s) ∧ exec op t' = (.ok a', s') ∧ view a = view a' ∧
          s.Agree s' := by
    intro t t' h
    obtain ⟨hresult, hagree⟩ := hop.agree t t' h
    rcases hrun : exec op t with ⟨e | a, s⟩ <;> rcases hrun' : exec op t' with ⟨e' | a', s'⟩ <;>
      rw [hrun, hrun'] at hresult hagree
    · cases hresult
      exact .inl ⟨e, s, s', rfl, rfl, hagree⟩
    · cases hresult
    · cases hresult
    · exact .inr ⟨a, a', s, s', rfl, rfl, Except.ok.inj hresult, hagree⟩
  refine ⟨?_, ?_⟩
  · intro t t' h
    rcases hfirst h with ⟨e, s, s', hrun, hrun', hagree⟩ | ⟨a, a', s, s', hrun, hrun', hview, hagree⟩
    · rw [exec_bind_error hrun, exec_bind_error hrun']
      exact ⟨rfl, hagree⟩
    · rw [exec_bind_ok hrun, exec_bind_ok hrun', ← hsame a a' hview]
      exact (hk a).agree s s' hagree
  · intro t h
    have hle := hop.fresh t h
    rcases hfirst h with ⟨e, s, s', hrun, -, -⟩ | ⟨a, a', s, s', hrun, hrun', -, hagree⟩
    · rw [hrun] at hle
      rw [exec_bind_error hrun]
      exact hle
    · obtain rfl : s' = s := by
        rw [hrun] at hrun'
        cases hrun'
        rfl
      rw [hrun] at hle
      rw [exec_bind_ok hrun]
      exact Nat.le_trans hle ((hk a).fresh s' hagree)

theorem pure (a : α) : Uniform view (Pure.pure a) := ⟨fun _ _ h => ⟨rfl, h⟩, fun _ _ => Nat.le_refl _⟩

theorem discard (hop : Uniform view op) : Uniform id (Functor.discard op) := by
  show Uniform id ((fun _ => PUnit.unit) <$> op)
  rw [map_eq_pure_bind]
  exact hop.bind (fun _ _ _ => rfl) fun _ => pure _

theorem forM (l : List β) {f : β → TableM PUnit} (hf : ∀ b, Uniform id (f b)) :
    Uniform id (l.forM f) := by
  induction l with
  | nil => exact pure _
  | cons b l ih => exact (hf b).bind (fun _ _ _ => rfl) fun _ => ih

theorem bindSymbol (s : Symbol) : Uniform id (Analysis.bindSymbol s) := (uniform_pushSymbol s).discard

theorem bindTypeParams (params : List TypeParam) : Uniform id (Analysis.bindTypeParams params) :=
  forM _ fun _ => bindSymbol _

end Uniform

end SymbolTable

end JavaSema
