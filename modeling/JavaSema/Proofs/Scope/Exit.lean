import JavaSema.Proofs.Scope.Bracket
import JavaSema.Proofs.Scope.Representation

/-!
# What is told when a scope is left

Leaving a scope tells of each symbol that was bound in it, once and in the order of binding.  A symbol
that was bound again in the meantime is told of by its placeholder.

There are three groups.

* Placeholders.  `Symbol.StandsFor` says what a symbol of a scope is to one that was bound there.
* Slots.  `Tracks` ties the symbols that were bound to the places of the scope.  `Tracks.step` is the
  step, where one place changes hands and one is added, and `Run.tracks` the run.
* Reports.  `Tells` says which reports an operation makes, and `popScope_tells_each_bound_symbol` puts
  both together.
-/

namespace JavaSema

/-! ## Placeholders -/

namespace Symbol

@[simp] theorem type_bare (s : Symbol) : s.bare.type = s.type := by
  unfold bare
  split <;> rfl

@[simp] theorem params_bare (s : Symbol) : s.bare.params = s.params := by
  unfold bare
  split <;> rfl

@[simp] theorem location_bare (s : Symbol) : s.bare.location = s.location := by
  unfold bare
  split <;> rfl

@[simp] theorem observer_bare (s : Symbol) : s.bare.observer = s.observer := by
  unfold bare
  split <;> rfl

@[simp] theorem shadows_bare (s : Symbol) : s.bare.shadows = s.shadows := by
  unfold bare
  split <;> rfl

/-- Members have nothing to do with how a symbol is bound. -/
theorem sameBinding_of_bare {r s : Symbol} (h : r.bare = s.bare) (u : Symbol) :
    r.sameBinding u = s.sameBinding u := by
  have hbare : ∀ r : Symbol, r.bare.sameBinding u = r.sameBinding u := by
    intro r
    unfold bare
    split <;> rfl
  rw [← hbare r, h, hbare s]

/-- The symbol is a placeholder of `s` that hides it under the name that it had, followed by
`suffix`. -/
def Replaces (u s : Symbol) (suffix : String) : Prop :=
  ∃ id k, u.bare = { s.bare with
    id
    name := s.name ++ suffix ++ "#" ++ toString (k : Nat)
    shadows := some (s.name ++ suffix) }

/-- What a symbol of a scope is to one that was bound there: it is that symbol, members apart, or a
placeholder of it.  The suffix is there where a placeholder was hidden in its turn. -/
def StandsFor (u s : Symbol) : Prop := u.bare = s.bare ∨ ∃ suffix, u.Replaces s suffix

theorem Replaces.name {u s : Symbol} {suffix : String} (h : u.Replaces s suffix) :
    ∃ k : Nat, u.name = s.name ++ suffix ++ "#" ++ toString k := by
  obtain ⟨id, k, hbare⟩ := h
  exact ⟨k, by rw [← name_bare, hbare]⟩

theorem Replaces.shadows {u s : Symbol} {suffix : String} (h : u.Replaces s suffix) :
    u.shadows = some (s.name ++ suffix) := by
  obtain ⟨id, k, hbare⟩ := h
  rw [← shadows_bare, hbare]

/-- A placeholder has no plain name. -/
theorem Replaces.not_isPlain {u s : Symbol} {suffix : String} (h : u.Replaces s suffix) :
    ¬ IsPlain u.name := by
  obtain ⟨k, hname⟩ := h.name
  rw [hname]
  exact not_isPlain_numbered _ k

/-- The placeholder of a symbol itself needs no suffix. -/
theorem replaces_placeholder {u s : Symbol} (h : u.bare = s.bare) (id k : Nat) :
    (u.placeholder id (u.name ++ "#" ++ toString k)).Replaces s "" := by
  have hname : u.name = s.name := (named_of_bare h).1
  exact ⟨id, k, by rw [bare_placeholder, h, hname, String.append_empty]⟩

/-- The placeholder of what stands for a symbol stands for the symbol. -/
theorem StandsFor.placeholder {u s : Symbol} (h : u.StandsFor s) (id k : Nat) :
    (u.placeholder id (u.name ++ "#" ++ toString k)).StandsFor s := by
  rcases h with h | ⟨suffix, h⟩
  · exact .inr ⟨"", replaces_placeholder h id k⟩
  · obtain ⟨m, hname⟩ := h.name
    obtain ⟨id', k', hbare⟩ := h
    refine .inr ⟨suffix ++ "#" ++ toString m, id, k, ?_⟩
    rw [bare_placeholder, hbare, hname]
    simp only [String.append_assoc]

/-- A placeholder keeps all that does not tell it apart. -/
theorem StandsFor.fields {u s : Symbol} (h : u.StandsFor s) :
    u.type = s.type ∧ u.kind = s.kind ∧ u.params = s.params ∧ u.location = s.location ∧
      u.observer = s.observer := by
  rw [← type_bare u, ← kind_bare u, ← params_bare u, ← location_bare u, ← observer_bare u]
  rcases h with h | ⟨suffix, id, k, h⟩
  · simp [h]
  · simp [h]

end Symbol

theorem Scope.length_replaceIn (id : Nat) (new : Symbol) (l : List Symbol) :
    (replaceIn id new l).length = l.length := by
  induction l with
  | nil => rfl
  | cons s l ih =>
    rw [replaceIn]
    split <;> simp [ih]

namespace SymbolTable

/-! ## Slots -/

/-- Whether a symbol that was bound after the `i`th one is bound like `s`. -/
def Rebound (bound : List Symbol) (i : Nat) (s : Symbol) : Prop :=
  ∃ j r, i < j ∧ bound[j]? = some r ∧ s.sameBinding r = true

theorem rebound_append {bound : List Symbol} {i : Nat} {s r : Symbol} (hi : i < bound.length) :
    Rebound (bound ++ [r]) i s ↔ Rebound bound i s ∨ s.sameBinding r = true := by
  constructor
  · rintro ⟨j, u, hij, hj, hsame⟩
    rw [List.getElem?_append] at hj
    split at hj
    · exact .inl ⟨j, u, hij, hj, hsame⟩
    · have hu : u = r := by
        have := List.mem_of_getElem? hj
        simpa using this
      exact .inr (hu ▸ hsame)
  · rintro (⟨j, u, hij, hj, hsame⟩ | hsame)
    · obtain ⟨hlt, -⟩ := List.getElem?_eq_some_iff.mp hj
      exact ⟨j, u, hij, by rw [List.getElem?_append_left hlt, hj], hsame⟩
    · exact ⟨bound.length, r, hi, by simp, hsame⟩

/-- The places of the scope in their order are those of the symbols that were bound in it. -/
structure Tracks (bound : List Symbol) (scope : Scope) : Prop where
  /-- There is a place for each symbol. -/
  length : scope.order.length = bound.length
  /-- What is there stands for the symbol. -/
  stands : ∀ (i : Nat) (s u : Symbol), bound[i]? = some s → scope.order[i]? = some u → u.StandsFor s
  /-- Where names are plain, it is a placeholder exactly if the symbol was bound again. -/
  exact : (∀ s ∈ bound, IsPlain s.name) → ∀ (i : Nat) (s u : Symbol), bound[i]? = some s →
    scope.order[i]? = some u →
    (Rebound bound i s → u.Replaces s "") ∧ (¬ Rebound bound i s → u.bare = s.bare)

theorem tracks_empty (kind : ScopeKind) (owner observer : Option String) :
    Tracks [] { kind, owner, observer } :=
  ⟨rfl, fun _ _ _ h => by simp at h, fun _ _ _ _ h => by simp at h⟩

theorem Tracks.exists_place {bound : List Symbol} {scope : Scope} (h : Tracks bound scope) {i : Nat}
    (hi : i < bound.length) : ∃ u, scope.order[i]? = some u := by
  rw [← h.length] at hi
  exact ⟨_, List.getElem?_eq_getElem hi⟩

/-- Members have nothing to do with places. -/
theorem Tracks.of_bare {bound : List Symbol} {a b : Scope} (h : Tracks bound a)
    (hbare : b.bare = a.bare) : Tracks bound b := by
  have horder : b.order.map Symbol.bare = a.order.map Symbol.bare := by
    simpa [Scope.bare] using congrArg Scope.order hbare
  have hplace : ∀ (i : Nat) (u : Symbol), b.order[i]? = some u →
      ∃ v, a.order[i]? = some v ∧ u.bare = v.bare := by
    intro i u hu
    have hget := congrArg (fun l => l[i]?) horder
    simp only [List.getElem?_map, hu, Option.map_some] at hget
    obtain ⟨v, hv, hvu⟩ := Option.map_eq_some_iff.mp hget.symm
    exact ⟨v, hv, hvu.symm⟩
  refine ⟨?_, ?_, ?_⟩
  · simpa [h.length] using congrArg List.length horder
  · intro i s u hs hu
    obtain ⟨v, hv, huv⟩ := hplace i u hu
    simpa [Symbol.StandsFor, Symbol.Replaces, huv] using h.stands i s v hs hv
  · intro hplain i s u hs hu
    obtain ⟨v, hv, huv⟩ := hplace i u hu
    simpa [Symbol.Replaces, huv] using h.exact hplain i s v hs hv

/-- In a scope that tracks plain names, the symbol at a place is the one that is hidden next if it is
bound alike and was not bound again. -/
theorem Tracks.not_rebound_of_hidden {bound : List Symbol} {scope : Scope} (h : Tracks bound scope)
    (hplain : ∀ s ∈ bound, IsPlain s.name) {s : Symbol} (hs : IsPlain s.name) {i : Nat}
    {x u : Symbol} (hx : bound[i]? = some x) (hu : scope.order[i]? = some u)
    (hsame : u.sameBinding s = true) : ¬ Rebound bound i x ∧ u.bare = x.bare := by
  have hname : u.name = s.name := ((Symbol.sameBinding_iff _ _).mp hsame).1
  obtain ⟨hlater, hnow⟩ := h.exact hplain i x u hx hu
  have hnot : ¬ Rebound bound i x := fun hreb => (hlater hreb).not_isPlain (hname ▸ hs)
  exact ⟨hnot, hnow hnot⟩

/-- In a scope that tracks plain names only one symbol is bound like another one. -/
theorem Tracks.hidden?_eq_some {bound : List Symbol} {scope : Scope} (h : Tracks bound scope)
    (hperm : scope.index.Perm scope.order) (hplain : ∀ s ∈ bound, IsPlain s.name) {s : Symbol}
    (hs : IsPlain s.name) {i : Nat} {u : Symbol} (hu : scope.order[i]? = some u)
    (hsame : u.sameBinding s = true) : hidden? scope s = some u := by
  rw [hidden?_eq]
  cases hfind : scope.index.find? fun r => r.sameBinding s with
  | none =>
    have hnone := List.find?_eq_none.mp hfind u (hperm.mem_iff.mpr (List.mem_of_getElem? hu))
    exact absurd hsame hnone
  | some old =>
    have hold : old.sameBinding s = true := by simpa using List.find?_some hfind
    obtain ⟨p, hp⟩ := List.mem_iff_getElem?.mp (hperm.mem_iff.mp (List.mem_of_find?_eq_some hfind))
    have hbound : ∀ {j : Nat} {r : Symbol}, scope.order[j]? = some r → ∃ y, bound[j]? = some y := by
      intro j r hr
      obtain ⟨hj, -⟩ := List.getElem?_eq_some_iff.mp hr
      rw [h.length] at hj
      exact ⟨_, List.getElem?_eq_getElem hj⟩
    obtain ⟨x, hx⟩ := hbound hu
    obtain ⟨y, hy⟩ := hbound hp
    obtain ⟨hnotx, hux⟩ := h.not_rebound_of_hidden hplain hs hx hu hsame
    obtain ⟨hnoty, hpy⟩ := h.not_rebound_of_hidden hplain hs hy hp hold
    rw [Symbol.sameBinding_of_bare hux] at hsame
    rw [Symbol.sameBinding_of_bare hpy] at hold
    rcases Nat.lt_trichotomy i p with hip | rfl | hpi
    · exact absurd ⟨p, y, hip, hy, Symbol.sameBinding_trans hsame (Symbol.sameBinding_symm hold)⟩
        hnotx
    · rw [← hp, hu]
    · exact absurd ⟨i, x, hpi, hx, Symbol.sameBinding_trans hold (Symbol.sameBinding_symm hsame)⟩
        hnoty

/-- One step: a symbol is added after the last place, and one that it hides gives way to a
placeholder. -/
theorem Tracks.step {bound : List Symbol} {scope scope' : Scope} (h : Tracks bound scope)
    (hperm : scope.index.Perm scope.order) {s : Symbol} {id : Nat}
    (hlength : scope'.order.length = scope.order.length + 1)
    (hlast : scope'.order[scope.order.length]? = some { s with id })
    (hplace : ∀ (i : Nat) (u : Symbol), scope.order[i]? = some u →
      (hidden? scope s = some u ∧ ∃ id k,
        scope'.order[i]? = some (u.placeholder id (u.name ++ "#" ++ toString (k : Nat)))) ∨
      (hidden? scope s ≠ some u ∧ scope'.order[i]? = some u)) :
    Tracks (bound ++ [{ s with id }]) scope' := by
  have hcases : ∀ (i : Nat) (x u' : Symbol), (bound ++ [{ s with id }])[i]? = some x →
      scope'.order[i]? = some u' →
      (i = bound.length ∧ x = { s with id } ∧ u' = { s with id }) ∨
        (i < bound.length ∧ bound[i]? = some x ∧ ∃ u, scope.order[i]? = some u) := by
    intro i x u' hx hu'
    obtain ⟨hi, -⟩ := List.getElem?_eq_some_iff.mp hx
    rw [List.length_append, List.length_singleton] at hi
    rcases Nat.lt_succ_iff_lt_or_eq.mp hi with hi | rfl
    · rw [List.getElem?_append_left hi] at hx
      exact .inr ⟨hi, hx, h.exists_place hi⟩
    · rw [← h.length, hlast] at hu'
      simp at hx
      exact .inl ⟨rfl, hx.symm, by simpa using hu'.symm⟩
  refine ⟨?_, ?_, ?_⟩
  · rw [hlength, h.length, List.length_append, List.length_singleton]
  · intro i x u' hx hu'
    rcases hcases i x u' hx hu' with ⟨-, rfl, rfl⟩ | ⟨hi, hx, u, hu⟩
    · exact .inl rfl
    · have hstands := h.stands i x u hx hu
      rcases hplace i u hu with ⟨-, id', k, hnew⟩ | ⟨-, hnew⟩
      · obtain rfl := Option.some.inj (hu'.symm.trans hnew)
        exact hstands.placeholder id' k
      · obtain rfl := Option.some.inj (hu'.symm.trans hnew)
        exact hstands
  · intro hplain i x u' hx hu'
    have hs : IsPlain s.name := hplain { s with id } (by simp)
    have hplain : ∀ r ∈ bound, IsPlain r.name := fun r hr => hplain r (by simp [hr])
    rcases hcases i x u' hx hu' with ⟨rfl, rfl, rfl⟩ | ⟨hi, hx, u, hu⟩
    · refine ⟨?_, fun _ => rfl⟩
      rintro ⟨j, r, hij, hj, -⟩
      obtain ⟨hj, -⟩ := List.getElem?_eq_some_iff.mp hj
      simp at hj
      omega
    rw [rebound_append hi]
    rcases hplace i u hu with ⟨hhidden, id', k, hnew⟩ | ⟨hhidden, hnew⟩
    · -- the symbol is hidden now, so it was not before
      obtain rfl := Option.some.inj (hu'.symm.trans hnew)
      rw [hidden?_eq] at hhidden
      have hsame : u.sameBinding s = true := by simpa using List.find?_some hhidden
      obtain ⟨-, hbare⟩ := h.not_rebound_of_hidden hplain hs hx hu hsame
      refine ⟨fun _ => Symbol.replaces_placeholder hbare id' k, fun hnot => absurd (.inr ?_) hnot⟩
      rw [← Symbol.sameBinding_of_bare hbare]
      exact hsame
    · obtain rfl := Option.some.inj (hu'.symm.trans hnew)
      obtain ⟨hlater, hnow⟩ := h.exact hplain i x u' hx hu
      refine ⟨?_, fun hnot => hnow fun hreb => hnot (.inl hreb)⟩
      rintro (hreb | hsame)
      · exact hlater hreb
      by_contra hnot
      have hbare := hnow fun hreb => hnot (hlater hreb)
      have hsame : u'.sameBinding s = true := by
        rw [Symbol.sameBinding_of_bare hbare]
        exact hsame
      exact hhidden (h.hidden?_eq_some hperm hplain hs hu hsame)

/-- What accepted binding does to the places of the innermost scope. -/
theorem exec_pushSymbol_places {t : SymbolTable} (haccepts : ∀ log, t.rejects log = false) {s : Symbol}
    (hresolved : s.type.unresolved = false) {scope : Scope} {rest : List Scope}
    (hscopes : t.scopes = scope :: rest) (hsound : scope.Sound t.nextId) :
    ∃ id scope' t', exec (pushSymbol s) t = (.ok { s with id }, t') ∧ t'.scopes = scope' :: rest ∧
      scope'.order.length = scope.order.length + 1 ∧
      scope'.order[scope.order.length]? = some { s with id } ∧
      ∀ (i : Nat) (u : Symbol), scope.order[i]? = some u →
        (hidden? scope s = some u ∧ ∃ id k,
          scope'.order[i]? = some (u.placeholder id (u.name ++ "#" ++ toString (k : Nat)))) ∨
        (hidden? scope s ≠ some u ∧ scope'.order[i]? = some u) := by
  cases hhidden : hidden? scope s with
  | none =>
    obtain ⟨log, hrun⟩ := exec_pushSymbol_new haccepts hresolved hscopes hhidden
    refine ⟨_, _, _, hrun, rfl, by simp [Scope.insert], by simp [Scope.insert], ?_⟩
    intro i u hu
    obtain ⟨hi, -⟩ := List.getElem?_eq_some_iff.mp hu
    refine .inr ⟨(Option.some_ne_none u).symm, ?_⟩
    rw [Scope.insert, List.getElem?_append_left hi, hu]
  | some old =>
    obtain ⟨log, hrun⟩ := exec_pushSymbol_hiding haccepts hresolved hscopes hhidden
    rw [hidden?_eq] at hhidden
    have hold := hsound.mem_order (List.mem_of_find?_eq_some hhidden)
    have hlength : (Scope.replaceIn old.id (t.nextPlaceholder old) scope.order).length
        = scope.order.length := Scope.length_replaceIn _ _ _
    refine ⟨_, _, _, hrun, rfl, ?_, ?_, ?_⟩
    · simp [Scope.insert, Scope.substitute, hlength]
    · simp [Scope.insert, Scope.substitute, hlength]
    · intro i u hu
      obtain ⟨hi, -⟩ := List.getElem?_eq_some_iff.mp hu
      simp only [Scope.insert, Scope.substitute]
      rw [List.getElem?_append_left (hlength.symm ▸ hi)]
      by_cases hid : u.id = old.id
      · obtain rfl : u = old :=
          List.inj_on_of_nodup_map hsound.nodup (List.mem_of_getElem? hu) hold hid
        exact .inl ⟨rfl, t.nextId, t.fresh + 1, Scope.getElem?_replaceIn_self hsound.nodup _ hu⟩
      · refine .inr ⟨fun heq => hid (by rw [Option.some.inj heq]), ?_⟩
        exact (Scope.getElem?_replaceIn _ _ _ i hu).resolve_right fun h => hid h.1

theorem forall₂_tracks_of_bare {bound : List (List Symbol)} {scopes scopes' : List Scope}
    (h : List.Forall₂ Tracks bound scopes)
    (hbare : scopes'.map Scope.bare = scopes.map Scope.bare) : List.Forall₂ Tracks bound scopes' := by
  induction h generalizing scopes' with
  | nil =>
    obtain rfl : scopes' = [] := by simpa using hbare
    exact .nil
  | cons htop _ ih =>
    obtain ⟨scope', rest', rfl, hscope, hrest⟩ := List.map_eq_cons_iff.mp hbare
    exact .cons (htop.of_bare hscope) (ih hrest)

theorem rejects_of_sameObservers {t t' : SymbolTable} (h : SameObservers t t')
    (haccepts : ∀ log, t'.rejects log = false) : ∀ log, t.rejects log = false := by
  intro r
  rw [← h.2]
  exact haccepts r

/-- The run: each open scope tracks what was bound in it, as long as all reports are accepted. -/
theorem Run.tracks {allowed : Symbol → Prop} {t : SymbolTable} {bound : List (List Symbol)}
    (h : Run allowed t bound) (haccepts : ∀ log, t.rejects log = false) :
    List.Forall₂ Tracks bound t.scopes := by
  induction h with
  | empty observer rejects => exact .nil
  | pushScope _ kind observer ih => exact .cons (tracks_empty kind none observer) (ih haccepts)
  | pushClassScope _ owner observer ih =>
    exact .cons (tracks_empty .classBody (some owner) observer) (ih haccepts)
  | @popScope t bound _ ih =>
    have ih := ih (rejects_of_sameObservers (popScope_keepsObservers t) haccepts)
    rw [(popScope_scopes t).1]
    generalize t.scopes = scopes at ih
    cases ih with
    | nil => exact .nil
    | cons _ hrest => exact hrest
  | @pushSymbol t bound hrun s _ ih =>
    have haccepts := rejects_of_sameObservers (pushSymbol_keepsObservers s t) haccepts
    have ih := ih haccepts
    cases hresolved : s.type.unresolved with
    | true =>
      rw [exec_pushSymbol_unresolved hresolved]
      exact ih
    | false =>
      cases hscopes : t.scopes with
      | nil =>
        rw [exec_pushSymbol_nil hresolved hscopes]
        exact ih
      | cons scope rest =>
        have hsound := hrun.reachable.sound.scopes scope (by simp [hscopes])
        obtain ⟨id, scope', t', hpush, hscopes', hlength, hlast, hplace⟩ :=
          exec_pushSymbol_places haccepts hresolved hscopes hsound
        rw [hscopes] at ih
        rw [hpush, hscopes']
        cases ih with
        | cons htop hrest => exact .cons (htop.step hsound.perm hlength hlast hplace) hrest
  | @observed t bound _ event found ih =>
    have ih := ih (rejects_of_sameObservers (observed_keepsObservers event found t) haccepts)
    rw [(observed_keeps event found t).1]
    exact ih
  | @attachMembers t bound hrun name s hs members ih =>
    have hbare := hrun.reachable.sound.bare_attachMembers hs members
    exact forall₂_tracks_of_bare (ih haccepts) hbare

/-! ## Reports -/

/-- What is told of an event: first to the observer of the table, then to that of the scope, then to
that of the symbol. -/
def told (t : SymbolTable) (event : Event) (scope : Scope) (s : Symbol) : List Report :=
  [t.observer, scope.observer, s.observer].filterMap fun observer =>
    observer.map fun observer => { observer, event, symbol := s }

theorem told_eq (t : SymbolTable) (event : Event) (scope : Scope) (s : Symbol) :
    t.told event scope s = (t.observer.toList.map fun observer => { observer, event, symbol := s }) ++
      ((scope.observer.toList.map fun observer => { observer, event, symbol := s }) ++
        s.observer.toList.map fun observer => { observer, event, symbol := s }) := by
  cases ht : t.observer <;> cases hscope : scope.observer <;> cases hs : s.observer <;>
    simp [told, ht, hscope, hs]

/-- From the table, whatever its log is, the operation makes the reports in their order.  It fails only
if a report is rejected, and then makes none after that one. -/
def Tells {α : Type} (t : SymbolTable) (op : TableM α) (reports : List Report) : Prop :=
  ∀ log, (∃ a, exec op { t with log } = (.ok a, { t with log := reports.reverse ++ log })) ∨
    ∃ e made, exec op { t with log } = (.error e, { t with log := made.reverse ++ log }) ∧
      made <+: reports ∧ t.rejects (made.reverse ++ log) = true

namespace Tells

variable {α β : Type} {t : SymbolTable} {reports : List Report}

theorem pure (a : α) : Tells t (Pure.pure a) [] := fun _ => .inl ⟨a, rfl⟩

theorem bind {m : TableM α} {f : α → TableM β} {more : List Report} (hm : Tells t m reports)
    (hf : ∀ a, Tells t (f a) more) : Tells t (m >>= f) (reports ++ more) := by
  intro log
  rcases hm log with ⟨a, hrun⟩ | ⟨e, made, hrun, hmade, hrejected⟩
  · rw [exec_bind_ok hrun, List.reverse_append, List.append_assoc]
    rcases hf a (reports.reverse ++ log) with ⟨b, hrun'⟩ | ⟨e, made, hrun', hmade, hrejected⟩
    · exact .inl ⟨b, hrun'⟩
    · have hlog : (reports ++ made).reverse ++ log = made.reverse ++ (reports.reverse ++ log) := by
        rw [List.reverse_append, List.append_assoc]
      exact .inr ⟨e, reports ++ made, by rw [hlog, hrun'],
        (List.prefix_append_right_inj reports).mpr hmade, by rwa [hlog]⟩
  · rw [exec_bind_error hrun]
    exact .inr ⟨e, made, rfl, hmade.trans (List.prefix_append _ _), hrejected⟩

theorem tell (event : Event) (s : Symbol) (observer : Option String) :
    Tells t (tell event s observer)
      (observer.toList.map fun observer => { observer, event, symbol := s }) := by
  intro log
  cases observer with
  | none => exact .inl ⟨(), rfl⟩
  | some observer =>
    rw [SymbolTable.tell, exec_bind_ok (exec_modify _ _), exec_bind_ok (exec_get _)]
    cases hrejects : t.rejects ({ observer, event, symbol := s } :: log) with
    | false => exact .inl ⟨(), by simp only; rfl⟩
    | true =>
      refine .inr ⟨.rejected, _, ?_, List.prefix_rfl, hrejects⟩
      simp only
      rfl

theorem dispatch (event : Event) (scope : Scope) (s : Symbol) :
    Tells t (dispatch event scope s) (t.told event scope s) := by
  intro log
  rw [SymbolTable.dispatch, exec_bind_ok (exec_get _), told_eq]
  exact (tell event s _).bind (fun _ => (tell event s _).bind fun _ => tell event s _) log

theorem dispatchAll (event : Event) (scope : Scope) (symbols : List Symbol) :
    Tells t (dispatchAll event scope symbols) (symbols.flatMap (t.told event scope)) := by
  induction symbols with
  | nil => exact .pure ()
  | cons s rest ih => exact (dispatch event scope s).bind fun _ => ih

theorem observed (event : Event) (found : Option (Scope × Symbol)) :
    Tells t (observed event found) (found.elim [] fun f => t.told event f.1 f.2) := by
  cases found with
  | none => exact .pure none
  | some found =>
    show Tells t _ (t.told event found.1 found.2)
    rw [← List.append_nil (t.told _ _ _)]
    exact (dispatch event found.1 found.2).bind fun _ => .pure (some found.2)

/-- Where all reports are accepted they are all made. -/
theorem exec_of_accepts {op : TableM α} (h : Tells t op reports)
    (haccepts : ∀ log, t.rejects log = false) :
    ∃ a, exec op t = (.ok a, { t with log := reports.reverse ++ t.log }) := by
  rcases h t.log with hok | ⟨_, _, -, -, hrejected⟩
  · exact hok
  · rw [haccepts _] at hrejected
    cases hrejected

end Tells

theorem exec_popScope_log {t : SymbolTable} (haccepts : ∀ log, t.rejects log = false) {scope : Scope}
    {rest : List Scope} (hscopes : t.scopes = scope :: rest) :
    exec popScope t = (.ok scope, { t with
      scopes := rest
      log := (scope.order.flatMap (t.told .pop scope)).reverse ++ t.log }) := by
  obtain ⟨_, hall⟩ := Tells.exec_of_accepts (t := { t with scopes := rest })
    (.dispatchAll .pop scope scope.order) haccepts
  rw [popScope, exec_bind_ok (exec_get _), hscopes]
  dsimp only
  rw [exec_bind_ok (exec_modify _ _), exec_bind_ok hall]
  rfl

/-- Leaving a scope while all reports are accepted tells of as many symbols as were bound in it with
success, in the order of binding, and of each of them the observer of the table before that of the
scope and that one before the symbol's own.

What is told of is the symbol that was bound, members apart, or a placeholder of the same type, kind,
parameters, location and observer.  A placeholder shadows the name that it had when it was hidden
last: its own name is that one with a number sign and a number after it.  The name that is shadowed
starts with the name under which the symbol was bound.  Where no name has a number sign it is that name,
and there is a placeholder exactly if the symbol was bound again. -/
theorem popScope_tells_each_bound_symbol {allowed : Symbol → Prop} {t : SymbolTable}
    {bound : List Symbol} {outer : List (List Symbol)} (h : Run allowed t (bound :: outer))
    (haccepts : ∀ log, t.rejects log = false) :
    ∃ scope rest, t.scopes = scope :: rest ∧
      exec popScope t = (.ok scope, { t with
        scopes := rest
        log := (scope.order.flatMap (t.told .pop scope)).reverse ++ t.log }) ∧
      scope.order.length = bound.length ∧
      ∀ (i : Nat) (s u : Symbol), bound[i]? = some s → scope.order[i]? = some u →
        (u.type = s.type ∧ u.kind = s.kind ∧ u.params = s.params ∧ u.location = s.location ∧
          u.observer = s.observer) ∧
        (u.bare = s.bare ∨ ∃ suffix, ∃ k : Nat, u.Replaces s suffix ∧
          u.shadows = some (s.name ++ suffix) ∧ u.name = s.name ++ suffix ++ "#" ++ toString k) ∧
        ((∀ r ∈ bound, IsPlain r.name) →
          (Rebound bound i s → u.shadows = some s.name) ∧ (¬ Rebound bound i s → u.bare = s.bare)) := by
  have htracks := h.tracks haccepts
  generalize hscopes : t.scopes = scopes at htracks
  cases htracks with
  | @cons _ scope _ rest htop =>
    refine ⟨scope, rest, rfl, exec_popScope_log haccepts hscopes, htop.length, ?_⟩
    intro i s u hs hu
    have hstands := htop.stands i s u hs hu
    refine ⟨hstands.fields, ?_, ?_⟩
    · refine hstands.imp_right fun ⟨suffix, h⟩ => ?_
      obtain ⟨k, hname⟩ := h.name
      exact ⟨suffix, k, h, h.shadows, hname⟩
    · intro hplain
      obtain ⟨hlater, hnow⟩ := htop.exact hplain i s u hs hu
      refine ⟨fun hreb => ?_, hnow⟩
      simpa using (hlater hreb).shadows

/-- A block with an observer of its own, in which one of two variables is bound again. -/
def blockOfThree : SymbolTable :=
  let first := (exec (pushSymbol { name := "a", kind := .var, type := .string, observer := "own" })
    (exec (pushScope .block "block") { observer := "table" }).2).2
  let second := (exec (pushSymbol { name := "b", kind := .var, type := .object }) first).2
  (exec (pushSymbol { name := "a", kind := .var, type := .null }) second).2

/-- The variable that was bound first is told of first, by a placeholder. -/
theorem blockOfThree_left :
    ∃ bound, Run (fun _ => True) blockOfThree [bound] ∧ (∀ log, blockOfThree.rejects log = false) ∧
      ∃ scope, exec popScope blockOfThree = (.ok scope, { blockOfThree with
          scopes := []
          log := (scope.order.flatMap (blockOfThree.told .pop scope)).reverse ++ blockOfThree.log }) ∧
        scope.order.length = 3 ∧
        ∀ u, scope.order[0]? = some u → u.type = .string ∧ u.shadows = some "a" := by
  have hrun : ∃ bound, Run (fun _ => True) blockOfThree [bound] ∧ bound.length = 3 ∧
      (∀ r ∈ bound, IsPlain r.name) ∧ ∃ s, bound[0]? = some s ∧ s.type = .string ∧ s.name = "a" ∧
        Rebound bound 0 s :=
    ⟨_, ((((Run.empty "table" _).pushScope .block "block").pushSymbol _ trivial).pushSymbol _
      trivial).pushSymbol _ trivial, rfl, by decide, _, rfl, rfl, rfl, 2, _, by decide, rfl, by decide⟩
  obtain ⟨bound, hrun, hlen, hplain, s, hs, htype, hname, hreb⟩ := hrun
  have haccepts : ∀ log, blockOfThree.rejects log = false := fun _ => rfl
  obtain ⟨scope, rest, hscopes, hpop, hlength, hplaces⟩ :=
    popScope_tells_each_bound_symbol hrun haccepts
  obtain rfl : rest = [] := (List.cons.inj hscopes).2.symm
  refine ⟨bound, hrun, haccepts, scope, hpop, hlength.trans hlen, ?_⟩
  intro u hu
  obtain ⟨hfields, -, hexact⟩ := hplaces 0 s u hs hu
  exact ⟨hfields.1.trans htype, hname ▸ (hexact hplain).1 hreb⟩

/-- A block in which a variable is bound twice, and once more under the name that was made up for its
placeholder. -/
def hiddenTwice : SymbolTable :=
  let first := (exec (pushSymbol { name := "a", kind := .var, type := .string })
    (exec (pushScope .block none) { observer := "table" }).2).2
  let second := (exec (pushSymbol { name := "a", kind := .var, type := .object }) first).2
  (exec (pushSymbol { name := "a#1", kind := .var, type := .null }) second).2

/-- The symbol that was bound first as `a` is told of as one that shadows `a#1`. -/
theorem hiddenTwice_shadows :
    (∃ bound, Run (fun _ => True) hiddenTwice [bound] ∧ bound.map Symbol.name = ["a", "a", "a#1"]) ∧
      (∀ log, hiddenTwice.rejects log = false) ∧
      ((exec popScope hiddenTwice).2.log.take 3).reverse.map
          (fun r => (r.event, r.symbol.name, r.symbol.shadows))
        = [(.pop, "a#1#2", some "a#1"), (.pop, "a", none), (.pop, "a#1", none)] := by
  have hrun : ∃ bound, Run (fun _ => True) hiddenTwice [bound] ∧
      bound.map Symbol.name = ["a", "a", "a#1"] :=
    ⟨_, ((((Run.empty "table" _).pushScope .block none).pushSymbol _ trivial).pushSymbol _
      trivial).pushSymbol _ trivial, rfl⟩
  exact ⟨hrun, fun _ => rfl, by decide +kernel⟩

end SymbolTable

end JavaSema
