import JavaSema.Proofs.Run
import Mathlib.Data.List.Nodup
import Mathlib.Data.List.Pairwise
import Mathlib.Data.List.Perm.Basic

/-!
# What happens to scopes

The tables that the operations on symbols lead to, and what those operations do to the open scopes.

There are four groups.

* Comparison.  `bare` leaves out the members of symbols, which may be attached at any time.  `GrewTo`
  says that a scope kept its symbols and gained others, where a symbol that was bound again may have
  given way to a placeholder.
* Soundness.  In a sound scope the two lists hold the same symbols and identities tell them apart.
* Binding.  `pushSymbol_cases` gives the three ways in which binding a symbol can go.
* Reachable tables.  They are sound, and `pushSymbol_grown` says that binding symbols lets the
  innermost scope grow and nothing else.
-/

namespace JavaSema

/-! ## Comparison -/

/-- The symbol without the members that a type may be given. -/
def Symbol.bare (s : Symbol) : Symbol :=
  if s.kind = .type then { s with members := none } else s

/-- What became of a symbol in a scope that now holds `now`: it is still there, or it is a placeholder
and a symbol of its name and kind is there. -/
def Symbol.KeptAs (now : List Symbol) (s t : Symbol) : Prop :=
  t.bare = s.bare ∨
    (∃ id name shadows, t.bare = { s.bare with id, name, shadows := some shadows }) ∧
      ∃ u ∈ now, u.name = s.name ∧ u.kind = s.kind

@[simp] theorem Symbol.name_bare (s : Symbol) : s.bare.name = s.name := by
  unfold bare
  split <;> rfl

@[simp] theorem Symbol.kind_bare (s : Symbol) : s.bare.kind = s.kind := by
  unfold bare
  split <;> rfl

theorem Symbol.named_of_bare {s t : Symbol} (h : t.bare = s.bare) :
    t.name = s.name ∧ t.kind = s.kind := by
  rw [← name_bare t, ← kind_bare t, h, name_bare, kind_bare]
  exact ⟨rfl, rfl⟩

theorem Symbol.bare_placeholder (s : Symbol) (id : Nat) (name : String) :
    (s.placeholder id name).bare = { s.bare with id, name, shadows := some s.name } := by
  unfold bare placeholder
  split
  · rfl
  · rfl

namespace Scope

/-- The scope without the members of its symbols. -/
def bare (scope : Scope) : Scope :=
  { scope with index := scope.index.map Symbol.bare, order := scope.order.map Symbol.bare }

/-- The scope kept its symbols in their places, some of them as placeholders, and gained others after
them. -/
structure GrewTo (a b : Scope) : Prop where
  /-- It is of the same kind. -/
  kind : b.kind = a.kind
  /-- It belongs to the same class. -/
  owner : b.owner = a.owner
  /-- It has the same observer. -/
  observer : b.observer = a.observer
  /-- Each symbol is kept in its place. -/
  order : ∀ (i : Nat) (s : Symbol), a.order[i]? = some s →
    ∃ t, b.order[i]? = some t ∧ s.KeptAs b.order t

theorem grewTo_of_bare {a b : Scope} (h : b.bare = a.bare) : a.GrewTo b := by
  simp only [bare, Scope.mk.injEq] at h
  obtain ⟨hkind, howner, -, horder, hobserver⟩ := h
  refine ⟨hkind, howner, hobserver, ?_⟩
  intro i s hs
  have hget : (b.order.map Symbol.bare)[i]? = some s.bare := by
    rw [horder, List.getElem?_map, hs]
    rfl
  rw [List.getElem?_map, Option.map_eq_some_iff] at hget
  obtain ⟨t, ht, hbare⟩ := hget
  exact ⟨t, ht, .inl hbare⟩

/-- A symbol of a scope is matched by one of its name and kind as the scope grows. -/
theorem GrewTo.exists_named {a b : Scope} (h : a.GrewTo b) {s : Symbol} (hs : s ∈ a.order) :
    ∃ u ∈ b.order, u.name = s.name ∧ u.kind = s.kind := by
  obtain ⟨i, hi⟩ := List.mem_iff_getElem?.mp hs
  obtain ⟨t, ht, hsame | ⟨-, hnamed⟩⟩ := h.order i s hi
  · exact ⟨t, List.mem_of_getElem? ht, Symbol.named_of_bare hsame⟩
  · exact hnamed

theorem GrewTo.trans {a b c : Scope} (hab : a.GrewTo b) (hbc : b.GrewTo c) : a.GrewTo c := by
  refine ⟨hbc.kind.trans hab.kind, hbc.owner.trans hab.owner, hbc.observer.trans hab.observer, ?_⟩
  intro i s hs
  obtain ⟨t, ht, hst⟩ := hab.order i s hs
  obtain ⟨r, hr, htr⟩ := hbc.order i t ht
  refine ⟨r, hr, ?_⟩
  rcases hst with hst | ⟨⟨id, name, shadows, hst⟩, u, hu, huname, hukind⟩
  · rcases htr with htr | ⟨⟨id, name, shadows, htr⟩, u, hu, huname, hukind⟩
    · exact .inl (htr.trans hst)
    · obtain ⟨hname, hkind⟩ := Symbol.named_of_bare hst
      refine .inr ⟨⟨id, name, shadows, by rw [htr, hst]⟩, u, hu, ?_, ?_⟩
      · exact huname.trans hname
      · exact hukind.trans hkind
  · -- the symbol that took the name has itself been kept, or given way to one of the same name
    obtain ⟨v, hv, hvname, hvkind⟩ := hbc.exists_named hu
    have hnamed : ∃ v ∈ c.order, v.name = s.name ∧ v.kind = s.kind :=
      ⟨v, hv, hvname.trans huname, hvkind.trans hukind⟩
    rcases htr with htr | ⟨⟨id', name', shadows', htr⟩, -⟩
    · exact .inr ⟨⟨id, name, shadows, htr.trans hst⟩, hnamed⟩
    · exact .inr ⟨⟨id', name', shadows', by rw [htr, hst]⟩, hnamed⟩

end Scope

/-- The innermost scope grew and the others are as they were, members apart. -/
inductive Grown : List Scope → List Scope → Prop where
  /-- There is no scope. -/
  | nil : Grown [] []
  /-- The innermost scope grew. -/
  | cons {a b : Scope} {outer outer' : List Scope} (hgrew : a.GrewTo b)
      (houter : outer'.map Scope.bare = outer.map Scope.bare) : Grown (a :: outer) (b :: outer')

theorem grown_of_bare {ss ss' : List Scope} (h : ss'.map Scope.bare = ss.map Scope.bare) :
    Grown ss ss' := by
  cases ss with
  | nil =>
    obtain rfl : ss' = [] := by simpa using h
    exact .nil
  | cons a outer =>
    cases ss' with
    | nil => simp at h
    | cons b outer' =>
      simp only [List.map_cons, List.cons.injEq] at h
      exact .cons (Scope.grewTo_of_bare h.1) h.2

theorem Grown.trans {ss ss' ss'' : List Scope} (h : Grown ss ss') (h' : Grown ss' ss'') :
    Grown ss ss'' := by
  cases h with
  | nil => exact h'
  | cons hgrew houter =>
    cases h' with
    | cons hgrew' houter' => exact .cons (hgrew.trans hgrew') (houter'.trans houter)

/-! ## Soundness -/

namespace Scope

/-- The two lists of the scope hold the same symbols, whose identities differ and lie below `next`. -/
structure Sound (scope : Scope) (next : Nat) : Prop where
  /-- Both lists hold the same symbols. -/
  perm : scope.index.Perm scope.order
  /-- Identities tell symbols apart. -/
  nodup : (scope.order.map Symbol.id).Nodup
  /-- Identities are among those handed out. -/
  id_lt : ∀ s ∈ scope.order, s.id < next

theorem Sound.mono {scope : Scope} {n m : Nat} (h : scope.Sound n) (hnm : n ≤ m) :
    scope.Sound m :=
  ⟨h.perm, h.nodup, fun s hs => Nat.lt_of_lt_of_le (h.id_lt s hs) hnm⟩

theorem Sound.mem_order {scope : Scope} {n : Nat} (h : scope.Sound n) {s : Symbol}
    (hs : s ∈ scope.index) : s ∈ scope.order :=
  h.perm.mem_iff.mp hs

theorem sound_empty (kind : ScopeKind) (owner observer : Option String) (n : Nat) :
    Sound { kind, owner, observer } n :=
  ⟨.refl _, by simp, by simp⟩

/-- No symbols of the two scopes share an identity. -/
def Apart (a b : Scope) : Prop := ∀ r ∈ a.order, ∀ s ∈ b.order, r.id ≠ s.id

instance : Std.Symm Apart := ⟨fun _ _ h r hr s hs => (h s hs r hr).symm⟩

/-- A new symbol takes the next identity. -/
theorem Sound.insert {scope : Scope} {n : Nat} (h : scope.Sound n) {s : Symbol} (hs : s.id = n) :
    (scope.insert s).Sound (n + 1) := by
  refine ⟨h.perm.append_right [s], ?_, ?_⟩
  · simp only [Scope.insert, List.map_append, List.map_cons, List.map_nil]
    rw [List.nodup_append]
    refine ⟨h.nodup, by simp, ?_⟩
    intro a ha b hb
    obtain ⟨r, hr, rfl⟩ := List.mem_map.mp ha
    have hlt := h.id_lt r hr
    simp only [List.mem_singleton] at hb
    omega
  · intro r hr
    simp only [Scope.insert, List.mem_append, List.mem_singleton] at hr
    rcases hr with hr | rfl
    · have hlt := h.id_lt r hr
      omega
    · omega

/-- Inserting a symbol lets the scope grow. -/
theorem grewTo_insert (scope : Scope) (s : Symbol) : scope.GrewTo (scope.insert s) := by
  refine ⟨rfl, rfl, rfl, ?_⟩
  intro i r hr
  refine ⟨r, ?_, .inl rfl⟩
  obtain ⟨hi, -⟩ := List.getElem?_eq_some_iff.mp hr
  rw [Scope.insert, List.getElem?_append_left hi]
  exact hr

/-- Replacing a symbol of the list leaves the others in their places. -/
theorem getElem?_replaceIn (l : List Symbol) (id : Nat) (new : Symbol) (i : Nat) {s : Symbol}
    (hs : l[i]? = some s) :
    (replaceIn id new l)[i]? = some s ∨ (s.id = id ∧ (replaceIn id new l)[i]? = some new) := by
  induction l generalizing i with
  | nil => simp at hs
  | cons r rest ih =>
    rw [replaceIn]
    split
    · rename_i hid
      cases i with
      | zero =>
        simp only [List.getElem?_cons_zero, Option.some.injEq] at hs
        subst hs
        exact .inr ⟨by simpa using hid, rfl⟩
      | succ i => exact .inl hs
    · cases i with
      | zero => exact .inl hs
      | succ i => exact ih i hs

/-- Replacing a symbol takes out the one with that identity and puts in the new one. -/
theorem replaceIn_perm (l : List Symbol) (new : Symbol) {old : Symbol} (hold : old ∈ l)
    (hnodup : (l.map Symbol.id).Nodup) :
    (replaceIn old.id new l).Perm ((l.filter fun s => s.id != old.id) ++ [new]) := by
  induction l with
  | nil => simp at hold
  | cons r rest ih =>
    simp only [List.map_cons, List.nodup_cons] at hnodup
    rw [replaceIn]
    by_cases hid : r.id = old.id
    · have hrest : (rest.filter fun s => s.id != old.id) = rest := by
        refine List.filter_eq_self.mpr fun s hs => ?_
        have hne : s.id ≠ old.id := fun h =>
          hnodup.1 (hid ▸ h ▸ List.mem_map.mpr ⟨s, hs, rfl⟩)
        simpa using hne
      simpa [hid, hrest] using (List.perm_append_singleton new rest).symm
    · have hold : old ∈ rest := by
        rcases List.mem_cons.mp hold with rfl | h
        · exact absurd rfl hid
        · exact h
      simpa [hid] using ih hold hnodup.2

theorem Sound.mem_substitute {scope : Scope} {n : Nat} (h : scope.Sound n) {old new s : Symbol}
    (hold : old ∈ scope.index) (hs : s ∈ (scope.substitute old new).order) :
    s ∈ scope.order ∨ s = new := by
  have hs := (replaceIn_perm scope.order new (h.mem_order hold) h.nodup).mem_iff.mp hs
  simp only [List.mem_append, List.mem_filter, List.mem_singleton] at hs
  exact hs.imp_left And.left

/-- A placeholder with the next identity takes the place of a symbol. -/
theorem Sound.substitute {scope : Scope} {n : Nat} (h : scope.Sound n) {old new : Symbol}
    (hold : old ∈ scope.index) (hnew : new.id = n) : (scope.substitute old new).Sound (n + 1) := by
  have hperm := replaceIn_perm scope.order new (h.mem_order hold) h.nodup
  refine ⟨?_, ?_, ?_⟩
  · exact ((h.perm.filter _).append_right [new]).trans hperm.symm
  · refine ((hperm.map Symbol.id).nodup_iff).mpr ?_
    rw [List.map_append, List.nodup_append]
    refine ⟨h.nodup.sublist (List.filter_sublist.map _), by simp, ?_⟩
    intro a ha b hb
    obtain ⟨r, hr, rfl⟩ := List.mem_map.mp ha
    have hlt := h.id_lt r (List.mem_filter.mp hr).1
    simp only [List.map_cons, List.map_nil, List.mem_singleton] at hb
    omega
  · intro s hs
    rcases h.mem_substitute hold hs with hs | rfl
    · have hlt := h.id_lt s hs
      omega
    · omega

/-- Binding a symbol anew lets the scope grow: the old one is a placeholder from then on. -/
theorem grewTo_substitute {scope : Scope} {n : Nat} (h : scope.Sound n) {old s : Symbol}
    (hold : old ∈ scope.index) (hname : old.name = s.name) (hkind : old.kind = s.kind) (id : Nat)
    (name : String) :
    scope.GrewTo ((scope.substitute old (old.placeholder id name)).insert s) := by
  refine ⟨rfl, rfl, rfl, ?_⟩
  intro i r hr
  have hplace := getElem?_replaceIn scope.order old.id (old.placeholder id name) i hr
  have happend : ∀ t, (replaceIn old.id (old.placeholder id name) scope.order)[i]? = some t →
      ((scope.substitute old (old.placeholder id name)).insert s).order[i]? = some t := by
    intro t ht
    obtain ⟨hi, -⟩ := List.getElem?_eq_some_iff.mp ht
    simp only [Scope.insert, Scope.substitute]
    rw [List.getElem?_append_left hi]
    exact ht
  rcases hplace with hplace | ⟨hid, hplace⟩
  · exact ⟨r, happend r hplace, .inl rfl⟩
  · obtain rfl : r = old :=
      List.inj_on_of_nodup_map h.nodup (List.mem_of_getElem? hr) (h.mem_order hold) hid
    refine ⟨_, happend _ hplace, .inr ⟨⟨id, name, r.name, r.bare_placeholder id name⟩, s, ?_, ?_, ?_⟩⟩
    · simp [Scope.insert]
    · exact hname.symm
    · exact hkind.symm

end Scope

namespace SymbolTable

/-! ## Telling observers -/

/-- The two tables have the same scopes and hand out the same identities. -/
def SameScopes (t t' : SymbolTable) : Prop := t'.scopes = t.scopes ∧ t'.nextId = t.nextId

theorem sameScopes_refl (t : SymbolTable) : SameScopes t t := ⟨rfl, rfl⟩

theorem sameScopes_trans (t t' t'' : SymbolTable) (h : SameScopes t t') (h' : SameScopes t' t'') :
    SameScopes t t'' :=
  ⟨h'.1.trans h.1, h'.2.trans h.2⟩

theorem tell_keeps (event : Event) (symbol : Symbol) (observer : Option String) :
    Keeps SameScopes (tell event symbol observer) := by
  intro t
  cases observer with
  | none => exact sameScopes_refl t
  | some observer =>
    rw [tell, exec_bind_ok (exec_modify _ _), exec_bind_ok (exec_get _)]
    split
    · exact ⟨rfl, rfl⟩
    · exact ⟨rfl, rfl⟩

theorem dispatch_keeps (event : Event) (scope : Scope) (symbol : Symbol) :
    Keeps SameScopes (dispatch event scope symbol) := by
  refine .bind sameScopes_trans (fun t => sameScopes_refl t) fun _ => ?_
  refine .bind sameScopes_trans (tell_keeps _ _ _) fun _ => ?_
  exact .bind sameScopes_trans (tell_keeps _ _ _) fun _ => tell_keeps _ _ _

theorem dispatchAll_keeps (event : Event) (scope : Scope) (symbols : List Symbol) :
    Keeps SameScopes (dispatchAll event scope symbols) := by
  induction symbols with
  | nil => exact .pure sameScopes_refl _
  | cons s rest ih => exact .bind sameScopes_trans (dispatch_keeps _ _ _) fun _ => ih

theorem observed_keeps (event : Event) (found : Option (Scope × Symbol)) :
    Keeps SameScopes (observed event found) := by
  cases found with
  | none => exact .pure sameScopes_refl _
  | some found =>
    exact .bind sameScopes_trans (dispatch_keeps _ _ _) fun _ => .pure sameScopes_refl _

/-- Closing a scope takes the innermost one off, also where an observer rejects that. -/
theorem popScope_scopes (t : SymbolTable) :
    (exec popScope t).2.scopes = t.scopes.tail ∧ (exec popScope t).2.nextId = t.nextId := by
  rw [popScope, exec_bind_ok (exec_get _)]
  cases hscopes : t.scopes with
  | nil => exact ⟨hscopes, rfl⟩
  | cons scope rest =>
    rw [exec_bind_ok (exec_modify _ _)]
    have hkeeps : Keeps SameScopes (do dispatchAll .pop scope scope.order; return scope) :=
      .bind sameScopes_trans (dispatchAll_keeps _ _ _) fun _ => .pure sameScopes_refl _
    exact hkeeps { t with scopes := rest }

/-! ## Binding -/

/-- Hiding a symbol of the scope takes the next identity for its placeholder. -/
theorem shadow_cases (scope : Scope) (s : Symbol) (t : SymbolTable) :
    exec (shadow scope s) t = (.ok (scope, none), t) ∨
      ∃ old ∈ scope.index, old.name = s.name ∧ old.kind = s.kind ∧ ∃ name,
        exec (shadow scope s) t =
          (.ok (scope.substitute old (old.placeholder t.nextId name),
            some (old.placeholder t.nextId name)),
            { t with fresh := t.fresh + 1, nextId := t.nextId + 1 }) := by
  unfold shadow
  cases hfind : (scope.get s.name).find? fun old => old.sameBinding s with
  | none => exact .inl rfl
  | some old =>
    have hmem : old ∈ scope.index :=
      (List.mem_filter.mp (List.mem_of_find?_eq_some hfind)).1
    have hsame := List.find?_some hfind
    simp only [Symbol.sameBinding, Bool.and_eq_true, beq_iff_eq] at hsame
    exact .inr ⟨old, hmem, hsame.1.1, hsame.1.2, _, rfl⟩

theorem exec_freshId (t : SymbolTable) :
    exec freshId t = (.ok t.nextId, { t with nextId := t.nextId + 1 }) := rfl

theorem exec_setInnermost (scope : Scope) (t : SymbolTable) :
    exec (setInnermost scope) t = (.ok (), { t with scopes := scope :: t.scopes.drop 1 }) := rfl

/-- Telling of a new symbol, after its placeholder if it has one, leaves the scopes. -/
theorem dispatchPush_keeps (scope : Scope) (placeholder : Option Symbol) (s : Symbol) :
    Keeps SameScopes (do
      if let some p := placeholder then dispatch .push scope p
      dispatch .push scope s
      return s) := by
  have hlast : Keeps SameScopes (do dispatch .push scope s; return s) :=
    .bind sameScopes_trans (dispatch_keeps _ _ _) fun _ => .pure sameScopes_refl _
  cases placeholder with
  | none => exact hlast
  | some p => exact .bind sameScopes_trans (dispatch_keeps _ _ _) fun _ => hlast

/-- Binding a symbol either does nothing to the scopes, or adds the symbol to the innermost one, or
adds it there and keeps one that it hides as a placeholder. -/
theorem pushSymbol_cases (s : Symbol) (t : SymbolTable) :
    SameScopes t (exec (pushSymbol s) t).2 ∨
      ∃ scope rest, t.scopes = scope :: rest ∧
        (((exec (pushSymbol s) t).2.scopes = scope.insert { s with id := t.nextId } :: rest ∧
            (exec (pushSymbol s) t).2.nextId = t.nextId + 1) ∨
          ∃ old ∈ scope.index, old.name = s.name ∧ old.kind = s.kind ∧ ∃ name,
            (exec (pushSymbol s) t).2.scopes =
                ((scope.substitute old (old.placeholder t.nextId name)).insert
                  { s with id := t.nextId + 1 }) :: rest ∧
              (exec (pushSymbol s) t).2.nextId = t.nextId + 1 + 1) := by
  unfold pushSymbol
  split
  · exact .inl (sameScopes_refl t)
  rw [exec_bind_ok (exec_get _)]
  cases hscopes : t.scopes with
  | nil => exact .inl (sameScopes_refl t)
  | cons scope rest =>
    refine .inr ⟨scope, rest, rfl, ?_⟩
    rcases shadow_cases scope s t with hshadow | ⟨old, hold, hname, hkind, name, hshadow⟩
    · rw [exec_bind_ok hshadow, exec_bind_ok (exec_freshId _), exec_bind_ok (exec_setInnermost _ _)]
      obtain ⟨hkept, hnext⟩ := dispatchPush_keeps (scope.insert { s with id := t.nextId }) none
        { s with id := t.nextId }
        { t with
          scopes := scope.insert { s with id := t.nextId } :: t.scopes.drop 1
          nextId := t.nextId + 1 }
      refine .inl ⟨hkept.trans ?_, hnext⟩
      simp [hscopes]
    · rw [exec_bind_ok hshadow, exec_bind_ok (exec_freshId _), exec_bind_ok (exec_setInnermost _ _)]
      let scope' := (scope.substitute old (old.placeholder t.nextId name)).insert
        { s with id := t.nextId + 1 }
      obtain ⟨hkept, hnext⟩ := dispatchPush_keeps scope' (some (old.placeholder t.nextId name))
        { s with id := t.nextId + 1 }
        { t with
          scopes := scope' :: t.scopes.drop 1
          fresh := t.fresh + 1
          nextId := t.nextId + 1 + 1 }
      refine .inr ⟨old, hold, hname, hkind, name, hkept.trans ?_, hnext⟩
      simp [hscopes, scope']

/-! ## Reachable tables -/

/-- The tables that the operations lead to, from one without scopes. -/
inductive Reachable : SymbolTable → Prop where
  /-- A table without scopes. -/
  | empty (observer : Option String) (rejects : Judge) : Reachable { observer, rejects }
  /-- A scope was opened. -/
  | pushScope {t : SymbolTable} (h : Reachable t) (kind : ScopeKind) (observer : Option String) :
      Reachable (exec (pushScope kind observer) t).2
  /-- The body of a class was opened. -/
  | pushClassScope {t : SymbolTable} (h : Reachable t) (owner : String) (observer : Option String) :
      Reachable (exec (pushClassScope owner observer) t).2
  /-- A scope was closed. -/
  | popScope {t : SymbolTable} (h : Reachable t) : Reachable (exec popScope t).2
  /-- A symbol was bound. -/
  | pushSymbol {t : SymbolTable} (h : Reachable t) (s : Symbol) :
      Reachable (exec (pushSymbol s) t).2
  /-- A symbol was read or written. -/
  | observed {t : SymbolTable} (h : Reachable t) (event : Event) (found : Option (Scope × Symbol)) :
      Reachable (exec (observed event found) t).2
  /-- A type that is in scope was given its members. -/
  | attachMembers {t : SymbolTable} (h : Reachable t) (name : String) (s : Symbol)
      (hs : t.find? name .type = some s) (members : Scope) :
      Reachable (t.attachMembers s.id members)

/-- Each scope of the table is sound, and no two of them share an identity. -/
structure Sound (t : SymbolTable) : Prop where
  /-- The scopes are sound. -/
  scopes : ∀ scope ∈ t.scopes, scope.Sound t.nextId
  /-- Identities tell the symbols of different scopes apart. -/
  apart : t.scopes.Pairwise Scope.Apart

theorem Sound.of_sameScopes {t t' : SymbolTable} (h : t.Sound) (hsame : SameScopes t t') :
    t'.Sound := by
  refine ⟨?_, ?_⟩
  · rw [hsame.1, hsame.2]
    exact h.scopes
  · rw [hsame.1]
    exact h.apart

/-- Another innermost scope, whose new symbols have identities that were not handed out before. -/
theorem Sound.replace {t t' : SymbolTable} (h : t.Sound) {scope scope' : Scope} {rest : List Scope}
    (hscopes : t.scopes = scope :: rest) (hscopes' : t'.scopes = scope' :: rest)
    (hnext : t.nextId ≤ t'.nextId) (hscope' : scope'.Sound t'.nextId)
    (hnew : ∀ s ∈ scope'.order, s ∈ scope.order ∨ t.nextId ≤ s.id) : t'.Sound := by
  have hsound := h.scopes
  have hapart := h.apart
  rw [hscopes] at hsound hapart
  rw [List.pairwise_cons] at hapart
  refine ⟨?_, ?_⟩
  · rw [hscopes']
    intro sc hsc
    rcases List.mem_cons.mp hsc with rfl | hsc
    · exact hscope'
    · exact (hsound sc (List.mem_cons_of_mem _ hsc)).mono hnext
  · rw [hscopes', List.pairwise_cons]
    refine ⟨?_, hapart.2⟩
    intro sc hsc r hr s hs
    rcases hnew r hr with hr | hr
    · exact hapart.1 sc hsc r hr s hs
    · have hlt := (hsound sc (List.mem_cons_of_mem _ hsc)).id_lt s hs
      omega

theorem Sound.pushSymbol {t : SymbolTable} (h : t.Sound) (s : Symbol) :
    (exec (pushSymbol s) t).2.Sound := by
  rcases pushSymbol_cases s t with hsame | ⟨scope, rest, hscopes, ⟨hnew, hnext⟩ |
    ⟨old, hold, -, -, name, hnew, hnext⟩⟩
  · exact h.of_sameScopes hsame
  · have hsound := h.scopes scope (by simp [hscopes])
    refine h.replace hscopes hnew (by omega) ?_ ?_
    · rw [hnext]
      exact hsound.insert rfl
    · intro r hr
      simp only [Scope.insert, List.mem_append, List.mem_singleton] at hr
      rcases hr with hr | rfl
      · exact .inl hr
      · exact .inr (Nat.le_refl _)
  · have hsound := h.scopes scope (by simp [hscopes])
    refine h.replace hscopes hnew (by omega) ?_ ?_
    · rw [hnext]
      exact (hsound.substitute hold rfl).insert rfl
    · intro r hr
      simp only [Scope.insert, List.mem_append, List.mem_singleton] at hr
      rcases hr with hr | rfl
      · rcases hsound.mem_substitute hold hr with hr | rfl
        · exact .inl hr
        · exact .inr (Nat.le_refl _)
      · exact .inr (Nat.le_succ _)

/-! ### Attaching members -/

/-- What a lookup finds is in a scope, and of the kind that was looked for. -/
theorem mem_of_find? {t : SymbolTable} {name : String} {kind : SymbolKind} {s : Symbol}
    (h : t.find? name kind = some s) :
    ∃ scope ∈ t.scopes, s ∈ scope.index ∧ s.kind = kind := by
  obtain ⟨⟨scope, s'⟩, hlocate, rfl⟩ := Option.map_eq_some_iff.mp h
  obtain ⟨sc, hsc, hfound⟩ := List.exists_of_findSome?_eq_some hlocate
  obtain ⟨r, hr, hpair⟩ := Option.map_eq_some_iff.mp hfound
  injection hpair with hscope hs
  subst hscope hs
  refine ⟨sc, hsc, (List.mem_filter.mp (List.mem_of_find?_eq_some hr)).1, ?_⟩
  have hkind := List.find?_some hr
  simpa using hkind

/-- In a sound table the symbols with the identity of a type are that type. -/
theorem Sound.kind_of_id {t : SymbolTable} (h : t.Sound) {name : String} {s : Symbol}
    (hs : t.find? name .type = some s) {scope : Scope} (hscope : scope ∈ t.scopes) {r : Symbol}
    (hr : r ∈ scope.order) (hid : r.id = s.id) : r.kind = .type := by
  obtain ⟨sc, hsc, hmem, hkind⟩ := mem_of_find? hs
  have hmem := (h.scopes sc hsc).mem_order hmem
  suffices hsame : r = s by rw [hsame, hkind]
  by_cases heq : scope = sc
  · subst heq
    exact List.inj_on_of_nodup_map (h.scopes scope hscope).nodup hr hmem hid
  · have hapart := h.apart.forall hscope hsc heq
    exact absurd hid (hapart r hr s hmem)

/-- The symbol with members attached, if it has that identity. -/
def attached (id : Nat) (members : Scope) (s : Symbol) : Symbol :=
  if s.id == id then { s with members := some (s.members.getD members) } else s

theorem attachMembers_scopes (t : SymbolTable) (id : Nat) (members : Scope) :
    (t.attachMembers id members).scopes = t.scopes.map fun scope =>
      { scope with
        index := scope.index.map (attached id members)
        order := scope.order.map (attached id members) } := rfl

@[simp] theorem id_attached (id : Nat) (members : Scope) (s : Symbol) :
    (attached id members s).id = s.id := by
  unfold attached
  split <;> rfl

theorem Sound.attachMembers {t : SymbolTable} (h : t.Sound) (id : Nat) (members : Scope) :
    (t.attachMembers id members).Sound := by
  refine ⟨?_, ?_⟩
  · intro sc hsc
    rw [attachMembers_scopes] at hsc
    obtain ⟨scope, hscope, rfl⟩ := List.mem_map.mp hsc
    have hsound := h.scopes scope hscope
    refine ⟨hsound.perm.map _, ?_, ?_⟩
    · simpa [Function.comp_def] using hsound.nodup
    · intro s hs
      obtain ⟨r, hr, rfl⟩ := List.mem_map.mp hs
      rw [id_attached]
      exact hsound.id_lt r hr
  · rw [attachMembers_scopes, List.pairwise_map]
    refine h.apart.imp ?_
    intro a b hab r' hr' s' hs'
    obtain ⟨r, hr, rfl⟩ := List.mem_map.mp hr'
    obtain ⟨s, hs, rfl⟩ := List.mem_map.mp hs'
    rw [id_attached, id_attached]
    exact hab r hr s hs

/-- Attaching members to a type changes its members only. -/
theorem Sound.bare_attachMembers {t : SymbolTable} (h : t.Sound) {name : String} {s : Symbol}
    (hs : t.find? name .type = some s) (members : Scope) :
    (t.attachMembers s.id members).scopes.map Scope.bare = t.scopes.map Scope.bare := by
  rw [attachMembers_scopes, List.map_map]
  refine List.map_congr_left fun scope hscope => ?_
  have hbare : ∀ l : List Symbol, (∀ r ∈ l, r ∈ scope.order) →
      (l.map (attached s.id members)).map Symbol.bare = l.map Symbol.bare := by
    intro l hl
    rw [List.map_map]
    refine List.map_congr_left fun r hr => ?_
    simp only [Function.comp_apply, attached]
    split
    · rename_i hid
      have hkind := h.kind_of_id hs hscope (hl r hr) (by simpa using hid)
      simp [Symbol.bare, hkind]
    · rfl
  have hindex := hbare scope.index fun r hr => (h.scopes scope hscope).mem_order hr
  have horder := hbare scope.order fun r hr => hr
  simp only [Function.comp_apply, Scope.bare, hindex, horder]

/-- Reachable tables are sound. -/
theorem Reachable.sound {t : SymbolTable} (h : t.Reachable) : t.Sound := by
  have hopen : ∀ {t : SymbolTable}, t.Sound → ∀ (kind : ScopeKind) (owner observer : Option String),
      SymbolTable.Sound { t with scopes := { kind, owner, observer } :: t.scopes } := by
    intro t ht kind owner observer
    refine ⟨?_, List.pairwise_cons.mpr ⟨?_, ht.apart⟩⟩
    · intro scope hscope
      rcases List.mem_cons.mp hscope with rfl | hscope
      · exact Scope.sound_empty kind owner observer t.nextId
      · exact ht.scopes scope hscope
    · intro scope _ r hr
      cases hr
  induction h with
  | empty observer rejects => exact ⟨by simp, .nil⟩
  | pushScope _ kind observer ih => exact hopen ih kind none observer
  | pushClassScope _ owner observer ih => exact hopen ih .classBody (some owner) observer
  | @popScope t _ ih =>
    obtain ⟨hscopes, hnext⟩ := popScope_scopes t
    refine ⟨?_, ?_⟩
    · rw [hscopes, hnext]
      exact fun scope hscope => ih.scopes scope (List.mem_of_mem_tail hscope)
    · rw [hscopes]
      exact ih.apart.tail
  | pushSymbol _ s ih => exact ih.pushSymbol s
  | observed _ event found ih => exact ih.of_sameScopes (observed_keeps event found _)
  | attachMembers _ name s _ members ih => exact ih.attachMembers s.id members

/-- Binding a symbol lets the innermost scope of a reachable table grow. -/
theorem pushSymbol_grown {t : SymbolTable} (h : t.Reachable) (s : Symbol) :
    Grown t.scopes (exec (pushSymbol s) t).2.scopes := by
  rcases pushSymbol_cases s t with hsame | ⟨scope, rest, hscopes, ⟨hnew, -⟩ |
    ⟨old, hold, hname, hkind, name, hnew, -⟩⟩
  · rw [hsame.1]
    exact grown_of_bare rfl
  · rw [hnew, hscopes]
    exact .cons (Scope.grewTo_insert scope _) rfl
  · rw [hnew, hscopes]
    have hsound := h.sound.scopes scope (by simp [hscopes])
    have hgrew := Scope.grewTo_substitute (s := { s with id := t.nextId + 1 }) hsound hold hname hkind
      t.nextId name
    exact .cons hgrew rfl

/-- An operation that leads from reachable tables to reachable ones, and lets the innermost scope
grow. -/
def Binds (t t' : SymbolTable) : Prop := t.Reachable → t'.Reachable ∧ Grown t.scopes t'.scopes

theorem binds_refl (t : SymbolTable) : Binds t t := fun h => ⟨h, grown_of_bare rfl⟩

theorem binds_trans (t t' t'' : SymbolTable) (h : Binds t t') (h' : Binds t' t'') :
    Binds t t'' := by
  intro hreach
  obtain ⟨hreach', hgrown⟩ := h hreach
  obtain ⟨hreach'', hgrown'⟩ := h' hreach'
  exact ⟨hreach'', hgrown.trans hgrown'⟩

theorem pushSymbol_binds (s : Symbol) : Keeps Binds (pushSymbol s) :=
  fun _ h => ⟨h.pushSymbol s, pushSymbol_grown h s⟩

end SymbolTable

end JavaSema
