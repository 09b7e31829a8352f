import JavaSema.Proofs.Scope.Uniform
import Mathlib.Data.List.Basic

/-!
# How scopes represent bindings

Each scope keeps its symbols twice, and a symbol that is bound again moves to a name that was made up
for it.  The two lists stay the same set of symbols, bindings of one name and kind stay apart, and the
names that are made up are new, as long as those that are bound contain no number sign.

There are four groups.

* Bindings.  `Symbol.sameBinding_iff` reads the test of bindings as equality of name, kind and erased
  parameters.
* Names.  `Numbered` describes the names that a table has given out, and `Numbered.ne_next` says that
  the next one is not among them.
* Runs.  `Run` records with a table what was bound in each of its open scopes.  `pushSymbol_table`
  says what binding a symbol does to a table, also where an observer rejects it.
* Representation.  `Scope.Represents.pushSymbol` is the step, `Run.represents` the run, and
  `bindings_distinct_and_rebinding_keeps` puts both together.
-/

namespace JavaSema

/-! ## Bindings -/

namespace Symbol

/-- Two symbols are bound alike if they have the same name and kind, and methods also the same erased
parameters. -/
theorem sameBinding_iff (r s : Symbol) :
    r.sameBinding s = true ↔ r.name = s.name ∧ r.kind = s.kind ∧
      (r.kind = .method → r.params.map JType.erasure = s.params.map JType.erasure) := by
  have hmethod : (r.kind != .method || MethodDef.sameErasures r.params s.params) = true ↔
      (r.kind = .method → r.params.map JType.erasure = s.params.map JType.erasure) := by
    rw [← MethodDef.sameErasures_iff]
    by_cases hkind : r.kind = .method <;> simp [hkind]
  simp only [sameBinding, Bool.and_eq_true, beq_iff_eq, and_assoc, hmethod]

theorem sameBinding_symm {r s : Symbol} (h : r.sameBinding s = true) : s.sameBinding r = true := by
  rw [sameBinding_iff] at h ⊢
  obtain ⟨hname, hkind, hparams⟩ := h
  exact ⟨hname.symm, hkind.symm, fun hmethod => (hparams (hkind.trans hmethod)).symm⟩

theorem sameBinding_trans {r s u : Symbol} (h : r.sameBinding s = true)
    (h' : s.sameBinding u = true) : r.sameBinding u = true := by
  rw [sameBinding_iff] at h h' ⊢
  obtain ⟨hname, hkind, hparams⟩ := h
  obtain ⟨hname', hkind', hparams'⟩ := h'
  refine ⟨hname.trans hname', hkind.trans hkind', ?_⟩
  intro hmethod
  exact (hparams hmethod).trans (hparams' (hkind.symm.trans hmethod))

/-- Being bound alike has nothing to do with identities and members. -/
theorem sameBinding_attached (id : Nat) (members : Scope) (r s : Symbol) :
    (SymbolTable.attached id members r).sameBinding (SymbolTable.attached id members s)
      = r.sameBinding s := by
  unfold SymbolTable.attached
  split <;> split <;> rfl

end Symbol

/-! ## Names -/

/-- The name contains no number sign, so that none was made up like it. -/
def IsPlain (name : String) : Prop := '#' ∉ name.toList

instance (name : String) : Decidable (IsPlain name) := inferInstanceAs (Decidable (_ ∉ _))

/-- The name is plain, or one that was made up for one of the first `n` placeholders of plain
names. -/
def Numbered (n : Nat) (name : String) : Prop :=
  IsPlain name ∨ ∃ base k, IsPlain base ∧ k ≤ n ∧ name = base ++ "#" ++ toString k

theorem Numbered.mono {n m : Nat} (hnm : n ≤ m) {name : String} (h : Numbered n name) :
    Numbered m name := by
  rcases h with h | ⟨base, k, hbase, hk, rfl⟩
  · exact .inl h
  · exact .inr ⟨base, k, hbase, Nat.le_trans hk hnm, rfl⟩

theorem toList_numbered (base : String) (n : Nat) :
    (base ++ "#" ++ toString n).toList = base.toList ++ '#' :: (toString n).toList := by
  simp [String.toList_append]

/-- A made up name is not plain. -/
theorem not_isPlain_numbered (base : String) (n : Nat) : ¬ IsPlain (base ++ "#" ++ toString n) := by
  rw [IsPlain, toList_numbered]
  simp

/-- Up to the number sign a made up name is the name that it was made from. -/
theorem takeWhile_numbered {base : String} (hbase : IsPlain base) (n : Nat) :
    (base ++ "#" ++ toString n).toList.takeWhile (· != '#') = base.toList := by
  have hall : ∀ c ∈ base.toList, (c != '#') = true := by
    intro c hc
    rw [bne_iff_ne]
    rintro rfl
    exact hbase hc
  rw [toList_numbered, List.takeWhile_append_of_pos hall]
  simp

/-- A made up name shows the name and the number that it was made from. -/
theorem numbered_inj {base base' : String} {m n : Nat} (hbase : IsPlain base)
    (hbase' : IsPlain base') (h : base ++ "#" ++ toString m = base' ++ "#" ++ toString n) :
    base = base' ∧ m = n := by
  have hsame : base.toList = base'.toList := by
    rw [← takeWhile_numbered hbase m, ← takeWhile_numbered hbase' n, h]
  obtain rfl := String.toList_inj.mp hsame
  have hlist := congrArg String.toList h
  rw [toList_numbered, toList_numbered, List.append_cancel_left_eq, List.cons.injEq] at hlist
  have hdigits := congrArg (fun ds => Nat.ofDigitChars 10 ds 0) hlist.2
  exact ⟨rfl, by simpa [Nat.toString_eq_ofList_toDigits] using hdigits⟩

/-- The next name that is made up was not given out before. -/
theorem Numbered.ne_next {n : Nat} {name base : String} (h : Numbered n name) (hbase : IsPlain base) :
    name ≠ base ++ "#" ++ toString (n + 1) := by
  rintro rfl
  rcases h with h | ⟨base', k, hbase', hk, hname⟩
  · exact not_isPlain_numbered base (n + 1) h
  · obtain ⟨-, rfl⟩ := numbered_inj hbase hbase' hname
    omega

namespace SymbolTable

/-! ## Runs -/

/-- The two tables differ in their logs only. -/
def Logs (t t' : SymbolTable) : Prop := ∃ log, t' = { t with log }

theorem logs_refl (t : SymbolTable) : Logs t t := ⟨t.log, rfl⟩

theorem logs_trans (t t' t'' : SymbolTable) (h : Logs t t') (h' : Logs t' t'') : Logs t t'' := by
  obtain ⟨_, rfl⟩ := h
  obtain ⟨log, rfl⟩ := h'
  exact ⟨log, rfl⟩

theorem tell_logs (event : Event) (symbol : Symbol) (observer : Option String) :
    Keeps Logs (tell event symbol observer) := by
  intro t
  cases observer with
  | none => exact logs_refl t
  | some observer =>
    rw [tell, exec_bind_ok (exec_modify _ _), exec_bind_ok (exec_get _)]
    split
    · exact ⟨_, rfl⟩
    · exact ⟨_, rfl⟩

theorem dispatch_logs (event : Event) (scope : Scope) (symbol : Symbol) :
    Keeps Logs (dispatch event scope symbol) := by
  refine .bind logs_trans logs_refl fun _ => ?_
  refine .bind logs_trans (tell_logs _ _ _) fun _ => ?_
  exact .bind logs_trans (tell_logs _ _ _) fun _ => tell_logs _ _ _

theorem observed_logs (event : Event) (found : Option (Scope × Symbol)) :
    Keeps Logs (observed event found) := by
  cases found with
  | none => exact .pure logs_refl _
  | some found => exact .bind logs_trans (dispatch_logs _ _ _) fun _ => .pure logs_refl _

/-- Closing a scope takes the innermost one off, whether or not the observers accept that. -/
theorem popScope_table (t : SymbolTable) :
    ∃ log, (exec popScope t).2 = { t with scopes := t.scopes.tail, log } := by
  cases hscopes : t.scopes with
  | nil =>
    rw [exec_popScope_nil hscopes, List.tail_nil, ← hscopes]
    exact ⟨t.log, rfl⟩
  | cons scope rest =>
    rw [popScope, exec_bind_ok (exec_get _), hscopes]
    have hleft : Keeps Logs (dispatchAll .pop scope scope.order) := by
      induction scope.order with
      | nil => exact .pure logs_refl _
      | cons s order ih => exact .bind logs_trans (dispatch_logs _ _ _) fun _ => ih
    have hkeeps : Keeps Logs (do dispatchAll .pop scope scope.order; return scope) :=
      .bind logs_trans hleft fun _ => .pure logs_refl _
    exact hkeeps { t with scopes := rest }

/-- A new symbol is told to be bound after its placeholder, if it has one. -/
theorem dispatchPush_logs (scope : Scope) (placeholder : Option Symbol) (s : Symbol) :
    Keeps Logs (do
      if let some p := placeholder then dispatch .push scope p
      dispatch .push scope s
      return s) := by
  have hlast : Keeps Logs (do dispatch .push scope s; return s) :=
    .bind logs_trans (dispatch_logs _ _ _) fun _ => .pure logs_refl _
  cases placeholder with
  | none => exact hlast
  | some p => exact .bind logs_trans (dispatch_logs _ _ _) fun _ => hlast

/-- What binding a symbol makes of a table with that innermost scope, be it accepted or not. -/
def bound (t : SymbolTable) (scope : Scope) (rest : List Scope) (s : Symbol) : SymbolTable :=
  match hidden? scope s with
  | none =>
    { t with scopes := scope.insert { s with id := t.nextId } :: rest, nextId := t.nextId + 1 }
  | some old =>
    { t with
      scopes := (scope.substitute old (t.nextPlaceholder old)).insert { s with id := t.nextId + 1 }
        :: rest
      fresh := t.fresh + 1
      nextId := t.nextId + 1 + 1 }

/-- Binding a symbol of a known type changes the table in one way, whatever observers say to it. -/
theorem pushSymbol_table {t : SymbolTable} {scope : Scope} {rest : List Scope} {s : Symbol}
    (hresolved : s.type.unresolved = false) (hscopes : t.scopes = scope :: rest) :
    Logs (t.bound scope rest s) (exec (pushSymbol s) t).2 := by
  rw [pushSymbol, hresolved]
  simp only [Bool.false_eq_true, if_false]
  rw [exec_bind_ok (exec_get _), hscopes]
  dsimp only
  unfold bound
  cases hhidden : hidden? scope s with
  | none =>
    have hshadow : exec (shadow scope s) t = (.ok (scope, none), t) := by
      rw [shadow, show List.find? _ _ = none from hhidden]
      rfl
    rw [exec_bind_ok hshadow, exec_bind_ok (exec_freshId _), exec_bind_ok (exec_setInnermost _ _)]
    dsimp only
    rw [hscopes, List.drop_succ_cons, List.drop_zero]
    exact dispatchPush_logs _ none _ _
  | some old =>
    have hshadow : exec (shadow scope s) t =
        (.ok (scope.substitute old (t.nextPlaceholder old), some (t.nextPlaceholder old)),
          { t with fresh := t.fresh + 1, nextId := t.nextId + 1 }) := by
      rw [shadow, show List.find? _ _ = some old from hhidden]
      rfl
    rw [exec_bind_ok hshadow, exec_bind_ok (exec_freshId _), exec_bind_ok (exec_setInnermost _ _)]
    dsimp only
    rw [hscopes, List.drop_succ_cons, List.drop_zero]
    exact dispatchPush_logs _ (some _) _ _

/-- Adds a symbol that was bound to those of the innermost scope. -/
def record : Except ResolveError Symbol → List (List Symbol) → List (List Symbol)
  | .ok s, bound :: outer => (bound ++ [s]) :: outer
  | _, bound => bound

/-- The tables that operations lead to when they bind no symbols but the allowed ones, each with the
symbols that were bound with success in its open scopes, innermost scope first. -/
inductive Run (allowed : Symbol → Prop) : SymbolTable → List (List Symbol) → Prop where
  /-- A table without scopes. -/
  | empty (observer : Option String) (rejects : Judge) :
      Run allowed { observer, rejects } []
  /-- A scope was opened. -/
  | pushScope {t : SymbolTable} {bound : List (List Symbol)} (h : Run allowed t bound)
      (kind : ScopeKind) (observer : Option String) :
      Run allowed (exec (pushScope kind observer) t).2 ([] :: bound)
  /-- The body of a class was opened. -/
  | pushClassScope {t : SymbolTable} {bound : List (List Symbol)} (h : Run allowed t bound)
      (owner : String) (observer : Option String) :
      Run allowed (exec (pushClassScope owner observer) t).2 ([] :: bound)
  /-- A scope was closed, or there was none. -/
  | popScope {t : SymbolTable} {bound : List (List Symbol)} (h : Run allowed t bound) :
      Run allowed (exec popScope t).2 bound.tail
  /-- A symbol was bound, or that failed. -/
  | pushSymbol {t : SymbolTable} {bound : List (List Symbol)} (h : Run allowed t bound) (s : Symbol)
      (hs : allowed s) : Run allowed (exec (pushSymbol s) t).2 (record (exec (pushSymbol s) t).1 bound)
  /-- A symbol was read or written. -/
  | observed {t : SymbolTable} {bound : List (List Symbol)} (h : Run allowed t bound) (event : Event)
      (found : Option (Scope × Symbol)) : Run allowed (exec (observed event found) t).2 bound
  /-- A type that is in scope was given its members. -/
  | attachMembers {t : SymbolTable} {bound : List (List Symbol)} (h : Run allowed t bound)
      (name : String) (s : Symbol) (hs : t.find? name .type = some s) (members : Scope) :
      Run allowed (t.attachMembers s.id members) bound

theorem Run.reachable {allowed : Symbol → Prop} {t : SymbolTable} {bound : List (List Symbol)}
    (h : Run allowed t bound) : t.Reachable := by
  induction h with
  | empty observer rejects => exact .empty observer rejects
  | pushScope _ kind observer ih => exact ih.pushScope kind observer
  | pushClassScope _ owner observer ih => exact ih.pushClassScope owner observer
  | popScope _ ih => exact ih.popScope
  | pushSymbol _ s _ ih => exact ih.pushSymbol s
  | observed _ event found ih => exact ih.observed event found
  | attachMembers _ name s hs members ih => exact ih.attachMembers name s hs members

end SymbolTable

/-! ## Representation -/

namespace Scope

/-- The replaced symbol's place holds the new one. -/
theorem getElem?_replaceIn_self {l : List Symbol} (hnodup : (l.map Symbol.id).Nodup) (new : Symbol)
    {i : Nat} {s : Symbol} (hs : l[i]? = some s) : (replaceIn s.id new l)[i]? = some new := by
  induction l generalizing i with
  | nil => simp at hs
  | cons r rest ih =>
    obtain ⟨hr, hnodup⟩ := List.nodup_cons.mp hnodup
    rw [replaceIn]
    cases i with
    | zero =>
      obtain rfl : r = s := by simpa using hs
      simp
    | succ i =>
      have hmem : s ∈ rest := List.mem_of_getElem? (by simpa using hs)
      have hid : r.id ≠ s.id := fun heq => hr (heq ▸ List.mem_map_of_mem hmem)
      simpa [hid] using ih hnodup (by simpa using hs)

/-- The names in the scope are plain or were made up for one of the first `n` placeholders, and no two
of its symbols are bound alike. -/
structure WellNamed (scope : Scope) (n : Nat) : Prop where
  /-- No other names are given. -/
  named : ∀ s ∈ scope.order, Numbered n s.name
  /-- No two symbols are bound alike. -/
  distinct : scope.order.Pairwise fun r s => r.sameBinding s = false

theorem WellNamed.mono {scope : Scope} {n m : Nat} (h : scope.WellNamed n) (hnm : n ≤ m) :
    scope.WellNamed m :=
  ⟨fun s hs => (h.named s hs).mono hnm, h.distinct⟩

/-- Two symbols that are bound alike are the same one. -/
theorem WellNamed.eq_of_sameBinding {scope : Scope} {n : Nat} (h : scope.WellNamed n) {r s : Symbol}
    (hr : r ∈ scope.order) (hs : s ∈ scope.order) (hsame : r.sameBinding s = true) : r = s := by
  by_contra hne
  have hsymm : Std.Symm fun r s : Symbol => r.sameBinding s = false :=
    ⟨fun r s hrs => Bool.eq_false_iff.mpr fun hsr =>
      absurd (Symbol.sameBinding_symm hsr) (by simp [hrs])⟩
  have hdistinct := h.distinct.forall hr hs hne
  simp [hsame] at hdistinct

theorem WellNamed.hidden?_eq_some {scope : Scope} {n k : Nat} (h : scope.WellNamed n)
    (hsound : scope.Sound k) {old s : Symbol} (hold : old ∈ scope.order)
    (hsame : old.sameBinding s = true) : SymbolTable.hidden? scope s = some old := by
  rw [SymbolTable.hidden?_eq]
  cases hfind : scope.index.find? fun r => r.sameBinding s with
  | none =>
    have hnone := List.find?_eq_none.mp hfind old (hsound.perm.mem_iff.mpr hold)
    simp [hsame] at hnone
  | some r =>
    have hr : r.sameBinding s = true := by simpa using List.find?_some hfind
    have hmem := hsound.mem_order (List.mem_of_find?_eq_some hfind)
    rw [h.eq_of_sameBinding hmem hold (Symbol.sameBinding_trans hr (Symbol.sameBinding_symm hsame))]

/-- A symbol that is bound like no other one may be added. -/
theorem WellNamed.insert {scope : Scope} {n : Nat} (h : scope.WellNamed n) {s : Symbol}
    (hs : Numbered n s.name) (hnew : ∀ r ∈ scope.order, r.sameBinding s = false) :
    (scope.insert s).WellNamed n := by
  constructor
  · intro r hr
    rcases List.mem_append.mp hr with hr | hr
    · exact h.named r hr
    · rw [List.mem_singleton.mp hr]
      exact hs
  · show (scope.order ++ [s]).Pairwise _
    rw [List.pairwise_append]
    refine ⟨h.distinct, List.pairwise_singleton _ _, ?_⟩
    intro r hr u hu
    rw [List.mem_singleton.mp hu]
    exact hnew r hr

/-- A placeholder under the next name may take the place of a symbol of a plain name. -/
theorem WellNamed.substitute {scope : Scope} {n k : Nat} (h : scope.WellNamed n)
    (hsound : scope.Sound k) {old : Symbol} (hold : old ∈ scope.index) (hplain : IsPlain old.name)
    (id : Nat) :
    (scope.substitute old (old.placeholder id (old.name ++ "#" ++ toString (n + 1)))).WellNamed
      (n + 1) := by
  constructor
  · intro s hs
    rcases hsound.mem_substitute hold hs with hs | rfl
    · exact (h.named s hs).mono (Nat.le_succ n)
    · exact .inr ⟨old.name, n + 1, hplain, Nat.le_refl _, rfl⟩
  · have hperm := replaceIn_perm scope.order
      (old.placeholder id (old.name ++ "#" ++ toString (n + 1))) (hsound.mem_order hold) hsound.nodup
    show (replaceIn _ _ _).Pairwise _
    rw [hperm.pairwise_iff fun {r s} hrs => Bool.eq_false_iff.mpr fun hsr =>
      absurd (Symbol.sameBinding_symm hsr) (by simp [hrs])]
    rw [List.pairwise_append]
    refine ⟨h.distinct.filter _, List.pairwise_singleton _ _, ?_⟩
    intro r hr u hu
    rw [List.mem_singleton.mp hu]
    have hname := (h.named r (List.mem_filter.mp hr).1).ne_next hplain
    rw [Bool.eq_false_iff, ne_eq, Symbol.sameBinding_iff]
    exact fun hsame => hname hsame.1

/-- After a symbol gave way to its placeholder, none is bound like the one that it gave way to. -/
theorem WellNamed.not_sameBinding_of_mem_substitute {scope : Scope} {n k : Nat}
    (h : scope.WellNamed n) (hsound : scope.Sound k) {old s : Symbol} (hold : old ∈ scope.index)
    (hsame : old.sameBinding s = true) (hplain : IsPlain s.name) (id m : Nat) :
    ∀ r ∈ (scope.substitute old (old.placeholder id (old.name ++ "#" ++ toString m))).order,
      r.sameBinding s = false := by
  intro r hr
  have hmem := hsound.mem_order hold
  have hr := (replaceIn_perm scope.order _ hmem hsound.nodup).mem_iff.mp hr
  rw [Bool.eq_false_iff]
  intro hrs
  rcases List.mem_append.mp hr with hr | hr
  · obtain ⟨hr, hid⟩ := List.mem_filter.mp hr
    have heq : r = old :=
      h.eq_of_sameBinding hr hmem (Symbol.sameBinding_trans hrs (Symbol.sameBinding_symm hsame))
    simp [heq] at hid
  · rw [List.mem_singleton.mp hr] at hrs
    have hname : old.name ++ "#" ++ toString m = s.name := ((Symbol.sameBinding_iff _ _).mp hrs).1
    exact not_isPlain_numbered old.name m (hname ▸ hplain)

end Scope

namespace SymbolTable

/-- Each open scope is well named. -/
def WellNamed (t : SymbolTable) : Prop := ∀ scope ∈ t.scopes, scope.WellNamed t.fresh

/-- One step: binding a symbol of a plain name keeps the scopes well named. -/
theorem WellNamed.bound {t : SymbolTable} (h : t.WellNamed) (hsound : t.Sound) {scope : Scope}
    {rest : List Scope} (hscopes : t.scopes = scope :: rest) {s : Symbol} (hplain : IsPlain s.name) :
    (t.bound scope rest s).WellNamed := by
  have hmem : scope ∈ t.scopes := by simp [hscopes]
  have hrest : ∀ sc ∈ rest, sc ∈ t.scopes := by simp +contextual [hscopes]
  have hscope := hsound.scopes scope hmem
  unfold SymbolTable.bound
  cases hhidden : hidden? scope s with
  | none =>
    intro sc hsc
    rcases List.mem_cons.mp hsc with rfl | hsc
    · refine (h scope hmem).insert (.inl hplain) ?_
      intro r hr
      rw [hidden?_eq, List.find?_eq_none] at hhidden
      have hnew := hhidden r (hscope.perm.mem_iff.mpr hr)
      exact Bool.eq_false_iff.mpr hnew
    · exact h sc (hrest sc hsc)
  | some old =>
    rw [hidden?_eq] at hhidden
    have hold := List.mem_of_find?_eq_some hhidden
    have hsame : old.sameBinding s = true := by simpa using List.find?_some hhidden
    have hname : old.name = s.name := ((Symbol.sameBinding_iff _ _).mp hsame).1
    intro sc hsc
    rcases List.mem_cons.mp hsc with rfl | hsc
    · refine ((h scope hmem).substitute hscope hold (hname ▸ hplain) _).insert (.inl hplain) ?_
      exact (h scope hmem).not_sameBinding_of_mem_substitute hscope hold hsame hplain _ _
    · exact (h sc (hrest sc hsc)).mono (Nat.le_succ _)

theorem WellNamed.logs {t t' : SymbolTable} (h : t.WellNamed) (hlogs : Logs t t') :
    t'.WellNamed := by
  obtain ⟨log, rfl⟩ := hlogs
  exact h

theorem WellNamed.pushSymbol {t : SymbolTable} (h : t.WellNamed) (hsound : t.Sound) {s : Symbol}
    (hplain : IsPlain s.name) : (exec (pushSymbol s) t).2.WellNamed := by
  cases hresolved : s.type.unresolved with
  | true =>
    rw [exec_pushSymbol_unresolved hresolved]
    exact h
  | false =>
    cases hscopes : t.scopes with
    | nil =>
      rw [exec_pushSymbol_nil hresolved hscopes]
      exact h
    | cons scope rest =>
      exact (h.bound hsound hscopes hplain).logs (pushSymbol_table hresolved hscopes)

theorem WellNamed.attachMembers {t : SymbolTable} (h : t.WellNamed) (id : Nat) (members : Scope) :
    (t.attachMembers id members).WellNamed := by
  intro sc hsc
  rw [attachMembers_scopes] at hsc
  obtain ⟨scope, hscope, rfl⟩ := List.mem_map.mp hsc
  constructor
  · intro s hs
    obtain ⟨r, hr, rfl⟩ := List.mem_map.mp hs
    have hname : (attached id members r).name = r.name := by
      unfold attached
      split <;> rfl
    rw [hname]
    exact (h scope hscope).named r hr
  · rw [List.pairwise_map]
    refine (h scope hscope).distinct.imp ?_
    intro r s hrs
    rwa [Symbol.sameBinding_attached]

/-- The run: where only plain names are bound, all scopes are well named. -/
theorem Run.wellNamed {t : SymbolTable} {bound : List (List Symbol)}
    (h : Run (fun s => IsPlain s.name) t bound) : t.WellNamed := by
  have hopen : ∀ {t : SymbolTable}, t.WellNamed → ∀ (kind : ScopeKind) (owner observer : Option String),
      SymbolTable.WellNamed { t with scopes := { kind, owner, observer } :: t.scopes } := by
    intro t ht kind owner observer scope hscope
    rcases List.mem_cons.mp hscope with rfl | hscope
    · exact ⟨by simp, .nil⟩
    · exact ht scope hscope
  induction h with
  | empty observer rejects => exact fun _ hscope => by cases hscope
  | pushScope _ kind observer ih => exact hopen ih kind none observer
  | pushClassScope _ owner observer ih => exact hopen ih .classBody (some owner) observer
  | @popScope t _ _ ih =>
    obtain ⟨log, htable⟩ := popScope_table t
    rw [htable]
    exact fun scope hscope => ih scope (List.mem_of_mem_tail hscope)
  | pushSymbol hrun s hs ih => exact ih.pushSymbol hrun.reachable.sound hs
  | observed _ event found ih => exact ih.logs (observed_logs event found _)
  | attachMembers _ name s _ members ih => exact ih.attachMembers s.id members

/-- Where only names without a number sign are bound, the two lists of each scope hold the same
symbols, each once.  No two of them have the same name and kind, unless they are methods with
different erased parameters.

A symbol that is bound again keeps its place, its type, kind, parameters and location under a name
that no symbol of any open scope had, whether or not the observers accept what happens. -/
theorem bindings_distinct_and_rebinding_keeps {t : SymbolTable} {bound : List (List Symbol)}
    (h : Run (fun s => IsPlain s.name) t bound) :
    (∀ scope ∈ t.scopes, scope.index.Perm scope.order ∧ (scope.order.map Symbol.id).Nodup ∧
        scope.order.Pairwise fun r s => r.name = s.name → r.kind = s.kind →
          r.kind = .method ∧ r.params.map JType.erasure ≠ s.params.map JType.erasure) ∧
      ∀ (scope : Scope) (rest : List Scope) (i : Nat) (old s : Symbol), t.scopes = scope :: rest →
        scope.order[i]? = some old → IsPlain s.name → s.type.unresolved = false →
        old.sameBinding s = true →
        ∃ scope' p, (exec (pushSymbol s) t).2.scopes = scope' :: rest ∧
          scope'.order[i]? = some p ∧ p ∈ scope'.get p.name ∧
          p.type = old.type ∧ p.kind = old.kind ∧ p.params = old.params ∧
          p.location = old.location ∧ p.shadows = some old.name ∧
          ∀ sc ∈ t.scopes, ∀ r ∈ sc.order, r.name ≠ p.name := by
  have hnamed := h.wellNamed
  have hsound := h.reachable.sound
  refine ⟨?_, ?_⟩
  · intro scope hscope
    refine ⟨(hsound.scopes scope hscope).perm, (hsound.scopes scope hscope).nodup, ?_⟩
    refine (hnamed scope hscope).distinct.imp ?_
    intro r s hrs hname hkind
    rw [Bool.eq_false_iff, ne_eq, Symbol.sameBinding_iff] at hrs
    by_contra hparams
    exact hrs ⟨hname, hkind, fun hmethod => not_not.mp fun hne => hparams ⟨hmethod, hne⟩⟩
  · intro scope rest i old s hscopes hi hplain hresolved hsame
    have hmem : scope ∈ t.scopes := by simp [hscopes]
    have hscope := hsound.scopes scope hmem
    have hold := List.mem_of_getElem? hi
    have hname : old.name = s.name := ((Symbol.sameBinding_iff _ _).mp hsame).1
    have hhidden := (hnamed scope hmem).hidden?_eq_some hscope hold hsame
    obtain ⟨log, htable⟩ := pushSymbol_table hresolved hscopes
    have hplace : (Scope.replaceIn old.id (t.nextPlaceholder old) scope.order)[i]?
        = some (t.nextPlaceholder old) := Scope.getElem?_replaceIn_self hscope.nodup _ hi
    refine ⟨(scope.substitute old (t.nextPlaceholder old)).insert { s with id := t.nextId + 1 },
      t.nextPlaceholder old, ?_, ?_, ?_, rfl, rfl, rfl, rfl, rfl, ?_⟩
    · rw [htable, SymbolTable.bound, hhidden]
    · obtain ⟨hlt, -⟩ := List.getElem?_eq_some_iff.mp hplace
      show (Scope.replaceIn _ _ _ ++ _)[i]? = _
      rw [List.getElem?_append_left hlt]
      exact hplace
    · simp [Scope.get, Scope.insert, Scope.substitute]
    · intro sc hsc r hr
      exact ((hnamed sc hsc).named r hr).ne_next (hname ▸ hplain)

/-- The body of a class with a variable and two methods of one name. -/
def overloaded : SymbolTable :=
  let value := (exec (pushSymbol { name := "a", kind := .var, type := .primitive .int })
    (exec (pushClassScope "C" none) {}).2).2
  let method := (exec (pushSymbol (.ofMethod "a" .void [])) value).2
  (exec (pushSymbol (.ofMethod "a" .void [.string])) method).2

/-- The method without parameters is bound again and keeps its place under a new name. -/
theorem overloaded_rebound :
    ∃ bound scope rest old, Run (fun s => IsPlain s.name) overloaded bound ∧
      overloaded.scopes = scope :: rest ∧ scope.order[1]? = some old ∧ IsPlain "a" ∧
      JType.string.unresolved = false ∧ old.sameBinding (.ofMethod "a" .string []) = true ∧
      ∃ scope' p, (exec (pushSymbol (.ofMethod "a" .string [])) overloaded).2.scopes
          = scope' :: rest ∧ scope'.order[1]? = some p ∧ p.type = old.type ∧
        p.shadows = some "a" ∧ ∀ r ∈ scope.order, r.name ≠ p.name := by
  have hplain : IsPlain "a" := by decide
  have hrun : ∃ bound, Run (fun s => IsPlain s.name) overloaded bound :=
    ⟨_, ((((Run.empty none _).pushClassScope "C" none).pushSymbol _ hplain).pushSymbol _
      hplain).pushSymbol _ hplain⟩
  obtain ⟨bound, hrun⟩ := hrun
  obtain ⟨scope', p, hscopes, hp, -, htype, -, -, -, hshadows, hfresh⟩ :=
    (bindings_distinct_and_rebinding_keeps hrun).2 _ [] 1 _ (.ofMethod "a" .string []) rfl rfl hplain
      rfl (by decide)
  exact ⟨bound, _, [], _, hrun, rfl, rfl, hplain, rfl, by decide, scope', p, hscopes, hp, htype,
    hshadows, fun r hr => hfresh _ List.mem_cons_self r hr⟩

end SymbolTable

end JavaSema
