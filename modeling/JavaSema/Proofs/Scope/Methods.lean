import JavaSema.Proofs.Scope.Representation

/-!
# Methods stay in the bodies of their classes

The method symbols of a class are bound in the body of the class and nowhere else.  An operation on a
symbol table keeps this, unless it binds a method.

There are three groups.

* Members.  `Symbol.IsMember` says that a symbol stands for a method or constructor of a class.
* Bodies.  `SymbolTable.HoldsBodies` says that each method symbol of an open scope stands for a member
  of the class whose body the scope is.  `HoldsBodies.pushSymbol` is the step, where one symbol is bound.
* Operations.  `KeepsBodies` holds of all operations that bind no methods.
-/

namespace JavaSema

/-! ## Members -/

/-- The method or constructor of the class that the reference names. -/
def ClassDef.memberAt? (c : ClassDef) : MemberRef → Option MethodDef
  | .method _ i => c.methods[i]?
  | .constructor _ i => c.constructors[i]?
  | .field _ _ => none

/-- The symbol stands for the method or constructor of the class. -/
structure Symbol.IsMember (u : Symbol) (c : ClassDef) (m : MethodDef) : Prop where
  /-- It has the name of the method. -/
  name : u.name = m.name
  /-- It has the parameters of the method. -/
  params : u.params = m.params
  /-- Its type says which member of the class it is. -/
  member : ∃ ref, u.type.member = some ref ∧ ref.owner = c.name ∧ c.memberAt? ref = some m

/-! ## Bodies -/

/-- The symbol, if it is a method under a plain name, stands for a member of the class whose body the
scope is.  Other names are those of placeholders. -/
def Scope.Admits (scope : Scope) (u : Symbol) : Prop :=
  u.kind = .method → IsPlain u.name → ∃ c m, scope.owner = some c.name ∧ u.IsMember c m

/-- Identities and members have nothing to do with it. -/
theorem Scope.Admits.of_eq {scope : Scope} {u u' : Symbol} (h : scope.Admits u)
    (hname : u'.name = u.name) (hkind : u'.kind = u.kind) (hparams : u'.params = u.params)
    (htype : u'.type = u.type) : scope.Admits u' := by
  intro hmethod hplain
  rw [hkind] at hmethod
  rw [hname] at hplain
  obtain ⟨c, m, howner, hmember⟩ := h hmethod hplain
  refine ⟨c, m, howner, hname.trans hmember.name, hparams.trans hmember.params, ?_⟩
  rw [htype]
  exact hmember.member

namespace SymbolTable

/-- Each open scope holds no other methods than members of the class whose body it is. -/
def HoldsBodies (t : SymbolTable) : Prop := ∀ scope ∈ t.scopes, ∀ u ∈ scope.index, scope.Admits u

theorem HoldsBodies.of_scopes {t t' : SymbolTable} (h : t.HoldsBodies)
    (hscopes : t'.scopes = t.scopes) : t'.HoldsBodies := by
  rw [HoldsBodies, hscopes]
  exact h

/-- A scope without symbols may be opened. -/
theorem HoldsBodies.push {t t' : SymbolTable} (h : t.HoldsBodies) {scope : Scope}
    (hempty : scope.index = []) (hscopes : t'.scopes = scope :: t.scopes) : t'.HoldsBodies := by
  rw [HoldsBodies, hscopes]
  refine List.forall_mem_cons.mpr ⟨?_, h⟩
  simp [hempty]

/-- The class whose body the innermost scope is. -/
def bodyOwner? (t : SymbolTable) : Option String := t.scopes.head?.bind Scope.owner

theorem bodyOwner?_pushSymbol (s : Symbol) (t : SymbolTable) :
    (exec (pushSymbol s) t).2.bodyOwner? = t.bodyOwner? := by
  rw [bodyOwner?, bodyOwner?]
  rcases pushSymbol_cases s t with hsame | ⟨scope, rest, hscopes, ⟨hnew, -⟩ | ⟨_, -, -, -, _, hnew, -⟩⟩
  · rw [hsame.1]
  · rw [hnew, hscopes]
    rfl
  · rw [hnew, hscopes]
    rfl

theorem bodyOwner?_bindSymbols {β : Type} (l : List β) (f : β → Symbol) (t : SymbolTable) :
    (exec (l.forM fun b => Analysis.bindSymbol (f b)) t).2.bodyOwner? = t.bodyOwner? := by
  have hall : Keeps (fun t t' : SymbolTable => t'.bodyOwner? = t.bodyOwner?)
      (l.forM fun b => Analysis.bindSymbol (f b)) := by
    apply Keeps.forM
    · exact fun _ => rfl
    · exact fun _ _ _ h h' => h'.trans h
    · exact fun b _ => Keeps.discard (bodyOwner?_pushSymbol (f b))
  exact hall t

/-- The step: a symbol that the innermost scope admits is bound. -/
theorem HoldsBodies.pushSymbol {t : SymbolTable} (h : t.HoldsBodies) {s : Symbol}
    (hs : ∀ scope ∈ t.scopes.head?, scope.Admits s) : (exec (pushSymbol s) t).2.HoldsBodies := by
  cases hresolved : s.type.unresolved with
  | true =>
    rw [exec_pushSymbol_unresolved hresolved]
    exact h
  | false =>
    cases hscopes : t.scopes with
    | nil =>
      rcases pushSymbol_cases s t with hsame | ⟨scope, rest, hcons, -⟩
      · exact h.of_scopes hsame.1
      · rw [hscopes] at hcons
        cases hcons
    | cons scope rest =>
      obtain ⟨log, htable⟩ := pushSymbol_table hresolved hscopes
      rw [HoldsBodies, hscopes] at h
      obtain ⟨hscope, hrest⟩ := List.forall_mem_cons.mp h
      have hadmits : scope.Admits s := hs scope (by simp [hscopes])
      have hnew : ∀ id, scope.Admits { s with id } := fun id => hadmits.of_eq rfl rfl rfl rfl
      rw [htable, HoldsBodies, SymbolTable.bound]
      cases hidden? scope s with
      | none =>
        refine List.forall_mem_cons.mpr ⟨?_, hrest⟩
        exact List.forall_mem_append.mpr ⟨hscope, List.forall_mem_singleton.mpr (hnew _)⟩
      | some old =>
        refine List.forall_mem_cons.mpr ⟨List.forall_mem_append.mpr ⟨?_, ?_⟩, hrest⟩
        · refine List.forall_mem_append.mpr ⟨fun u hu => hscope u (List.mem_filter.mp hu).1, ?_⟩
          rw [List.forall_mem_singleton]
          exact fun _ hplain => absurd hplain (not_isPlain_numbered _ _)
        · exact List.forall_mem_singleton.mpr (hnew _)

theorem HoldsBodies.attachMembers {t : SymbolTable} (h : t.HoldsBodies) (id : Nat) (members : Scope) :
    (t.attachMembers id members).HoldsBodies := by
  rw [HoldsBodies, attachMembers_scopes]
  intro scope hscope u hu
  obtain ⟨sc, hsc, rfl⟩ := List.mem_map.mp hscope
  obtain ⟨r, hr, rfl⟩ := List.mem_map.mp hu
  have hadmits : sc.Admits (attached id members r) := by
    unfold attached
    split
    · exact (h sc hsc r hr).of_eq rfl rfl rfl rfl
    · exact h sc hsc r hr
  exact hadmits

/-- A method of the class is bound in its body. -/
theorem HoldsBodies.pushMember {t : SymbolTable} (h : t.HoldsBodies) {s : Symbol} {c : ClassDef}
    (howner : t.bodyOwner? = some c.name) (hs : s.kind = .method → ∃ m, s.IsMember c m) :
    (exec (SymbolTable.pushSymbol s) t).2.HoldsBodies := by
  apply h.pushSymbol
  intro scope hscope hmethod _
  obtain ⟨m, hm⟩ := hs hmethod
  rw [bodyOwner?, hscope] at howner
  exact ⟨c, m, howner, hm⟩

/-! ## Operations -/

/-- The operation keeps methods in the bodies of their classes, also where it fails. -/
def KeepsBodies {α : Type} (op : TableM α) : Prop :=
  Keeps (fun t t' => t.HoldsBodies → t'.HoldsBodies) op

namespace KeepsBodies

variable {α β : Type}

theorem pure (a : α) : KeepsBodies (Pure.pure a : TableM α) := fun _ h => h

theorem bind {op : TableM α} {k : α → TableM β} (hop : KeepsBodies op) (hk : ∀ a, KeepsBodies (k a)) :
    KeepsBodies (op >>= k) :=
  Keeps.bind (fun _ _ _ h h' ht => h' (h ht)) hop hk

theorem discard {op : TableM α} (hop : KeepsBodies op) : KeepsBodies (Functor.discard op) :=
  Keeps.discard hop

theorem forM (l : List β) {f : β → TableM PUnit} (hf : ∀ b ∈ l, KeepsBodies (f b)) :
    KeepsBodies (l.forM f) :=
  Keeps.forM (fun _ h => h) (fun _ _ _ h h' ht => h' (h ht)) l hf

theorem pushScope (kind : ScopeKind) (observer : Option String) :
    KeepsBodies (pushScope kind observer) :=
  fun _ h => h.push rfl rfl

theorem pushClassScope (owner : String) (observer : Option String) :
    KeepsBodies (pushClassScope owner observer) :=
  fun _ h => h.push rfl rfl

theorem popScope : KeepsBodies popScope := by
  intro t h
  rw [HoldsBodies, (popScope_scopes t).1]
  exact fun scope hscope => h scope (List.mem_of_mem_tail hscope)

/-- Looking a symbol up. -/
theorem observed (event : Event) (found : SymbolTable → Option (Scope × Symbol)) :
    KeepsBodies (do observed event (found (← get))) := by
  intro t h
  rw [exec_bind_ok (exec_get _)]
  exact h.of_scopes (observed_keeps event (found t) t).1

theorem lookupForRead (name : String) (kind : SymbolKind) : KeepsBodies (lookupForRead name kind) :=
  observed .read fun t => locate? t.scopes name kind

theorem lookupForWrite (name : String) (kind : SymbolKind) : KeepsBodies (lookupForWrite name kind) :=
  observed .write fun t => locate? t.scopes name kind

theorem lookupMethodForRead (name : String) (params : List JType) :
    KeepsBodies (lookupMethodForRead name params) :=
  observed .read fun t => t.locateMethod? name params

theorem pushSymbol {s : Symbol} (hs : s.kind ≠ .method) : KeepsBodies (pushSymbol s) :=
  fun _ h => h.pushSymbol fun _ _ hmethod => absurd hmethod hs

theorem bindSymbol {s : Symbol} (hs : s.kind ≠ .method) : KeepsBodies (Analysis.bindSymbol s) :=
  (pushSymbol hs).discard

theorem bindTypeParams (params : List TypeParam) : KeepsBodies (Analysis.bindTypeParams params) :=
  forM params fun _ _ => bindSymbol nofun

end KeepsBodies

end SymbolTable

end JavaSema
