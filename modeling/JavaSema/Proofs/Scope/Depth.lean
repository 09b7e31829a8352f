import JavaSema.Proofs.Scope.Reachable

/-!
# How many scopes are open

An operation on a symbol table opens a scope, closes one, or leaves as many open as there were, and it
does so also where it fails.
-/

namespace JavaSema.SymbolTable

variable {α : Type}

/-- The operation leaves as many scopes open. -/
def Level (op : TableM α) : Prop := Keeps (fun t t' => t'.depth = t.depth) op

theorem depth_pushScope (kind : ScopeKind) (observer : Option String) (t : SymbolTable) :
    (exec (pushScope kind observer) t).2.depth = t.depth + 1 := rfl

theorem depth_popScope (t : SymbolTable) : (exec popScope t).2.depth = t.depth - 1 := by
  rw [depth, (popScope_scopes t).1, List.length_tail]
  rfl

/-- Looking a symbol up. -/
theorem level_observed (event : Event) (found : SymbolTable → Option (Scope × Symbol)) :
    Level (do observed event (found (← get))) := by
  intro t
  rw [exec_bind_ok (exec_get _)]
  exact congrArg List.length (observed_keeps event (found t) t).1

theorem level_lookupForRead (name : String) (kind : SymbolKind) : Level (lookupForRead name kind) :=
  level_observed .read fun t => locate? t.scopes name kind

theorem level_lookupForWrite (name : String) (kind : SymbolKind) : Level (lookupForWrite name kind) :=
  level_observed .write fun t => locate? t.scopes name kind

theorem level_lookupMethodForRead (name : String) (params : List JType) :
    Level (lookupMethodForRead name params) :=
  level_observed .read fun t => t.locateMethod? name params

/-- Binding a symbol, which may hide another one. -/
theorem level_pushSymbol (s : Symbol) : Level (pushSymbol s) := by
  intro t
  rw [depth, depth]
  rcases pushSymbol_cases s t with hsame | ⟨scope, rest, hscopes, ⟨hnew, -⟩ | ⟨_, -, -, -, _, hnew, -⟩⟩
  · rw [hsame.1]
  · rw [hnew, hscopes, List.length_cons, List.length_cons]
  · rw [hnew, hscopes, List.length_cons, List.length_cons]

end JavaSema.SymbolTable
