import JavaSema.Scope.Table

/-!
# Running steps

Both the operations on a symbol table and the steps of an analysis work on a state, and keep what they
did to it when they fail.

There are two groups.

* `exec` runs a step from a state and gives its outcome together with the state that it leaves.
* `Keeps` says that each run of a step stays inside a relation between states, whatever its outcome.
-/

namespace JavaSema

variable {ε σ α β : Type}

/-- The outcome of a step from a state, and the state that it leaves. -/
def exec (m : ExceptT ε (StateM σ) α) (s : σ) : Except ε α × σ := m.run.run s

@[simp] theorem exec_get (s : σ) : exec (get : ExceptT ε (StateM σ) σ) s = (.ok s, s) := rfl

@[simp] theorem exec_modify (f : σ → σ) (s : σ) :
    exec (modify f : ExceptT ε (StateM σ) PUnit) s = (.ok ⟨⟩, f s) := rfl

theorem exec_bind (m : ExceptT ε (StateM σ) α) (f : α → ExceptT ε (StateM σ) β) (s : σ) :
    exec (m >>= f) s =
      match exec m s with
      | (.ok a, s') => exec (f a) s'
      | (.error e, s') => (.error e, s') := by
  unfold exec
  rw [ExceptT.run_bind, StateT.run_bind]
  rcases m.run.run s with ⟨_ | a, s'⟩ <;> rfl

/-- The second step runs where the first one succeeded. -/
theorem exec_bind_ok {m : ExceptT ε (StateM σ) α} {f : α → ExceptT ε (StateM σ) β} {s s' : σ}
    {a : α} (h : exec m s = (.ok a, s')) : exec (m >>= f) s = exec (f a) s' := by
  rw [exec_bind, h]

/-- The second step does not run where the first one failed. -/
theorem exec_bind_error {m : ExceptT ε (StateM σ) α} {f : α → ExceptT ε (StateM σ) β} {s s' : σ}
    {e : ε} (h : exec m s = (.error e, s')) : exec (m >>= f) s = (.error e, s') := by
  rw [exec_bind, h]

/-- Both steps of a sequence that succeeds succeed. -/
theorem ok_of_exec_bind {m : ExceptT ε (StateM σ) α} {f : α → ExceptT ε (StateM σ) β} {s s' : σ}
    {b : β} (h : exec (m >>= f) s = (.ok b, s')) :
    ∃ a t, exec m s = (.ok a, t) ∧ exec (f a) t = (.ok b, s') := by
  rw [exec_bind] at h
  rcases hrun : exec m s with ⟨e | a, t⟩
  · rw [hrun] at h
    cases h
  · rw [hrun] at h
    exact ⟨a, t, rfl, h⟩

/-- The second step runs from where the first one ended. -/
theorem run_bind_eq {m : StateM σ α} {f : α → StateM σ β} {s s' : σ} {a : α}
    (h : m.run s = (a, s')) : (m >>= f).run s = (f a).run s' := by
  rw [StateT.run_bind, h]
  rfl

theorem run_get_eq (s : σ) : (get : StateM σ σ).run s = (s, s) := rfl

/-! ## Relations that runs stay inside -/

/-- Each run of the step relates the state before it to the one after it. -/
def Keeps (R : σ → σ → Prop) (m : ExceptT ε (StateM σ) α) : Prop := ∀ s, R s (exec m s).2

namespace Keeps

variable {R : σ → σ → Prop}

theorem pure (hrefl : ∀ s, R s s) (a : α) : Keeps R (Pure.pure a : ExceptT ε (StateM σ) α) := hrefl

theorem bind (htrans : ∀ a b c, R a b → R b c → R a c) {m : ExceptT ε (StateM σ) α}
    {f : α → ExceptT ε (StateM σ) β} (hm : Keeps R m) (hf : ∀ a, Keeps R (f a)) :
    Keeps R (m >>= f) := by
  intro s
  have hfirst := hm s
  rcases hrun : exec m s with ⟨_ | a, s'⟩
  · rw [exec_bind_error hrun]
    rwa [hrun] at hfirst
  · rw [exec_bind_ok hrun]
    rw [hrun] at hfirst
    exact htrans _ _ _ hfirst (hf a s')

theorem discard {m : ExceptT ε (StateM σ) α} (hm : Keeps R m) : Keeps R (Functor.discard m) := by
  intro s
  show R s (exec ((fun _ => PUnit.unit) <$> m) s).2
  rw [map_eq_pure_bind, exec_bind]
  have hkept := hm s
  rcases hrun : exec m s with ⟨_ | a, s'⟩
  · rwa [hrun] at hkept
  · rwa [hrun] at hkept

theorem forM (hrefl : ∀ s, R s s) (htrans : ∀ a b c, R a b → R b c → R a c) (l : List β)
    {f : β → ExceptT ε (StateM σ) PUnit} (hf : ∀ b ∈ l, Keeps R (f b)) : Keeps R (l.forM f) := by
  induction l with
  | nil => exact pure hrefl _
  | cons b l ih =>
    refine bind htrans (hf b List.mem_cons_self) fun _ => ih fun c hc => hf c ?_
    exact List.mem_cons_of_mem _ hc

end Keeps

end JavaSema
