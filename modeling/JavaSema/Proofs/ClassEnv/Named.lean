import JavaSema.Analysis.State

/-!
# Classes under their own names

`ClassEnv.Named` says that whatever an environment finds has the name that was asked for.  Tables of
classes have the property, and layers and the classes of a unit in front of others keep it.
-/

namespace JavaSema

/-- Each class is found under its own name. -/
def ClassEnv.Named (env : ClassEnv) : Prop := ∀ name d, env.load name = .ok d → d.name = name

theorem ClassTable.named_toEnv (table : ClassTable) : table.toEnv.Named :=
  fun _ _ hload => name_of_get? (load_eq_ok.mp hload)

/-- What layers find was found by one of them. -/
theorem ClassEnv.named_layered {layers : List ClassEnv} (h : ∀ env ∈ layers, env.Named) :
    (ClassEnv.layered layers).Named := by
  intro name d hload
  obtain ⟨env, henv, hfound⟩ := ClassEnv.exists_of_loadFirst hload
  exact h env henv name d hfound

theorem Analysis.named_overlay {outside : ClassEnv} (h : outside.Named) (declared : ClassTable) :
    (overlay declared outside).Named := by
  intro name d hload
  cases hget : declared.get? name with
  | some c =>
    have hsame : Except.ok c = (Except.ok d : Except LoadError ClassDef) := by
      simpa [overlay, hget] using hload
    cases hsame
    exact ClassTable.name_of_get? hget
  | none => exact h name d (by simpa [overlay, hget] using hload)

end JavaSema
