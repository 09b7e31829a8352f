import Mathlib.Data.List.Perm.Basic

/-!
# Steps that do not depend on each other

Steps that are taken one after the other can be taken in any order if each of them sees only a part of
the state that the others leave as it is.

There are two groups.

* `Run` is a run of steps, and `Independent` is what has to be shown of the steps.
* A run in another order leads to a state in which each part is the same.
-/

namespace JavaSema

variable {ι S : Type}

/-- The steps lead from one state to another, one after the other. -/
def Run (step : ι → S → S → Prop) : List ι → S → S → Prop
  | [], s, t => t = s
  | i :: l, s, t => ∃ m, step i s m ∧ Run step l m t

/-- Each of the steps sees of the state no more than `same i` compares, and the others leave that. -/
structure Independent (steps : List ι) (same : ι → S → S → Prop) (step : ι → S → S → Prop) : Prop where
  symm : ∀ {i s t}, same i s t → same i t s
  trans : ∀ {i s t u}, same i s t → same i t u → same i s u
  /-- The step does the same to states that are the same for it. -/
  respects : ∀ {i}, i ∈ steps → ∀ {s s' t}, same i s s' → step i s t → ∃ t', step i s' t' ∧ same i t t'
  /-- The step leaves what another one sees. -/
  leaves : ∀ {i j}, i ∈ steps → j ∈ steps → i ≠ j → ∀ {s t}, same i s s → same j s s → step i s t →
    same j s t

namespace Independent

variable {steps : List ι} {same step : ι → S → S → Prop} (h : Independent steps same step)
  {s s' t : S}

include h

theorem self (hs : ∀ i ∈ steps, same i s s') : ∀ i ∈ steps, same i s s :=
  fun i hi => h.trans (hs i hi) (h.symm (hs i hi))

/-- One step, from states that are the same for all steps. -/
theorem step_respects {i : ι} (hi : i ∈ steps) (hs : ∀ j ∈ steps, same j s s') (hstep : step i s t) :
    ∃ t', step i s' t' ∧ ∀ j ∈ steps, same j t t' := by
  have hself := h.self hs
  have hself' := h.self fun j hj => h.symm (hs j hj)
  obtain ⟨t', hstep', ht⟩ := h.respects hi (hs i hi) hstep
  refine ⟨t', hstep', fun j hj => ?_⟩
  by_cases hij : i = j
  · exact hij ▸ ht
  · have hleft := h.leaves hi hj hij (hself i hi) (hself j hj) hstep
    have hright := h.leaves hi hj hij (hself' i hi) (hself' j hj) hstep'
    exact h.trans (h.symm hleft) (h.trans (hs j hj) hright)

/-- A run of the same steps. -/
theorem run_respects {l : List ι} (hl : ∀ i ∈ l, i ∈ steps) (hs : ∀ i ∈ steps, same i s s')
    (hrun : Run step l s t) : ∃ t', Run step l s' t' ∧ ∀ i ∈ steps, same i t t' := by
  induction l generalizing s s' with
  | nil =>
    obtain rfl : t = s := hrun
    exact ⟨s', rfl, hs⟩
  | cons i l ih =>
    obtain ⟨hi, hl⟩ := List.forall_mem_cons.mp hl
    obtain ⟨m, hfirst, hrest⟩ := hrun
    obtain ⟨m', hfirst', hm⟩ := h.step_respects hi hs hfirst
    obtain ⟨t', hrest', ht⟩ := ih hl hm hrest
    exact ⟨t', ⟨m', hfirst', hrest'⟩, ht⟩

/-- Two steps the other way round. -/
theorem step_swap {i j : ι} (hi : i ∈ steps) (hj : j ∈ steps) (hij : i ≠ j)
    (hs : ∀ k ∈ steps, same k s s) {m : S} (hfirst : step i s m) (hsecond : step j m t) :
    ∃ m' t', step j s m' ∧ step i m' t' ∧ ∀ k ∈ steps, same k t t' := by
  have hleft : ∀ k ∈ steps, k ≠ i → same k s m := fun k hk hne =>
    h.leaves hi hk hne.symm (hs i hi) (hs k hk) hfirst
  obtain ⟨m', hfirst', hm⟩ := h.respects hj (h.symm (hleft j hj hij.symm)) hsecond
  have hright : ∀ k ∈ steps, k ≠ j → same k s m' := fun k hk hne =>
    h.leaves hj hk hne.symm (hs j hj) (hs k hk) hfirst'
  obtain ⟨t', hsecond', ht⟩ := h.respects hi (hright i hi hij) hfirst
  have hselfm : ∀ k ∈ steps, same k m m := by
    obtain ⟨_, _, hsame⟩ := h.step_respects hi hs hfirst
    exact h.self hsame
  have hselfm' : ∀ k ∈ steps, same k m' m' := by
    obtain ⟨_, _, hsame⟩ := h.step_respects hj hs hfirst'
    exact h.self hsame
  have hlast : ∀ k ∈ steps, k ≠ j → same k m t := fun k hk hne =>
    h.leaves hj hk hne.symm (hselfm j hj) (hselfm k hk) hsecond
  have hlast' : ∀ k ∈ steps, k ≠ i → same k m' t' := fun k hk hne =>
    h.leaves hi hk hne.symm (hselfm' i hi) (hselfm' k hk) hsecond'
  refine ⟨m', t', hfirst', hsecond', fun k hk => ?_⟩
  by_cases hki : k = i
  · subst hki
    exact h.trans (h.symm (hlast k hk hij)) ht
  · by_cases hkj : k = j
    · subst hkj
      exact h.trans hm (hlast' k hk hki)
    · have hbefore := h.trans (hleft k hk hki) (hlast k hk hkj)
      exact h.trans (h.symm hbefore) (h.trans (hright k hk hkj) (hlast' k hk hki))

/-- A run of the steps in another order. -/
theorem run_perm {l l' : List ι} (hperm : l.Perm l') (hl : ∀ i ∈ l, i ∈ steps)
    (hs : ∀ i ∈ steps, same i s s') (hrun : Run step l s t) :
    ∃ t', Run step l' s' t' ∧ ∀ i ∈ steps, same i t t' := by
  induction hperm generalizing s s' t with
  | nil => exact h.run_respects hl hs hrun
  | cons i hperm ih =>
    obtain ⟨hi, hl⟩ := List.forall_mem_cons.mp hl
    obtain ⟨m, hfirst, hrest⟩ := hrun
    obtain ⟨m', hfirst', hm⟩ := h.step_respects hi hs hfirst
    obtain ⟨t', hrest', ht⟩ := ih hl hm hrest
    exact ⟨t', ⟨m', hfirst', hrest'⟩, ht⟩
  | swap i j l =>
    by_cases hij : j = i
    · subst hij
      exact h.run_respects hl hs hrun
    · obtain ⟨hj, hl⟩ := List.forall_mem_cons.mp hl
      obtain ⟨hi, hl⟩ := List.forall_mem_cons.mp hl
      obtain ⟨m, hfirst, n, hsecond, hrest⟩ := hrun
      have hmem : ∀ k ∈ i :: j :: l, k ∈ steps :=
        List.forall_mem_cons.mpr ⟨hi, List.forall_mem_cons.mpr ⟨hj, hl⟩⟩
      obtain ⟨m₁, n₁, hfirst₁, hsecond₁, hn⟩ := h.step_swap hj hi hij (h.self hs) hfirst hsecond
      obtain ⟨t₁, hrest₁, ht⟩ := h.run_respects hl hn hrest
      obtain ⟨t', hrun', ht'⟩ := h.run_respects hmem hs ⟨m₁, hfirst₁, n₁, hsecond₁, hrest₁⟩
      exact ⟨t', hrun', fun k hk => h.trans (ht k hk) (ht' k hk)⟩
  | trans hperm _ ih ih' =>
    obtain ⟨t₁, hrun₁, ht⟩ := ih hl hs hrun
    have hself := h.self fun k hk => h.symm (hs k hk)
    obtain ⟨t', hrun', ht'⟩ := ih' (fun i hi => hl i (hperm.mem_iff.mpr hi)) hself hrun₁
    exact ⟨t', hrun', fun k hk => h.trans (ht k hk) (ht' k hk)⟩

end Independent

end JavaSema
