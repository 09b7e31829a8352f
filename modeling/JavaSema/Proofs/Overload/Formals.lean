import JavaSema.Analysis.Creation
import JavaSema.Proofs.Overload.Ranking

/-!
# The parameters of candidates

Each candidate that overload resolution ranks names a parameter for each argument: it takes the arguments
as declared or with its last parameter spread, and has as many formal types as there are arguments
either way.
-/

namespace JavaSema

namespace CallSite

variable {env : ClassEnv} {refFits : RefTest} {site : CallSite}

theorem formals_of_tryForm {candidate : MethodCandidate} {formals : List JType} {isSpread : Bool}
    {a : Applicable} (h : site.tryForm env refFits candidate formals isSpread = some a) :
    a.formals = formals := by
  unfold tryForm at h
  simp only [Option.ite_none_right_eq_some, Option.some.injEq] at h
  rw [← h.2]

/-- The formal types of a candidate that takes the number of arguments match the arguments. -/
theorem length_of_tryCandidate {candidate : MethodCandidate} {a : Applicable}
    (hcount : takesCount candidate.definition site.args.length = true)
    (h : site.tryCandidate env refFits candidate = some a) :
    a.formals.length = site.args.length := by
  unfold tryCandidate at h
  rcases Option.or_eq_some_iff.mp h with h | ⟨-, h⟩
  · simp only [Option.ite_none_right_eq_some] at h
    rw [formals_of_tryForm h.2]
    exact h.1.symm
  · obtain ⟨component, hcomponent, h⟩ := Option.bind_eq_some_iff.mp h
    rw [formals_of_tryForm h, List.length_append, List.length_take, List.length_replicate]
    have hvarargs : candidate.definition.isVarargs = true := by
      unfold MethodDef.varargsComponent? at hcomponent
      simp only [Option.ite_none_right_eq_some] at hcomponent
      exact hcomponent.1
    simp only [takesCount, hvarargs, if_true, decide_eq_true_eq] at hcount
    have hfixed : candidate.definition.fixedArity ≤ candidate.definition.params.length := by
      rw [MethodDef.fixedArity, if_pos hvarargs]
      omega
    omega

/-- Each candidate that is ranked has a formal type for each argument. -/
theorem length_of_ranked {candidates : List MethodCandidate} {a : Applicable}
    (h : a ∈ site.ranked env candidates) : a.formals.length = site.args.length := by
  have hmem := (Applicable.ranked_perm env _).mem_iff.mp h
  obtain ⟨candidate, hcandidate, htry⟩ := List.mem_filterMap.mp hmem
  have hfilter := (List.mem_filter.mp hcandidate).2
  simp only [Bool.and_eq_true] at hfilter
  exact length_of_tryCandidate hfilter.2 htry

end CallSite

/-- What the expected type says of type variables leaves the formal types. -/
theorem Analysis.formals_of_aimAt {env : ClassEnv} {generic : JType} {expected : Option JType}
    {ranked : List Applicable} {a : Applicable} (h : a ∈ aimAt env generic expected ranked) :
    ∃ b ∈ ranked, a.formals = b.formals := by
  cases expected with
  | none => exact ⟨a, h, rfl⟩
  | some t =>
    obtain ⟨b, hb, rfl⟩ := List.mem_map.mp h
    exact ⟨b, hb, rfl⟩

end JavaSema
