import JavaSema.Proofs.Hierarchy.Supertype
import JavaSema.Proofs.Hierarchy.Unread

/-!
# The order in which a walk comes to classes

The walk over the supertypes of a type comes to each class once.  Where all supertypes are class types it
goes by distance: a class to which fewer steps lead comes before one to which more are needed.

There are three groups.

* Names.  `walkNames` are the classes of a walk in order, and `MeetsBefore` compares two of them.
* Distance.  `within` are the names that so many steps lead to.  `Frontier` is the state of a walk that
  has come to all names within fewer than `n` steps, `Frontier.step` goes on to the next name, and
  `reachFrom_nearestFirst` runs the walk from there.
* The walk over types.  `meetsBefore_of_nearer` says that nearer classes come first.
-/

namespace JavaSema.ClassEnv

variable {env : ClassEnv} {next : ClassDef → List String}

/-! ## Names -/

/-- The names of the classes that the walk over the supertypes of the type comes to, in order. -/
def walkNames (env : ClassEnv) (t : JType) : List String :=
  (env.closure t).map fun i => i.definition.name

/-- The walk over the supertypes of the type comes to the class `a` before the class `b`. -/
def MeetsBefore (env : ClassEnv) (t : JType) (a b : String) : Prop := [a, b].Sublist (env.walkNames t)

instance (env : ClassEnv) (t : JType) (a b : String) : Decidable (env.MeetsBefore t a b) :=
  inferInstanceAs (Decidable ([a, b].Sublist (env.walkNames t)))

/-- A walk over types comes to loadable classes that it has not seen. -/
theorem closureFrom_unseen (budget : Nat) {seen : List String} {queue : List JType} {i : Instantiation}
    (h : i ∈ env.closureFrom budget seen queue) :
    i.type.name ∉ seen ∧ env.find? i.type.name = some i.definition := by
  induction budget generalizing seen queue with
  | zero => simp [closureFrom] at h
  | succ budget ih =>
    rw [closureFrom] at h
    cases hsettle : env.settle seen queue with
    | none => simp [hsettle] at h
    | some found =>
      obtain ⟨t, d, rest⟩ := found
      obtain ⟨hseen, hd, -⟩ := settle_some hsettle
      simp only [hsettle, List.mem_cons] at h
      rcases h with rfl | h
      · exact ⟨hseen, hd⟩
      · have := ih h
        simp only [List.mem_cons, not_or] at this
        exact ⟨this.1.2, this.2⟩

/-- A walk over types comes to each class once. -/
theorem nodup_closureFrom (budget : Nat) (seen : List String) (queue : List JType) :
    ((env.closureFrom budget seen queue).map fun i => i.type.name).Nodup := by
  induction budget generalizing seen queue with
  | zero => simp [closureFrom]
  | succ budget ih =>
    rw [closureFrom]
    cases hsettle : env.settle seen queue with
    | none => simp
    | some found =>
      obtain ⟨t, d, rest⟩ := found
      dsimp only
      rw [List.map_cons, List.nodup_cons]
      refine ⟨fun hmem => ?_, ih _ _⟩
      obtain ⟨i, hi, hname⟩ := List.mem_map.mp hmem
      apply (closureFrom_unseen budget hi).1
      rw [hname]
      exact List.mem_cons_self

/-- Where classes have the names under which they are found, a walk names each of them once. -/
theorem nodup_walkNames (hnamed : ∀ name d, env.find? name = some d → d.name = name) (t : JType) :
    (env.walkNames t).Nodup := by
  have hnames : env.walkNames t = (env.closure t).map fun i => i.type.name := by
    apply List.map_congr_left
    intro i hi
    exact hnamed _ _ (closureFrom_unseen _ hi).2
  rw [hnames]
  exact nodup_closureFrom _ _ _

/-- Of two names in a list the one stands before the other. -/
theorem pair_sublist_or {l : List String} {a b : String} (ha : a ∈ l) (hb : b ∈ l) (hne : a ≠ b) :
    [a, b].Sublist l ∨ [b, a].Sublist l := by
  induction l with
  | nil => cases ha
  | cons c l ih =>
    rcases List.mem_cons.mp ha with rfl | ha'
    · left
      rcases List.mem_cons.mp hb with rfl | hb'
      · exact absurd rfl hne
      · exact (List.singleton_sublist.mpr hb').cons_cons _
    · rcases List.mem_cons.mp hb with rfl | hb'
      · right
        exact (List.singleton_sublist.mpr ha').cons_cons _
      · exact (ih ha' hb').imp (List.Sublist.cons _) (List.Sublist.cons _)

/-! ## Distance -/

/-- The names to which at most so many steps up lead from the names of the list. -/
def within (env : ClassEnv) (next : ClassDef → List String) (start : List String) : Nat → List String
  | 0 => start
  | n + 1 =>
    within env next start n ++ (within env next start n).flatMap fun name =>
      match env.find? name with
      | none => []
      | some d => next d

variable {start : List String}

theorem mem_within_succ {n : Nat} {name : String} :
    name ∈ env.within next start (n + 1) ↔
      name ∈ env.within next start n ∨ ∃ c ∈ env.within next start n, env.Step next c name := by
  rw [within, List.mem_append, List.mem_flatMap]
  apply or_congr Iff.rfl
  constructor
  · rintro ⟨c, hc, hname⟩
    cases hd : env.find? c with
    | none => simp [hd] at hname
    | some d => exact ⟨c, hc, d, hd, by simpa [hd] using hname⟩
  · rintro ⟨c, hc, d, hd, hname⟩
    exact ⟨c, hc, by simpa [hd] using hname⟩

theorem within_mono {m n : Nat} (h : m ≤ n) : env.within next start m ⊆ env.within next start n := by
  induction h with
  | refl => exact fun _ hname => hname
  | step _ ih => exact fun _ hname => mem_within_succ.mpr (.inl (ih hname))

/-- Nothing is left to do for the name: it was seen, or cannot be loaded. -/
def Settled (env : ClassEnv) (seen : List String) (name : String) : Prop :=
  name ∈ seen ∨ env.find? name = none

/-- The state of a walk that has come to all that fewer than `n` steps lead to.  The queue is first what is
left of the names within `n` steps, and then those that come one step later. -/
structure Frontier (env : ClassEnv) (next : ClassDef → List String) (start : List String) (n : Nat)
    (seen near far : List String) : Prop where
  /-- What is within fewer steps is settled. -/
  done : ∀ m < n, ∀ name ∈ env.within next start m, env.Settled seen name
  /-- What is within `n` steps is settled or in the queue. -/
  current : ∀ name ∈ env.within next start n, env.Settled seen name ∨ name ∈ near
  /-- The first part of the queue is within `n` steps. -/
  near_within : ∀ name ∈ near, name ∈ env.within next start n
  /-- The second part needs at most one step more. -/
  far_within : ∀ name ∈ far, name ∈ env.within next start (n + 1)
  /-- What the seen classes lead to is settled or in the queue. -/
  covered : ∀ c ∈ seen, ∀ name, env.Step next c name →
    env.Settled seen name ∨ name ∈ near ∨ name ∈ far

theorem frontier_start (env : ClassEnv) (next : ClassDef → List String) (start : List String) :
    env.Frontier next start 0 [] start [] where
  done m hm := absurd hm (Nat.not_lt_zero m)
  current _ hname := .inr hname
  near_within _ hname := hname
  far_within _ hname := by cases hname
  covered _ hc := by cases hc

variable {n : Nat} {seen near far : List String}

/-- When the first part of the queue is settled, the walk goes on to the next distance. -/
theorem Frontier.advance (h : env.Frontier next start n seen near far)
    (hnear : ∀ name ∈ near, env.Settled seen name) : env.Frontier next start (n + 1) seen far [] := by
  have hall : ∀ name ∈ env.within next start n, env.Settled seen name := fun name hname =>
    (h.current name hname).elim id (hnear name)
  have hcovered : ∀ c ∈ seen, ∀ name, env.Step next c name → env.Settled seen name ∨ name ∈ far := by
    intro c hc name hstep
    rcases h.covered c hc name hstep with hname | hname | hname
    · exact .inl hname
    · exact .inl (hnear name hname)
    · exact .inr hname
  constructor
  · intro m hm name hname
    exact hall name (within_mono (Nat.le_of_lt_succ hm) hname)
  · intro name hname
    rcases mem_within_succ.mp hname with hname | ⟨c, hc, hstep⟩
    · exact .inl (hall name hname)
    · have hseen : c ∈ seen := by
        obtain ⟨d, hd, -⟩ := hstep
        exact (hall c hc).resolve_right (by simp [hd])
      exact hcovered c hseen name hstep
  · exact h.far_within
  · intro name hname
    cases hname
  · intro c hc name hstep
    exact (hcovered c hc name hstep).imp_right .inl

/-- The walk comes to the first name of the queue that is not settled. -/
theorem Frontier.visit {skipped : List String} {name : String} {d : ClassDef}
    (h : env.Frontier next start n seen (skipped ++ name :: near) far)
    (hskipped : ∀ m ∈ skipped, env.Settled seen m) (hd : env.find? name = some d) :
    env.Frontier next start n (name :: seen) near (far ++ next d) := by
  have hmono : ∀ m, env.Settled seen m → env.Settled (name :: seen) m := fun m hm =>
    hm.imp_left (List.mem_cons_of_mem _)
  have hleft : ∀ m ∈ skipped ++ name :: near, env.Settled (name :: seen) m ∨ m ∈ near := by
    intro m hm
    rcases List.mem_append.mp hm with hm | hm
    · exact .inl (hmono m (hskipped m hm))
    · rcases List.mem_cons.mp hm with rfl | hm
      · exact .inl (.inl List.mem_cons_self)
      · exact .inr hm
  constructor
  · intro k hk m hm
    exact hmono m (h.done k hk m hm)
  · intro m hm
    rcases h.current m hm with hm | hm
    · exact .inl (hmono m hm)
    · exact hleft m hm
  · intro m hm
    exact h.near_within m (by simp [hm])
  · intro m hm
    rcases List.mem_append.mp hm with hm | hm
    · exact h.far_within m hm
    · exact mem_within_succ.mpr (.inr ⟨name, h.near_within name (by simp), d, hd, hm⟩)
  · intro c hc m hstep
    rcases List.mem_cons.mp hc with rfl | hc
    · obtain ⟨d', hd', hm⟩ := hstep
      rw [hd] at hd'
      cases hd'
      exact .inr (.inr (List.mem_append_right _ hm))
    · rcases h.covered c hc m hstep with hm | hm | hm
      · exact .inl (hmono m hm)
      · exact (hleft m hm).imp_right .inl
      · exact .inr (.inr (List.mem_append_left _ hm))

/-- One step of the walk: it comes to the first name of the queue that is not settled, at this distance or
the next one. -/
theorem Frontier.step {skipped rest : List String} {name : String} {d : ClassDef}
    (h : env.Frontier next start n seen near far) (hqueue : near ++ far = skipped ++ name :: rest)
    (hskipped : ∀ m ∈ skipped, env.Settled seen m) (hd : env.find? name = some d) :
    ∃ m near' far', rest ++ next d = near' ++ far' ∧ name ∈ env.within next start m ∧
      env.Frontier next start m (name :: seen) near' far' := by
  -- where nothing is left at this distance, the name is found at the next one
  have hnext : ∀ passed, skipped = near ++ passed → far = passed ++ name :: rest →
      ∃ m near' far', rest ++ next d = near' ++ far' ∧ name ∈ env.within next start m ∧
        env.Frontier next start m (name :: seen) near' far' := by
    rintro passed rfl rfl
    have hahead := h.advance fun m hm => hskipped m (List.mem_append_left _ hm)
    have hvisited := hahead.visit (fun m hm => hskipped m (List.mem_append_right _ hm)) hd
    exact ⟨n + 1, rest, [] ++ next d, rfl, hahead.near_within name (by simp), hvisited⟩
  rcases List.append_eq_append_iff.mp hqueue with ⟨passed, hs, hf⟩ | ⟨left, hn, hrest⟩
  · exact hnext passed hs hf
  · cases left with
    | nil => exact hnext [] (by simpa using hn.symm) (by simpa using hrest.symm)
    | cons c left =>
      obtain ⟨rfl, rfl⟩ : name = c ∧ rest = left ++ far := by simpa using hrest
      subst hn
      exact ⟨n, left, far ++ next d, by simp, h.near_within name (by simp), h.visit hskipped hd⟩

/-- A walk by name comes to classes that it has not seen. -/
theorem reachFrom_unseen (hnamed : ∀ name d, env.find? name = some d → d.name = name) (budget : Nat)
    {seen queue : List String} {d : ClassDef} (h : d ∈ env.reachFrom next budget seen queue) :
    ¬ env.Settled seen d.name := by
  induction budget generalizing seen queue with
  | zero => simp [reachFrom] at h
  | succ budget ih =>
    rw [reachFrom] at h
    rcases queue_cases env seen queue with ⟨hnil, -⟩ | ⟨_, name, rest, c, -, hdrop, -, hseen, hc⟩
    · rw [hnil] at h
      cases h
    · simp only [hdrop, hc, List.mem_cons] at h
      rcases h with rfl | h
      · rw [hnamed name d hc]
        simp [Settled, hseen, hc]
      · exact fun hsettled => ih h (hsettled.imp_left (List.mem_cons_of_mem _))

/-- The walk comes to nearer classes first: what leads to a class leads to those before it. -/
theorem reachFrom_nearestFirst (hnamed : ∀ name d, env.find? name = some d → d.name = name)
    (budget : Nat) (h : env.Frontier next start n seen near far) :
    (env.reachFrom next budget seen (near ++ far)).Pairwise fun c d =>
      ∀ m, d.name ∈ env.within next start m → c.name ∈ env.within next start m := by
  induction budget generalizing n seen near far with
  | zero => simp [reachFrom]
  | succ budget ih =>
    rw [reachFrom]
    rcases queue_cases env seen (near ++ far) with ⟨hnil, -⟩ |
      ⟨skipped, name, rest, d, hqueue, hdrop, hskipped, -, hd⟩
    · rw [hnil]
      exact .nil
    · obtain ⟨k, near', far', hrest, hwithin, hvisited⟩ := h.step hqueue hskipped hd
      simp only [hdrop, hd, hrest, List.pairwise_cons]
      refine ⟨fun c hc m hm => ?_, ih hvisited⟩
      rw [hnamed name d hd]
      -- what fewer steps lead to is settled, so that the walk does not come to it any more
      by_cases hlt : m < k
      · exact absurd (hvisited.done m hlt c.name hm) (reachFrom_unseen hnamed budget hc)
      · exact within_mono (Nat.le_of_not_lt hlt) hwithin

/-! ## The walk over types -/

/-- Fewer steps up lead from the type to the class `a` than to the class `b`. -/
def Nearer (env : ClassEnv) (t : JType) (a b : String) : Prop :=
  ∃ n, a ∈ env.within supertypeNames ((startingPoints t).map JType.name) n ∧
    b ∉ env.within supertypeNames ((startingPoints t).map JType.name) n

/-- Where all supertypes are class types, the walk comes to nearer classes first. -/
theorem meetsBefore_of_nearer (hnamed : ∀ name d, env.find? name = some d → d.name = name)
    (hplain : env.PlainSupertypes) {t : JType} (hstart : ∀ s ∈ startingPoints t, s.isTypeVar = false)
    {a b : String} (ha : a ∈ env.walkNames t) (hb : b ∈ env.walkNames t) (h : env.Nearer t a b) :
    env.MeetsBefore t a b := by
  obtain ⟨n, han, hbn⟩ := h
  have hsorted : (env.walkNames t).Pairwise fun c d =>
      ∀ m, d ∈ env.within supertypeNames ((startingPoints t).map JType.name) m →
        c ∈ env.within supertypeNames ((startingPoints t).map JType.name) m := by
    have hwalk := reachFrom_nearestFirst hnamed env.names.length
      (frontier_start env supertypeNames ((startingPoints t).map JType.name))
    rw [List.append_nil, ← closureFrom_definitions hplain _ _ _ hstart] at hwalk
    have hnames : env.walkNames t
        = ((env.closure t).map Instantiation.definition).map ClassDef.name := by
      rw [List.map_map]
      rfl
    rw [hnames]
    exact List.pairwise_map.mpr hwalk
  rcases pair_sublist_or ha hb (fun hab => hbn (hab ▸ han)) with hab | hba
  · exact hab
  · have := List.Pairwise.sublist hba hsorted
    exact absurd (List.rel_of_pairwise_cons this (by simp) n han) hbn

end JavaSema.ClassEnv
