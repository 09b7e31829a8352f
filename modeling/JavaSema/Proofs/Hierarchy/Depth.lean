import JavaSema.Proofs.Hierarchy.Overriding
import Mathlib.Data.List.MinMax
import Mathlib.Order.Bounds.Basic
import Mathlib.Order.Nat

/-!
# Depths in a hierarchy

The depth of an interface is computed by a walk that goes through its superinterfaces in the order in
which they are listed, and counts nothing for a name that it has seen.  So a name that several
superinterfaces lead to is counted where the first of them leads, also if a later one leads there by a
longer way.

There are three groups.

* `Leftmost` is the way on which the walk comes to a name first.
* The walk.  `Visits` says what a walk sees and counts, with one rule for each form of the recursion;
  `depthFrom_visits` is the induction over the budget.
* Depths.  `hierarchyDepth_isGreatest` reads the depth as the length of the longest of these ways, and
  `interfaceDepth_compared` compares it with the depths of the superinterfaces.
-/

namespace JavaSema

namespace ClassEnv

open Relation

variable {env : ClassEnv}

/-! ## Ways up -/

/-- The names that the walk goes on to: the interfaces that an interface extends, and the superclass of
any other class. -/
def ups (d : ClassDef) : List String :=
  if d.isInterface then d.interfaces.map JType.name else (d.superclass.map JType.name).toList

/-- The names that the walk goes on to from a name.  It stops at the root class. -/
def upNames (env : ClassEnv) (name : String) : List String :=
  if name = objectName then [] else ((env.find? name).map ups).getD []

/-- One step of the walk. -/
def Up (env : ClassEnv) (a b : String) : Prop := b ∈ env.upNames a

/-- The way on which the walk from `x` comes to `n` first, with its length: at each name it takes the
first of the names above that lead to `n` at all. -/
inductive Leftmost (env : ClassEnv) : String → String → Nat → Prop where
  | refl (x : String) : Leftmost env x x 0
  | step {x y n : String} {k : Nat} {before after : List String} :
      env.upNames x = before ++ y :: after → (∀ p ∈ before, ¬ ReflTransGen env.Up p n) →
        Leftmost env y n k → Leftmost env x n (k + 1)

/-- The way on which a walk through several names comes to `n` first. -/
def FirstOf (env : ClassEnv) (names : List String) (n : String) (k : Nat) : Prop :=
  ∃ before y after, names = before ++ y :: after ∧ (∀ p ∈ before, ¬ ReflTransGen env.Up p n) ∧
    env.Leftmost y n k

variable {x y n name : String} {k : Nat} {names seen : List String}

theorem leftmost_iff : env.Leftmost x n k ↔
    (x = n ∧ k = 0) ∨ ∃ j, k = j + 1 ∧ env.FirstOf (env.upNames x) n j := by
  constructor
  · rintro (_ | ⟨hups, hbefore, hway⟩)
    · exact .inl ⟨rfl, rfl⟩
    · exact .inr ⟨_, rfl, _, _, _, hups, hbefore, hway⟩
  · rintro (⟨rfl, rfl⟩ | ⟨j, rfl, before, y, after, hups, hbefore, hway⟩)
    · exact .refl x
    · exact .step hups hbefore hway

theorem firstOf_cons : env.FirstOf (y :: names) n k ↔
    env.Leftmost y n k ∨ ¬ ReflTransGen env.Up y n ∧ env.FirstOf names n k := by
  constructor
  · rintro ⟨before, z, after, hnames, hbefore, hway⟩
    cases before with
    | nil =>
      obtain ⟨rfl, rfl⟩ := List.cons.inj hnames
      exact .inl hway
    | cons p before =>
      obtain ⟨rfl, rfl⟩ := List.cons.inj hnames
      exact .inr ⟨hbefore y List.mem_cons_self, before, z, after, rfl,
        fun p hp => hbefore p (List.mem_cons_of_mem _ hp), hway⟩
  · rintro (hway | ⟨hnot, before, z, after, rfl, hbefore, hway⟩)
    · exact ⟨[], y, names, rfl, nofun, hway⟩
    · exact ⟨y :: before, z, after, rfl, by simpa using ⟨hnot, hbefore⟩, hway⟩

theorem firstOf_singleton : env.FirstOf [y] n k ↔ env.Leftmost y n k := by
  rw [firstOf_cons, or_iff_left]
  rintro ⟨-, before, z, after, hnames, -⟩
  simp at hnames

theorem Leftmost.path (h : env.Leftmost x n k) : ReflTransGen env.Up x n := by
  induction h with
  | refl => exact .refl
  | step hups _ _ ih =>
    refine .head ?_ ih
    rw [Up, hups]
    exact List.mem_append_right _ List.mem_cons_self

theorem FirstOf.path (h : env.FirstOf names n k) : ∃ y ∈ names, ReflTransGen env.Up y n := by
  obtain ⟨before, y, after, rfl, -, hway⟩ := h
  exact ⟨y, List.mem_append_right _ List.mem_cons_self, hway.path⟩

theorem mem_supertypeNames_of_mem_ups {d : ClassDef} (h : n ∈ ups d) : n ∈ supertypeNames d := by
  unfold ups at h
  unfold supertypeNames ClassDef.directSupertypes
  rw [List.map_append, List.mem_append]
  split at h
  · exact .inr h
  · cases hs : d.superclass with
    | none =>
      rw [hs] at h
      cases h
    | some s =>
      rw [hs] at h
      exact .inl h

/-- A step of the walk goes to a direct supertype. -/
theorem Up.edge (h : env.Up x y) : env.Edge x y := by
  unfold Up upNames at h
  split at h
  · cases h
  · cases hd : env.find? x with
    | none =>
      rw [hd] at h
      cases h
    | some d =>
      rw [hd] at h
      exact ⟨d, hd, mem_supertypeNames_of_mem_ups h⟩

/-- The walk does not come back. -/
theorem not_path_of_up (hacyclic : env.Acyclic) (h : env.Up x y) : ¬ ReflTransGen env.Up y x :=
  fun hback => hacyclic x (.head' h.edge (hback.lift id fun _ _ => Up.edge))

theorem upNames_object : env.upNames objectName = [] := if_pos rfl

/-- Nothing is above the root class. -/
theorem eq_of_path_object (h : ReflTransGen env.Up objectName n) : n = objectName := by
  rcases h.cases_head with heq | ⟨b, hup, -⟩
  · exact heq.symm
  · rw [Up, upNames_object] at hup
    cases hup

/-! ## The walk -/

/-- The walk through several names, one after the other. -/
def visitAll (env : ClassEnv) (budget : Nat) (acc : Nat × List String) (names : List String) :
    Nat × List String :=
  names.foldl (fun acc n =>
    (max acc.1 (env.depthFrom budget acc.2 n).1, (env.depthFrom budget acc.2 n).2)) acc

theorem visitAll_depth (budget k : Nat) (seen names : List String) :
    env.visitAll budget (k, seen) names
      = (max k (env.visitAll budget (0, seen) names).1, (env.visitAll budget (0, seen) names).2) := by
  induction names generalizing k seen with
  | nil => simp [visitAll]
  | cons y names ih =>
    show env.visitAll budget (max k _, _) names = (max k (env.visitAll budget (max 0 _, _) names).1,
      (env.visitAll budget (max 0 _, _) names).2)
    rw [ih, ih (max 0 _), Nat.max_assoc, Nat.zero_max]

theorem visitAll_cons (budget : Nat) (seen names : List String) (y : String) :
    env.visitAll budget (0, seen) (y :: names)
      = (max (env.depthFrom budget seen y).1
            (env.visitAll budget (0, (env.depthFrom budget seen y).2) names).1,
          (env.visitAll budget (0, (env.depthFrom budget seen y).2) names).2) := by
  show env.visitAll budget (max 0 _, _) names = _
  rw [visitAll_depth, Nat.zero_max]

/-- The walk stops at the root class and at names that were seen before. -/
theorem depthFrom_old (budget : Nat) (hold : name = objectName ∨ name ∈ seen) :
    env.depthFrom budget seen name = (0, seen) := by
  have hstop : (name == objectName || seen.contains name) = true := by simpa using hold
  cases budget <;> rw [depthFrom, if_pos hstop]

/-- The walk through a name that was not seen before. -/
theorem depthFrom_fresh (budget : Nat) (hroot : name ≠ objectName) (hseen : name ∉ seen)
    {d : ClassDef} (hd : env.find? name = some d) :
    env.depthFrom (budget + 1) seen name
      = ((env.visitAll budget (0, name :: seen) (env.upNames name)).1 + 1,
          (env.visitAll budget (0, name :: seen) (env.upNames name)).2) := by
  have hnew : ¬ ((name == objectName || seen.contains name) = true) := by simp [hroot, hseen]
  have hups : env.upNames name = ups d := by simp [upNames, hroot, hd]
  rw [depthFrom, if_neg hnew, hups, ups]
  simp only [hd]
  split
  · rw [visitAll, List.foldl_map]
  · cases d.superclass with
    | none => rfl
    | some s => simp [visitAll]

/-- A walk from the names sees, apart from the root class, all that they lead to, and counts the longest
of the ways on which it comes first to a name that was not seen before. -/
structure Visits (env : ClassEnv) (seen names : List String) (r : Nat × List String) : Prop where
  /-- What is seen after the walk. -/
  mem : ∀ m, m ∈ r.2 ↔ m ∈ seen ∨ m ≠ objectName ∧ ∃ y ∈ names, ReflTransGen env.Up y m
  /-- No way is longer. -/
  le : ∀ n k, n ∉ seen → n ≠ objectName → env.FirstOf names n k → k + 1 ≤ r.1
  /-- Some way is as long, if there is one. -/
  attained : r.1 = 0 ∨ ∃ n k, n ∉ seen ∧ n ≠ objectName ∧ env.FirstOf names n k ∧ r.1 = k + 1

/-- All that a name above leads to was seen if that name was. -/
def Finished (env : ClassEnv) (seen names : List String) : Prop :=
  ∀ y ∈ names, ∀ m n, ReflTransGen env.Up y m → m ∈ seen → ReflTransGen env.Up m n →
    n ≠ objectName → n ∈ seen

theorem visits_nil (env : ClassEnv) (seen : List String) : env.Visits seen [] (0, seen) where
  mem m := by simp
  le n k _ _ h := by
    obtain ⟨y, hy, -⟩ := h.path
    cases hy
  attained := .inl rfl

variable {r r' : Nat × List String}

/-- One walk after another. -/
theorem Visits.cons (h : env.Visits seen [y] r) (h' : env.Visits r.2 names r') :
    env.Visits seen (y :: names) (max r.1 r'.1, r'.2) where
  mem m := by
    rw [h'.mem, h.mem]
    simp only [List.mem_cons, List.not_mem_nil, or_false, exists_eq_left, exists_eq_or_imp]
    tauto
  le n k hn hroot hway := by
    rcases firstOf_cons.mp hway with hfirst | ⟨hnot, hlater⟩
    · exact Nat.le_trans (h.le n k hn hroot (firstOf_singleton.mpr hfirst)) (Nat.le_max_left _ _)
    · have hn' : n ∉ r.2 := by
        rw [h.mem]
        simp [hn, hnot]
      exact Nat.le_trans (h'.le n k hn' hroot hlater) (Nat.le_max_right _ _)
  attained := by
    rcases Nat.le_total r'.1 r.1 with hmax | hmax
    · rw [Nat.max_eq_left hmax]
      refine h.attained.imp_right ?_
      rintro ⟨n, k, hn, hroot, hway, hk⟩
      exact ⟨n, k, hn, hroot, firstOf_cons.mpr (.inl (firstOf_singleton.mp hway)), hk⟩
    · rw [Nat.max_eq_right hmax]
      refine h'.attained.imp_right ?_
      rintro ⟨n, k, hn, hroot, hway, hk⟩
      rw [h.mem] at hn
      have hnot : ¬ ReflTransGen env.Up y n := fun hpath => hn (.inr ⟨hroot, y, by simp, hpath⟩)
      exact ⟨n, k, fun hseen => hn (.inl hseen), hroot, firstOf_cons.mpr (.inr ⟨hnot, hway⟩), hk⟩

theorem Finished.after (h : env.Finished seen (y :: names)) (hr : env.Visits seen [y] r) :
    env.Finished r.2 names := by
  intro z hz m n hzm hm hmn hroot
  rw [hr.mem] at hm ⊢
  rcases hm with hm | ⟨-, w, hw, hwm⟩
  · exact .inl (h z (List.mem_cons_of_mem _ hz) m n hzm hm hmn hroot)
  · exact .inr ⟨hroot, w, hw, hwm.trans hmn⟩

/-- A name that leads to nothing new. -/
theorem visits_old (hfinished : env.Finished seen [name])
    (hold : name = objectName ∨ name ∈ seen) : env.Visits seen [name] (0, seen) := by
  have hall : ∀ m, m ≠ objectName → ReflTransGen env.Up name m → m ∈ seen := by
    intro m hroot hpath
    rcases hold with rfl | hold
    · exact absurd (eq_of_path_object hpath) hroot
    · exact hfinished name (by simp) name m .refl hold hpath hroot
  refine ⟨fun m => ?_, fun n k hn hroot hway => ?_, .inl rfl⟩
  · simp only [List.mem_singleton, exists_eq_left]
    exact ⟨.inl, fun h => h.elim id fun ⟨hroot, hpath⟩ => hall m hroot hpath⟩
  · exact absurd (hall n hroot (firstOf_singleton.mp hway).path) hn

/-- A new name, after what is above it. -/
theorem Visits.fresh (hacyclic : env.Acyclic) (hroot : name ≠ objectName) (hseen : name ∉ seen)
    (h : env.Visits (name :: seen) (env.upNames name) r) :
    env.Visits seen [name] (r.1 + 1, r.2) where
  mem m := by
    rw [h.mem]
    have hhead := ReflTransGen.cases_head_iff (r := env.Up) (a := name) (b := m)
    simp only [List.mem_cons, List.not_mem_nil, or_false, exists_eq_left, hhead]
    constructor
    · rintro ((rfl | hm) | ⟨hmroot, y, hy, hpath⟩)
      · exact .inr ⟨hroot, .inl rfl⟩
      · exact .inl hm
      · exact .inr ⟨hmroot, .inr ⟨y, hy, hpath⟩⟩
    · rintro (hm | ⟨hmroot, rfl | ⟨y, hy, hpath⟩⟩)
      · exact .inl (.inr hm)
      · exact .inl (.inl rfl)
      · exact .inr ⟨hmroot, y, hy, hpath⟩
  le n k hn hnroot hway := by
    rcases leftmost_iff.mp (firstOf_singleton.mp hway) with ⟨-, rfl⟩ | ⟨j, rfl, habove⟩
    · exact Nat.le_add_left _ _
    · obtain ⟨y, hy, hpath⟩ := habove.path
      have hne : n ≠ name := by
        rintro rfl
        exact not_path_of_up hacyclic hy hpath
      exact Nat.succ_le_succ (h.le n j (by simp [hne, hn]) hnroot habove)
  attained := by
    refine .inr ?_
    rcases h.attained with hzero | ⟨n, k, hn, hnroot, hway, hk⟩
    · exact ⟨name, 0, hseen, hroot, firstOf_singleton.mpr (.refl _), by rw [hzero]⟩
    · refine ⟨n, k + 1, fun hmem => hn (List.mem_cons_of_mem _ hmem), hnroot, ?_, by rw [hk]⟩
      exact firstOf_singleton.mpr (leftmost_iff.mpr (.inr ⟨k, rfl, hway⟩))

/-- Before the names above a new name are walked through, only that name was seen in addition, and they
do not lead back to it. -/
theorem Finished.above (hacyclic : env.Acyclic) (h : env.Finished seen [name]) :
    env.Finished (name :: seen) (env.upNames name) := by
  intro y hy m n hym hm hmn hroot
  rcases List.mem_cons.mp hm with rfl | hm
  · exact absurd hym (not_path_of_up hacyclic hy)
  · exact List.mem_cons_of_mem _ (h name (by simp) m n (.head hy hym) hm hmn hroot)

theorem unseen_mono {seen' : List String} (h : seen ⊆ seen') :
    env.unseen seen' ≤ env.unseen seen := by
  refine (List.monotone_filter_right env.names fun n hn => ?_).length_le
  simp only [Bool.not_eq_true', List.contains_eq_mem, decide_eq_false_iff_not] at hn ⊢
  exact fun hmem => hn (h hmem)

/-- If each walk through one name is right, so is a walk through several. -/
theorem visitAll_visits {budget : Nat}
    (hstep : ∀ seen name, env.unseen seen ≤ budget → env.Finished seen [name] →
      env.Visits seen [name] (env.depthFrom budget seen name))
    (hbudget : env.unseen seen ≤ budget) (hfinished : env.Finished seen names) :
    env.Visits seen names (env.visitAll budget (0, seen) names) := by
  induction names generalizing seen with
  | nil => exact visits_nil env seen
  | cons y names ih =>
    have hfirst := hstep seen y hbudget fun z hz =>
      hfinished z (List.mem_cons.mpr (.inl (List.mem_singleton.mp hz)))
    have hsub : seen ⊆ (env.depthFrom budget seen y).2 := fun m hm => (hfirst.mem m).mpr (.inl hm)
    rw [visitAll_cons]
    exact hfirst.cons (ih (Nat.le_trans (unseen_mono hsub) hbudget) (hfinished.after hfirst))

/-- A walk with enough budget. -/
theorem depthFrom_visits (hacyclic : env.Acyclic) (budget : Nat) (seen : List String) (name : String)
    (hbudget : env.unseen seen ≤ budget) (hfinished : env.Finished seen [name]) :
    env.Visits seen [name] (env.depthFrom budget seen name) := by
  by_cases hold : name = objectName ∨ name ∈ seen
  · rw [depthFrom_old budget hold]
    exact visits_old hfinished hold
  · obtain ⟨hroot, hseen⟩ := not_or.mp hold
    cases hd : env.find? name with
    | none =>
      have hnew : ¬ ((name == objectName || seen.contains name) = true) := by simpa using hold
      have hrun : env.depthFrom budget seen name = (1, name :: seen) := by
        cases budget <;> · rw [depthFrom, if_neg hnew]; simp only [hd]
      have hups : env.upNames name = [] := by simp [upNames, hroot, hd]
      rw [hrun]
      exact Visits.fresh hacyclic hroot hseen (hups ▸ visits_nil env (name :: seen))
    | some d =>
      have hless := unseen_cons_lt (mem_names_of_find? hd) hseen
      cases budget with
      | zero => omega
      | succ budget =>
        rw [depthFrom_fresh budget hroot hseen hd]
        refine Visits.fresh hacyclic hroot hseen ?_
        refine visitAll_visits (fun seen name hbudget hfinished => ?_) (by omega)
          (hfinished.above hacyclic)
        exact depthFrom_visits hacyclic budget seen name hbudget hfinished

/-! ## Depths -/

theorem hierarchyDepth_visits (hacyclic : env.Acyclic) (name : String) :
    env.Visits [] [name] (env.depthFrom env.names.length [] name) :=
  depthFrom_visits hacyclic _ [] name (Nat.le_of_eq (unseen_nil env)) fun _ _ _ _ _ hm => nomatch hm

theorem hierarchyDepth_object (env : ClassEnv) : env.hierarchyDepth objectName = 0 := by
  rw [hierarchyDepth, depthFrom_old _ (.inl rfl)]

/-- A leftmost way is no longer than the depth. -/
theorem lt_hierarchyDepth (hacyclic : env.Acyclic) (hroot : n ≠ objectName)
    (h : env.Leftmost name n k) : k + 1 ≤ env.hierarchyDepth name :=
  (hierarchyDepth_visits hacyclic name).le n k List.not_mem_nil hroot (firstOf_singleton.mpr h)

/-- The depth is the number of names on the longest leftmost way, without the root class. -/
theorem hierarchyDepth_isGreatest (hacyclic : env.Acyclic) (hname : name ≠ objectName) :
    IsGreatest {depth | ∃ n k, n ≠ objectName ∧ env.Leftmost name n k ∧ depth = k + 1}
      (env.hierarchyDepth name) := by
  constructor
  · rcases (hierarchyDepth_visits hacyclic name).attained with hzero | ⟨n, k, -, hroot, hway, hk⟩
    · have hself := lt_hierarchyDepth hacyclic hname (.refl name)
      have hzero : env.hierarchyDepth name = 0 := hzero
      omega
    · exact ⟨n, k, hroot, firstOf_singleton.mp hway, hk⟩
  · rintro _ ⟨n, k, hroot, hway, rfl⟩
    exact lt_hierarchyDepth hacyclic hroot hway

/-- The depth of the deepest of the names that the walk goes on to; 0 if there is none. -/
def deepestAbove (env : ClassEnv) (name : String) : Nat :=
  ((env.upNames name).map env.hierarchyDepth).foldr max 0

theorem le_deepestAbove (h : env.Up name y) : env.hierarchyDepth y ≤ env.deepestAbove name :=
  List.le_max_of_le' 0 (List.mem_map_of_mem h) (Nat.le_refl _)

theorem deepestAbove_attained (env : ClassEnv) (name : String) :
    env.deepestAbove name = 0 ∨ ∃ y, env.Up name y ∧ env.hierarchyDepth y = env.deepestAbove name := by
  by_cases hnone : (env.upNames name).map env.hierarchyDepth = []
  · rw [deepestAbove, hnone]
    exact .inl rfl
  · exact .inr (List.mem_map.mp (List.maximum_mem (List.foldr_max_of_ne_nil hnone).symm))

theorem hierarchyDepth_le (hacyclic : env.Acyclic) (hname : name ≠ objectName) :
    env.hierarchyDepth name ≤ env.deepestAbove name + 1 := by
  obtain ⟨n, k, hroot, hway, hk⟩ := (hierarchyDepth_isGreatest hacyclic hname).1
  rcases leftmost_iff.mp hway with ⟨-, rfl⟩ | ⟨j, rfl, before, y, after, hups, -, hway⟩
  · omega
  · have hup : env.Up name y := by
      rw [Up, hups]
      exact List.mem_append_right _ List.mem_cons_self
    have := lt_hierarchyDepth hacyclic hroot hway
    have := le_deepestAbove hup
    omega

/-- The depth is one more than that of the deepest name above exactly if a leftmost way of that length
goes on from the name. -/
theorem hierarchyDepth_eq_iff (hacyclic : env.Acyclic) (hname : name ≠ objectName) :
    env.hierarchyDepth name = env.deepestAbove name + 1 ↔ env.deepestAbove name = 0 ∨
      ∃ n k, n ≠ objectName ∧ env.FirstOf (env.upNames name) n k ∧ k + 1 = env.deepestAbove name := by
  constructor
  · intro heq
    obtain ⟨n, k, hroot, hway, hk⟩ := (hierarchyDepth_isGreatest hacyclic hname).1
    rcases leftmost_iff.mp hway with ⟨-, rfl⟩ | ⟨j, rfl, habove⟩
    · exact .inl (by omega)
    · exact .inr ⟨n, j, hroot, habove, by omega⟩
  · intro h
    refine Nat.le_antisymm (hierarchyDepth_le hacyclic hname) ?_
    rcases h with hzero | ⟨n, k, hroot, habove, hk⟩
    · rw [hzero]
      exact lt_hierarchyDepth hacyclic hname (.refl name)
    · rw [← hk]
      exact lt_hierarchyDepth hacyclic hroot (leftmost_iff.mpr (.inr ⟨k, rfl, habove⟩))

/-- The names that the walk goes on to lead to no common one, apart from the root class. -/
def LeadApart (env : ClassEnv) (name : String) : Prop :=
  ∀ before y after, env.upNames name = before ++ y :: after → ∀ p ∈ before, ∀ n, n ≠ objectName →
    ReflTransGen env.Up y n → ¬ ReflTransGen env.Up p n

theorem hierarchyDepth_of_leadApart (hacyclic : env.Acyclic) (hname : name ≠ objectName)
    (h : env.LeadApart name) : env.hierarchyDepth name = env.deepestAbove name + 1 := by
  rw [hierarchyDepth_eq_iff hacyclic hname]
  rcases deepestAbove_attained env name with hzero | ⟨y, hup, hdeepest⟩
  · exact .inl hzero
  · obtain ⟨before, after, hups⟩ := List.append_of_mem hup
    by_cases hy : y = objectName
    · rw [hy, hierarchyDepth_object] at hdeepest
      exact .inl hdeepest.symm
    · obtain ⟨n, k, hroot, hway, hk⟩ := (hierarchyDepth_isGreatest hacyclic hy).1
      refine .inr ⟨n, k, hroot, ⟨before, y, after, hups, fun p hp => ?_, hway⟩, by omega⟩
      exact h before y after hups p hp n hroot hway.path

/-- A class is one deeper than its superclass. -/
theorem hierarchyDepth_of_class (hacyclic : env.Acyclic) (hname : name ≠ objectName)
    (h : ∀ d, env.find? name = some d → d.isInterface = false) :
    env.hierarchyDepth name = env.deepestAbove name + 1 := by
  refine hierarchyDepth_of_leadApart hacyclic hname fun before y after hups p hp => ?_
  have hone : (env.upNames name).length ≤ 1 := by
    rw [upNames, if_neg hname]
    cases hd : env.find? name with
    | none => simp
    | some d =>
      have hups : ups d = (d.superclass.map JType.name).toList := if_neg (by simp [h d hd])
      rw [Option.map_some, Option.getD_some, hups]
      cases d.superclass <;> simp
  rw [hups, List.length_append, List.length_cons] at hone
  obtain rfl : before = [] := List.eq_nil_of_length_eq_zero (by omega)
  cases hp

/-- Where the depth of each interface on the way is one more than that of the deepest interface that it
extends, a name is deeper than all that it leads to. -/
theorem hierarchyDepth_lt_of_path (hacyclic : env.Acyclic)
    (hall : ∀ x d, ReflTransGen env.Up name x → x ≠ objectName → env.find? x = some d →
      d.isInterface = true → env.hierarchyDepth x = env.deepestAbove x + 1)
    (h : TransGen env.Up name n) : env.hierarchyDepth n < env.hierarchyDepth name := by
  have hstep : ∀ x y, ReflTransGen env.Up name x → env.Up x y →
      env.hierarchyDepth y < env.hierarchyDepth x := by
    intro x y hpath hup
    have hroot : x ≠ objectName := by
      rintro rfl
      rw [Up, upNames_object] at hup
      cases hup
    have heq : env.hierarchyDepth x = env.deepestAbove x + 1 := by
      by_cases hinterface : ∃ d, env.find? x = some d ∧ d.isInterface = true
      · obtain ⟨d, hd, hinterface⟩ := hinterface
        exact hall x d hpath hroot hd hinterface
      · refine hierarchyDepth_of_class hacyclic hroot fun d hd => ?_
        simpa using fun hkind => hinterface ⟨d, hd, hkind⟩
    exact heq ▸ Nat.lt_succ_of_le (le_deepestAbove hup)
  induction h with
  | single hup => exact hstep _ _ .refl hup
  | tail hpath hup ih => exact Nat.lt_trans (hstep _ _ hpath.to_reflTransGen hup) ih

/-- The depth of the deepest interface that the class extends; 0 if it extends none. -/
def deepestExtended (env : ClassEnv) (d : ClassDef) : Nat :=
  (d.interfaces.map fun t => env.hierarchyDepth t.name).foldr max 0

theorem upNames_of_interface {d : ClassDef} (hname : name ≠ objectName) (hd : env.find? name = some d)
    (hinterface : d.isInterface = true) : env.upNames name = d.interfaces.map JType.name := by
  rw [upNames, if_neg hname, hd, Option.map_some, Option.getD_some, ups, if_pos hinterface]

theorem deepestAbove_of_interface {d : ClassDef} (hname : name ≠ objectName)
    (hd : env.find? name = some d) (hinterface : d.isInterface = true) :
    env.deepestAbove name = env.deepestExtended d := by
  rw [deepestAbove, upNames_of_interface hname hd hinterface, List.map_map]
  rfl

theorem firstOf_map {ts : List JType} : env.FirstOf (ts.map JType.name) n k ↔
    ∃ before t after, ts = before ++ t :: after ∧
      (∀ s ∈ before, ¬ ReflTransGen env.Up s.name n) ∧ env.Leftmost t.name n k := by
  constructor
  · rintro ⟨_, _, _, hnames, hbefore, hway⟩
    obtain ⟨before, rest, rfl, rfl, hrest⟩ := List.map_eq_append_iff.mp hnames
    obtain ⟨t, after, rfl, rfl, rfl⟩ := List.map_eq_cons_iff.mp hrest
    exact ⟨before, t, after, rfl, fun s hs => hbefore _ (List.mem_map_of_mem hs), hway⟩
  · rintro ⟨before, t, after, rfl, hbefore, hway⟩
    refine ⟨before.map JType.name, t.name, after.map JType.name, by simp, fun p hp => ?_, hway⟩
    obtain ⟨s, hs, rfl⟩ := List.mem_map.mp hp
    exact hbefore s hs

/-- How the depth of an interface compares with those of the interfaces that it extends, in a hierarchy
without cycles.  It is the number of names on the longest leftmost way, which is at most one more than
the depth of the deepest interface that is extended.  It is one more exactly if none is extended but the
root class, or one that is extended has a leftmost way of that length to a name to which none of those
listed before it leads.  Where it is one more for all interfaces that the interface leads to, and for
itself, it is greater than all their depths. -/
theorem interfaceDepth_compared (env : ClassEnv) (hacyclic : env.Acyclic) (name : String)
    (d : ClassDef) (hname : name ≠ objectName) (hd : env.find? name = some d)
    (hinterface : d.isInterface = true) :
    IsGreatest {depth | ∃ n k, n ≠ objectName ∧ env.Leftmost name n k ∧ depth = k + 1}
        (env.hierarchyDepth name) ∧
      env.hierarchyDepth name ≤ env.deepestExtended d + 1 ∧
      (env.hierarchyDepth name = env.deepestExtended d + 1 ↔
        env.deepestExtended d = 0 ∨
          ∃ n k, n ≠ objectName ∧
            (∃ before t after, d.interfaces = before ++ t :: after ∧
              (∀ s ∈ before, ¬ ReflTransGen env.Up s.name n) ∧ env.Leftmost t.name n k) ∧
            k + 1 = env.deepestExtended d) ∧
      ((∀ x c, ReflTransGen env.Up name x → x ≠ objectName → env.find? x = some c →
          c.isInterface = true → env.hierarchyDepth x = env.deepestExtended c + 1) →
        ∀ n, TransGen env.Up name n → env.hierarchyDepth n < env.hierarchyDepth name) := by
  have habove := deepestAbove_of_interface hname hd hinterface
  refine ⟨hierarchyDepth_isGreatest hacyclic hname, ?_, ?_, fun hall n hpath => ?_⟩
  · rw [← habove]
    exact hierarchyDepth_le hacyclic hname
  · rw [← habove, hierarchyDepth_eq_iff hacyclic hname, upNames_of_interface hname hd hinterface]
    simp only [firstOf_map]
  · refine hierarchyDepth_lt_of_path hacyclic (fun x c hx hroot hc hkind => ?_) hpath
    rw [deepestAbove_of_interface hroot hc hkind]
    exact hall x c hx hroot hc hkind

end ClassEnv

namespace ClassTable

open ClassEnv Relation

/-- An interface that extends interfaces of these names. -/
def extending (name : String) (interfaces : List String) : ClassDef :=
  { ClassDef.empty name .interface with interfaces := interfaces.map .ofClass }

/-- Three interfaces in a row, and one that extends all three of them in the given order. -/
def rowAnd (order : List String) : ClassTable :=
  ⟨[extending "A" [], extending "B" ["A"], extending "C" ["B"], extending "D" order]⟩

theorem supertypeNames_extending (name : String) (interfaces : List String) :
    supertypeNames (extending name interfaces) = objectName :: interfaces := by
  show objectName :: (interfaces.map JType.ofClass).map JType.name = objectName :: interfaces
  rw [List.map_map]
  exact congrArg _ (List.map_id interfaces)

theorem rowAnd_acyclic {order : List String} (h : order ⊆ ["A", "B", "C"]) :
    (rowAnd order).toEnv.Acyclic := by
  apply acyclic_of_height fun name => (["D", "C", "B", "A"].dropWhile fun n => n != name).length
  rintro a b ⟨d, hd, hb⟩
  have hrow : ∀ d ∈ [extending "A" [], extending "B" ["A"], extending "C" ["B"]],
      ∀ b ∈ supertypeNames d, (["D", "C", "B", "A"].dropWhile fun n => n != b).length <
        (["D", "C", "B", "A"].dropWhile fun n => n != d.name).length := by decide
  have hlast : ∀ b ∈ objectName :: ["A", "B", "C"],
      (["D", "C", "B", "A"].dropWhile fun n => n != b).length < 4 := by decide
  rw [← name_of_find? hd]
  rcases List.mem_append.mp (mem_classes_of_get? (get?_of_find? hd) :
    d ∈ [extending "A" [], extending "B" ["A"], extending "C" ["B"]] ++ [extending "D" order])
    with hmem | hmem
  · exact hrow d hmem b hb
  · obtain rfl := List.mem_singleton.mp hmem
    rw [supertypeNames_extending] at hb
    exact hlast b (List.cons_subset_cons _ h hb)

/-- Listed from the deepest one down, the interfaces are one less deep than the one that extends them. -/
theorem depth_falling :
    "D" ≠ objectName ∧
      (rowAnd ["C", "B", "A"]).toEnv.find? "D" = some (extending "D" ["C", "B", "A"]) ∧
      (extending "D" ["C", "B", "A"]).isInterface = true ∧
      (rowAnd ["C", "B", "A"]).toEnv.Acyclic ∧
      (rowAnd ["C", "B", "A"]).toEnv.hierarchyDepth "D" = 4 ∧
      IsGreatest {depth | ∃ n k, n ≠ objectName ∧
        (rowAnd ["C", "B", "A"]).toEnv.Leftmost "D" n k ∧ depth = k + 1} 4 := by
  have hdepth : (rowAnd ["C", "B", "A"]).toEnv.hierarchyDepth "D" = 4 := by decide
  refine ⟨by decide, rfl, by decide, rowAnd_acyclic (by simp), hdepth, hdepth ▸ ?_⟩
  exact (interfaceDepth_compared _ (rowAnd_acyclic (by simp)) "D"
    (extending "D" ["C", "B", "A"]) (by decide) rfl (by decide)).1

/-- Listed from the root up, the interface is less deep than the last one that it extends. -/
theorem depth_rising :
    (rowAnd ["A", "B", "C"]).toEnv.Acyclic ∧
      (∀ n ∈ ["A", "B", "C", "D"], ((rowAnd ["A", "B", "C"]).toEnv.find? n).isSome = true) ∧
      TransGen (rowAnd ["A", "B", "C"]).toEnv.Up "D" "C" ∧
      (rowAnd ["A", "B", "C"]).toEnv.hierarchyDepth "D" = 2 ∧
      (rowAnd ["A", "B", "C"]).toEnv.hierarchyDepth "C" = 3 ∧
      (rowAnd ["A", "B", "C"]).toEnv.deepestExtended (extending "D" ["A", "B", "C"]) = 3 := by
  refine ⟨rowAnd_acyclic (by simp), by decide, .single ?_, by decide, by decide, by decide⟩
  show "C" ∈ _
  decide

end ClassTable

end JavaSema
