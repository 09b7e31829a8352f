import JavaSema.ClassEnv.Hierarchy
import Mathlib.Logic.Relation
import Mathlib.Tactic.ByContra

/-!
# What the walks over a class hierarchy reach

`ClassEnv.reached` and `ClassEnv.closure` walk breadth first and skip the classes that they have seen.
This module says what the walk by name reaches, on any hierarchy: cycles, diamonds and names that
cannot be loaded included.

There are three groups.

* The budget.  `unseen` counts the names of the environment that a walk has not seen.  Each step sees
  one more of them, so a budget of `unseen` steps is never used up.
* The walk.  `reachFrom_sound` says that only classes above the queue are visited.
  `reachFrom_complete` says that the visited classes are closed under edges: together with the seen
  names they hold the queue and all that their own classes lead to.
* The relation.  `Edge` is one step up from a loadable class, and `isSubclass_iff` reads the test of
  subclasses as reachability.
-/

namespace JavaSema.ClassEnv

variable {env : ClassEnv} {next : ClassDef → List String}

/-! ## The budget of a walk -/

/-- The number of names of the environment that a walk has not seen yet. -/
def unseen (env : ClassEnv) (seen : List String) : Nat :=
  (env.names.filter fun n => !seen.contains n).length

theorem unseen_nil (env : ClassEnv) : env.unseen [] = env.names.length := by
  have hall : env.names.filter (fun n => !([] : List String).contains n) = env.names :=
    List.filter_eq_self.mpr (by simp)
  rw [unseen, hall]

/-- Seeing a listed name for the first time leaves fewer unseen names. -/
theorem unseen_cons_lt {seen : List String} {name : String} (hname : name ∈ env.names)
    (hseen : name ∉ seen) : env.unseen (name :: seen) < env.unseen seen := by
  unfold unseen
  have hsplit : (env.names.filter fun n => !(name :: seen).contains n)
      = (env.names.filter fun n => !seen.contains n).filter fun n => !(n == name) := by
    rw [List.filter_filter]
    apply List.filter_congr
    intro n _
    by_cases hn : n = name <;> simp [hn]
  rw [hsplit]
  apply List.length_filter_lt_length_iff_exists.mpr
  exact ⟨name, List.mem_filter.mpr ⟨hname, by simpa using hseen⟩, by simp⟩

/-- A walk without budget has seen every class that can be loaded. -/
theorem mem_seen_of_unseen_eq_zero {seen : List String} {name : String} {d : ClassDef}
    (h : env.unseen seen = 0) (hd : env.find? name = some d) : name ∈ seen := by
  by_contra hseen
  have := unseen_cons_lt (mem_names_of_find? hd) hseen
  omega

/-! ## The walk by name -/

/-- The first name of the queue that a walk visits, and what it skips before. -/
theorem queue_cases (env : ClassEnv) (seen queue : List String) :
    ((queue.dropWhile fun n => seen.contains n || !env.isLoadable n) = [] ∧
        ∀ n ∈ queue, n ∈ seen ∨ env.find? n = none) ∨
      ∃ skipped name rest d, queue = skipped ++ name :: rest ∧
        (queue.dropWhile fun n => seen.contains n || !env.isLoadable n) = name :: rest ∧
        (∀ n ∈ skipped, n ∈ seen ∨ env.find? n = none) ∧ name ∉ seen ∧ env.find? name = some d := by
  induction queue with
  | nil => exact .inl ⟨rfl, by simp⟩
  | cons n queue ih =>
    by_cases hskip : (seen.contains n || !env.isLoadable n) = true
    · have hn : n ∈ seen ∨ env.find? n = none := by
        simpa [isLoadable] using hskip
      have hdrop : ((n :: queue).dropWhile fun n => seen.contains n || !env.isLoadable n)
          = queue.dropWhile fun n => seen.contains n || !env.isLoadable n := by
        rw [List.dropWhile_cons, if_pos hskip]
      rw [hdrop]
      rcases ih with ⟨hnil, hall⟩ | ⟨skipped, name, rest, d, rfl, hdrop, hall, hseen, hd⟩
      · refine .inl ⟨hnil, ?_⟩
        intro m hm
        rcases List.mem_cons.mp hm with rfl | hm
        · exact hn
        · exact hall m hm
      · refine .inr ⟨n :: skipped, name, rest, d, rfl, hdrop, ?_, hseen, hd⟩
        intro m hm
        rcases List.mem_cons.mp hm with rfl | hm
        · exact hn
        · exact hall m hm
    · have hdrop : ((n :: queue).dropWhile fun n => seen.contains n || !env.isLoadable n)
          = n :: queue := by
        rw [List.dropWhile_cons, if_neg hskip]
      have hn : n ∉ seen ∧ env.find? n ≠ none := by
        simpa [isLoadable] using hskip
      obtain ⟨d, hd⟩ := Option.ne_none_iff_exists'.mp hn.2
      exact .inr ⟨[], n, queue, d, rfl, hdrop, by simp, hn.1, hd⟩

/-- One step up: the class can be loaded and leads to the name. -/
def Step (env : ClassEnv) (next : ClassDef → List String) (a b : String) : Prop :=
  ∃ d, env.find? a = some d ∧ b ∈ next d

/-- A walk visits only classes above its queue. -/
theorem reachFrom_sound (budget : Nat) {seen queue : List String} {d : ClassDef}
    (h : d ∈ env.reachFrom next budget seen queue) :
    ∃ q ∈ queue, ∃ n, Relation.ReflTransGen (env.Step next) q n ∧ env.find? n = some d := by
  induction budget generalizing seen queue with
  | zero => simp [reachFrom] at h
  | succ budget ih =>
    rw [reachFrom] at h
    rcases queue_cases env seen queue with ⟨hnil, _⟩ | ⟨skipped, name, rest, c, rfl, hdrop, _, _, hc⟩
    · rw [hnil] at h
      simp at h
    · simp only [hdrop, hc, List.mem_cons] at h
      rcases h with rfl | h
      · exact ⟨name, by simp, name, .refl, hc⟩
      · obtain ⟨q, hq, n, hpath, hd⟩ := ih h
        rcases List.mem_append.mp hq with hq | hq
        · exact ⟨q, by simp [hq], n, hpath, hd⟩
        -- `q` was put into the queue by the class just visited
        · exact ⟨name, by simp, n, .head ⟨c, hc, hq⟩ hpath, hd⟩

/-- With enough budget the visited classes and the seen names hold the whole queue, and all that the
visited classes lead to. -/
theorem reachFrom_complete (next : ClassDef → List String) (budget : Nat)
    (seen queue : List String) (hbudget : env.unseen seen ≤ budget) :
    (∀ n ∈ queue, ∀ d, env.find? n = some d → n ∈ seen ∨ d ∈ env.reachFrom next budget seen queue) ∧
      ∀ c ∈ env.reachFrom next budget seen queue, ∀ n ∈ next c, ∀ d, env.find? n = some d →
        n ∈ seen ∨ d ∈ env.reachFrom next budget seen queue := by
  induction budget generalizing seen queue with
  | zero =>
    refine ⟨fun n _ d hd => .inl (mem_seen_of_unseen_eq_zero (by omega) hd), ?_⟩
    intro c hc
    simp [reachFrom] at hc
  | succ budget ih =>
    rw [reachFrom]
    rcases queue_cases env seen queue with ⟨hnil, hall⟩ |
      ⟨skipped, name, rest, c, rfl, hdrop, hall, hseen, hc⟩
    · rw [hnil]
      refine ⟨fun n hn d hd => .inl ?_, by simp⟩
      rcases hall n hn with h | h
      · exact h
      · simp [h] at hd
    · simp only [hdrop, hc]
      have hlt := unseen_cons_lt (mem_names_of_find? hc) hseen
      obtain ⟨hqueue, hclosed⟩ := ih (name :: seen) (rest ++ next c) (by omega)
      -- a name that the rest of the walk counts as seen is seen already, or is the one just visited
      have hnew : ∀ n d, env.find? n = some d →
          n ∈ name :: seen ∨ d ∈ env.reachFrom next budget (name :: seen) (rest ++ next c) →
          n ∈ seen ∨ d ∈ c :: env.reachFrom next budget (name :: seen) (rest ++ next c) := by
        intro n d hd h
        rcases h with h | h
        · rcases List.mem_cons.mp h with rfl | h
          · rw [hc] at hd
            cases hd
            exact .inr List.mem_cons_self
          · exact .inl h
        · exact .inr (List.mem_cons_of_mem _ h)
      constructor
      · intro n hn d hd
        rcases List.mem_append.mp hn with hn | hn
        · rcases hall n hn with h | h
          · exact .inl h
          · simp [h] at hd
        rcases List.mem_cons.mp hn with rfl | hn
        · exact hnew n d hd (.inl List.mem_cons_self)
        · exact hnew n d hd (hqueue n (List.mem_append_left _ hn) d hd)
      · intro b hb n hn d hd
        rcases List.mem_cons.mp hb with rfl | hb
        · exact hnew n d hd (hqueue n (List.mem_append_right _ hn) d hd)
        · exact hnew n d hd (hclosed b hb n hn d hd)

/-- The walk from a name visits the classes that are reachable from it. -/
theorem mem_reached_iff {name : String} {d : ClassDef} :
    d ∈ env.reached next name ↔
      ∃ n, Relation.ReflTransGen (env.Step next) name n ∧ env.find? n = some d := by
  unfold reached
  constructor
  · intro h
    obtain ⟨q, hq, n, hpath, hd⟩ := reachFrom_sound _ h
    rw [List.mem_singleton.mp hq] at hpath
    exact ⟨n, hpath, hd⟩
  · rintro ⟨n, hpath, hd⟩
    have hbudget : env.unseen [] ≤ env.names.length := Nat.le_of_eq (unseen_nil env)
    obtain ⟨hqueue, hclosed⟩ := reachFrom_complete next _ [] [name] hbudget
    -- along the path each class that can be loaded is visited
    induction hpath generalizing d with
    | refl => simpa using hqueue name (by simp) d hd
    | tail _ hstep ih =>
      obtain ⟨c, hc, hn⟩ := hstep
      simpa using hclosed c (ih hc) _ hn d hd

/-! ## Subclasses -/

/-- The class can be loaded and has a direct supertype of that name. -/
abbrev Edge (env : ClassEnv) : String → String → Prop := env.Step supertypeNames

/-- A class is below another one if it is that class, if the other one is the root class, or if a
path of direct supertypes of loadable classes leads there. -/
theorem isSubclass_iff (env : ClassEnv) (sub sup : String) :
    env.isSubclass sub sup = true ↔
      sup = sub ∨ sup = objectName ∨ Relation.TransGen env.Edge sub sup := by
  have hwalk : ((env.reached supertypeNames sub).any fun d => (supertypeNames d).contains sup) = true
      ↔ Relation.TransGen env.Edge sub sup := by
    simp only [List.any_eq_true, List.contains_iff_mem, mem_reached_iff]
    constructor
    · rintro ⟨d, ⟨n, hpath, hd⟩, hsup⟩
      exact .tail' hpath ⟨d, hd, hsup⟩
    · intro h
      obtain ⟨n, hpath, d, hd, hsup⟩ := Relation.TransGen.tail'_iff.mp h
      exact ⟨d, ⟨n, hpath, hd⟩, hsup⟩
  unfold isSubclass
  simp only [Bool.or_eq_true, beq_iff_eq, hwalk]
  constructor
  · rintro ((rfl | h) | h)
    · exact .inl rfl
    · exact .inr (.inl h)
    · exact .inr (.inr h)
  · rintro (rfl | h | h)
    · exact .inl (.inl rfl)
    · exact .inl (.inr h)
    · exact .inr h

end JavaSema.ClassEnv
