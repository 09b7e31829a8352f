import JavaSema.Proofs.JType.Bounds

/-!
# Composed substitutions

Two substitutions after each other are one, whatever they are made in.  A type variable in a type
argument, in a bound of a wildcard and as the element of an array is replaced in three different ways,
and the dimensions and the member of what stands there are combined with those of what replaces it, so
that this is no matter of course: it fails where the first substitution puts a wildcard in the place of
a variable.  A substitution of closed types that drops the other variables leaves none.

There are two groups.

* Composition.  `subst_placed` is the case of a type variable: what is put in its place may be
  substituted in before or after.
* Closing.  `mentionsVar_eq_false_iff` says where variables are looked for.
-/

namespace JavaSema

namespace Bindings

/-- The bindings that say in one step what the first and then the second ones say. -/
def andThen (b c : Bindings) : Bindings :=
  b.map (fun p => (p.1, p.2.subst c false)) ++ c.filter fun p => (b.find? p.1).isNone

theorem find?_append (b c : Bindings) (v : String) : find? (b ++ c) v = (b.find? v).or (c.find? v) := by
  induction b with
  | nil => rfl
  | cons p b ih =>
    rw [List.cons_append, find?_cons, find?_cons, ih]
    split <;> rfl

theorem find?_map (b : Bindings) (f : JType → JType) (v : String) :
    find? (b.map fun p => (p.1, f p.2)) v = (b.find? v).map f := by
  induction b with
  | nil => rfl
  | cons p b ih =>
    rw [List.map_cons, find?_cons, find?_cons, ih]
    split <;> rfl

theorem find?_filter (b : Bindings) (keep : String → Bool) {v : String} (h : keep v = true) :
    find? (b.filter fun p => keep p.1) v = b.find? v := by
  induction b with
  | nil => rfl
  | cons p b ih =>
    rw [List.filter_cons]
    split
    · rw [find?_cons, find?_cons, ih]
    · next hkeep =>
      have hne : v ≠ p.1 := fun hv => hkeep (hv ▸ h)
      rw [find?_cons, if_neg hne, ih]

/-- A variable of the first bindings goes to what the second ones make of its value, another one to its
value in the second ones. -/
theorem find?_andThen (b c : Bindings) (v : String) :
    (b.andThen c).find? v = match b.find? v with
      | some s => some (s.subst c false)
      | none => c.find? v := by
  rw [andThen, find?_append, find?_map]
  cases hfind : b.find? v with
  | some s => rfl
  | none =>
    have hkeep : (b.find? v).isNone = true := by rw [hfind]; rfl
    rw [Option.map_none, Option.none_or, find?_filter c (fun u => (b.find? u).isNone) hkeep]

end Bindings

namespace JType

variable {b c : Bindings} {t : JType}

/-! ## Composition -/

/-- The type in the place of a type variable that has so many dimensions and comes from the member. -/
def placed (s : JType) (dims : Nat) (member : Option MemberRef) : JType :=
  { s with dims := addDims s.dims dims, member := member.or s.member }

theorem IsVar.subst_of_bound {s : JType} {v : String} (h : t.IsVar v) (hs : b.find? v = some s)
    (drop : Bool) : t.subst b drop = s.placed t.dims t.member :=
  subst_of_var h.2 h.wildcard hs drop

theorem placed_placed (s : JType) (dims dims' : Nat) (member member' : Option MemberRef) :
    (s.placed dims member).placed dims' member'
      = s.placed (addDims dims dims') (member'.or member) := by
  simp only [placed, addDims_assoc, Option.or_assoc]

/-- Once a type stands in the place of a variable, it is substituted in as before. -/
theorem subst_placed {s : JType} (hwild : s.wildcard = false) (c : Bindings) (dims : Nat)
    (member : Option MemberRef) :
    (s.placed dims member).subst c false = (s.subst c false).placed dims member := by
  rcases s.kind_cases with hwild' | ⟨-, hvar⟩ | ⟨v, hv⟩
  · exact absurd hwild' (by simp [hwild])
  · rw [subst_of_none hvar hwild, subst_of_none (t := s.placed dims member) hvar hwild]
    rfl
  · have hplaced : (s.placed dims member).IsVar v := hv
    cases hfind : c.find? v with
    | some r =>
      rw [hv.subst_of_bound hfind, hplaced.subst_of_bound hfind, placed_placed]
      rfl
    | none => rw [hv.subst_of_unbound hfind, hplaced.subst_of_unbound hfind]

/-- Two substitutions, of which the first binds no variable to a wildcard, are their composition. -/
theorem subst_andThen (hb : ∀ v s, b.find? v = some s → s.wildcard = false) (c : Bindings)
    (t : JType) : (t.subst b false).subst c false = t.subst (b.andThen c) false := by
  induction t using parts_induction with
  | step t ih =>
    have hlist : ∀ ts : List JType, (∀ p ∈ ts, p ∈ t.parts) →
        (ts.map (subst b false)).map (subst c false) = ts.map (subst (b.andThen c) false) := by
      intro ts hts
      rw [List.map_map]
      exact List.map_congr_left fun p hp => ih p (hts p hp)
    rcases t.kind_cases with hwild | ⟨hwild, hvar⟩ | ⟨v, hv⟩
    · have hupper := hlist t.upper fun _ => mem_parts_of_upper
      have hlower := hlist t.lower fun _ => mem_parts_of_lower
      obtain ⟨hwild', hupper', hlower'⟩ := subst_of_wildcard hwild b false
      rw [subst_eq_of_wildcard hwild', hupper', hlower', hupper, hlower, subst_eq_of_wildcard hwild]
    · have hargs : (t.args.map (List.map (subst b false))).map (List.map (subst c false)) =
          t.args.map (List.map (subst (b.andThen c) false)) := by
        cases hargs : t.args with
        | none => rfl
        | some as => exact congrArg some (hlist as fun _ => mem_parts_of_args hargs)
      rw [subst_eq_of_none hvar hwild, subst_eq_of_none (t := t.withArgs _) hvar hwild,
        subst_eq_of_none hvar hwild, ← hargs]
      rfl
    · have hcomposed := Bindings.find?_andThen b c v
      cases hfind : b.find? v with
      | some s =>
        rw [hfind] at hcomposed
        rw [hv.subst_of_bound hfind, hv.subst_of_bound hcomposed, subst_placed (hb v s hfind)]
      | none =>
        rw [hfind] at hcomposed
        rw [hv.subst_of_unbound hfind]
        cases hother : c.find? v with
        | some s => rw [hv.subst_of_bound hother, hv.subst_of_bound (hcomposed.trans hother)]
        | none => rw [hv.subst_of_unbound hother, hv.subst_of_unbound (hcomposed.trans hother)]

/-! ## Closing -/

theorem mentionsVarList_eq_false_iff {ts : List JType} :
    mentionsVarList ts = false ↔ ∀ t ∈ ts, t.mentionsVar = false := by
  induction ts with
  | nil => simp [mentionsVarList]
  | cons t ts ih => simp [mentionsVarList, ih]

/-- Variables are looked for in the type itself, in its type arguments and in the bounds of a wildcard. -/
theorem mentionsVar_eq_false_iff :
    t.mentionsVar = false ↔
      t.isTypeVar = false ∧ (∀ as, t.args = some as → ∀ a ∈ as, a.mentionsVar = false) ∧
        (t.wildcard = true → ∀ u ∈ t.upper, u.mentionsVar = false) ∧
        ∀ l ∈ t.lower, l.mentionsVar = false := by
  obtain ⟨name, args, dims, upper, lower, var, wildcard, unresolved, binding, member⟩ := t
  cases args <;> cases wildcard <;>
    simp [mentionsVar, mentionsVarOpt, mentionsVarList_eq_false_iff, isTypeVar, and_assoc]

theorem mentionsVar_placed (s : JType) (dims : Nat) (member : Option MemberRef) :
    (s.placed dims member).mentionsVar = s.mentionsVar := by
  cases s
  rfl

/-- Where closed types are bound and the other variables dropped, none is left. -/
theorem mentionsVar_subst_drop (hb : ∀ v s, b.find? v = some s → s.mentionsVar = false)
    (h : t.WellBuilt) : (t.subst b true).mentionsVar = false := by
  induction t using parts_induction with
  | step t ih =>
    obtain ⟨hself, hparts⟩ := wellBuilt_iff.mp h
    have hmap : ∀ ts : List JType, (∀ p ∈ ts, p ∈ t.parts) →
        ∀ q ∈ ts.map (subst b true), q.mentionsVar = false := by
      intro ts hts q hq
      obtain ⟨p, hp, rfl⟩ := List.mem_map.mp hq
      exact ih p (hts p hp) (hparts p (hts p hp))
    rcases t.kind_cases with hwild | ⟨hwild, hvar⟩ | ⟨v, hv⟩
    · rw [subst_eq_of_wildcard hwild, mentionsVar_eq_false_iff]
      exact ⟨Bool.and_false _, nofun, fun _ => hmap t.upper fun _ => mem_parts_of_upper,
        hmap t.lower fun _ => mem_parts_of_lower⟩
    · rw [subst_eq_of_none hvar hwild, mentionsVar_eq_false_iff]
      refine ⟨by simp [isTypeVar, withArgs, hvar], fun as has => ?_, fun hwild' => ?_, fun l hl => ?_⟩
      · obtain ⟨args, hargs, rfl⟩ := Option.map_eq_some_iff.mp has
        exact hmap args fun _ => mem_parts_of_args hargs
      · exact absurd hwild' (by simp [withArgs, hwild])
      · -- lower bounds would stay as they are, but there are none
        simp [withArgs, hself.lower hwild] at hl
    · cases hfind : b.find? v with
      | some s =>
        rw [hv.subst_of_bound hfind, mentionsVar_placed]
        exact hb v s hfind
      | none =>
        rw [hv.subst_of_dropped hfind]
        rfl

/-- Two substitutions, of which the first binds no variable to a wildcard, are one, in every type; and a
substitution of closed types that drops all other variables closes every type. -/
theorem subst_composed_and_closed :
    (∀ (t : JType) (b c : Bindings), (∀ v s, b.find? v = some s → s.wildcard = false) →
      (t.subst b false).subst c false = t.subst (b.andThen c) false) ∧
    ∀ (t : JType) (b : Bindings), t.Obtained →
      (∀ v s, b.find? v = some s → s.mentionsVar = false) → (t.subst b true).mentionsVar = false :=
  ⟨fun t _ c hb => subst_andThen hb c t, fun _ _ ht hb => mentionsVar_subst_drop hb ht.wellBuilt⟩

/-- `p.Pair<T[], ? extends U>`. -/
def pairOfVariables : JType :=
  generic "p.Pair" [(typeVar "T" []).arrayOf 1, .wildUpper (typeVar "U" [])]

theorem pairOfVariables_obtained : pairOfVariables.Obtained := by
  have hvar : ∀ v, (typeVar v []).Obtained := fun v => .typeVar v nofun
  refine .generic _ fun a ha => ?_
  simp only [List.mem_cons, List.not_mem_nil, or_false] at ha
  rcases ha with rfl | rfl
  · exact (hvar "T").arrayOf 1
  · exact (hvar "U").wildUpper

/-- What `T` becomes in a first step: `p.List<U>[]`. -/
def listOfVariable : Bindings := [("T", (generic "p.List" [typeVar "U" []]).arrayOf 1)]

/-- `p.Pair<p.List<String>[][], ? extends String>` is what two steps make of the pair, the second of
which binds `U` to a string, and their composition as well.  Where `T` is a string and `U` is dropped,
no variable is left. -/
theorem pairOfVariables_composed :
    (pairOfVariables.subst listOfVariable false).subst [("U", string)] false =
        pairOfVariables.subst (listOfVariable.andThen [("U", string)]) false ∧
      (pairOfVariables.subst listOfVariable false).subst [("U", string)] false =
        generic "p.Pair" [(generic "p.List" [string]).arrayOf 2, .wildUpper string] ∧
      (pairOfVariables.subst [("T", string)] true).mentionsVar = false := by
  obtain ⟨hcomposed, hclosed⟩ := subst_composed_and_closed
  refine ⟨hcomposed _ _ _ fun v s hs => ?_, rfl, hclosed _ _ pairOfVariables_obtained fun v s hs => ?_⟩
  · exact Bindings.eq_of_find?_singleton hs ▸ rfl
  · exact Bindings.eq_of_find?_singleton hs ▸ rfl

end JType

end JavaSema
