import JavaSema.Proofs.Analysis.Arguments

/-!
# The tours of lambdas and method references

A lambda is visited each time that it is checked.  Of a method reference, what stands before the
colons is typed once, and whether a call is counted depends on its type.

There are four groups.

* Recorded types and counted calls.
* What is known of a method reference once its parts are typed.
* The first and the second round over a method reference.
* Lambdas and method references against a target type.
-/

namespace JavaSema.Analysis

open Source

variable {α β : Type}

/-! ## Recorded types -/

/-- A type that is recorded last is the one that is looked up. -/
theorem lookup_recorded {id : NodeId} {m : Check α} {type : α → JType} {setting : Setting}
    {s s' : State} {a : α}
    (h : exec ((do let a ← m; record id (type a); return a : Check α) setting) s = (.ok a, s')) :
    s'.typings.lookup id = some (type a) := by
  obtain ⟨b, u, -, hrest⟩ := ok_of_exec_bind h
  cases hrest
  exact List.lookup_cons_self

theorem resolveType_lookup {t : TypeRef} {setting : Setting} {s s' : State} {type : JType}
    (h : exec (resolveType t setting) s = (.ok type, s')) :
    s'.typings.lookup t.id = some type := by
  obtain ⟨id, shape⟩ := t
  rw [resolveType] at h
  exact lookup_recorded h

/-! ## Counted calls -/

theorem recordCall_alike (n : Node) (candidate : MethodCandidate) (setting : Setting) (s : State) :
    Alike { s with calls := s.calls + 1 } (exec (recordCall n candidate setting) s).2 := by
  rw [recordCall, run_bind_ok (run_modify _ _ _)]
  refine still_classes.bind (fun env => ?_) setting { s with calls := s.calls + 1 }
  split
  · exact (Still.inTable _ _).discard
  · exact .pure _

/-- A call that is recorded is counted. -/
theorem takes_recordCall {t : Tour} {P : Typings → Prop} (n : Node) (candidate : MethodCandidate)
    (htally : ∀ T, P T → t.tally T = 1) (hwalk : ∀ b M, t.walk b M = M) :
    Takes P t (recordCall n candidate) fun _ => anyTypes := by
  refine .counting (goes_recordCall n candidate) ?_ ?_ htally hwalk
  · exact fun setting s => (recordCall_alike n candidate setting s).2
  · intro setting s a s' hrun
    have halike := recordCall_alike n candidate setting s
    rw [hrun] at halike
    exact halike.1

/-! ## Method references -/

/-- What is known after the part before the colons of a method reference was typed. -/
def TargetKnown (T : Typings) (found : JType × Bool) : RefTarget → Prop
  | .expr e => T.lookup e.id = some found.1
  | .type t => T.lookup t.id = some found.1
  | .parent => found.2 = false

/-- What is known of a method reference after its parts were typed. -/
def RefKnown (e : Expr) (ref : MethodRef) (T : Typings) : Prop :=
  ∃ target typeArgs, e.shape = .methodRef target typeArgs ref.name ∧
    TargetKnown T (ref.receiver, ref.isType) target

/-- A method reference counts unless it creates an array. -/
theorem callsAt_methodRef {e : Expr} {ref : MethodRef} {T : Typings} (h : RefKnown e ref T)
    {env : ClassEnv} {depth : Nat} {params : List JType} {selection : MethodRef.Selection}
    (hselect : ref.select? env depth params = some selection) :
    callsAt T (.expr e) = if selection.applicable.isSome then 1 else 0 := by
  obtain ⟨id, shape⟩ := e
  obtain ⟨target, typeArgs, rfl, htarget⟩ := h
  rw [MethodRef.select?] at hselect
  simp only [callsAt]
  split at hselect
  · rename_i hnew
    rw [MethodRef.selectConstructor?] at hselect
    split at hselect
    · cases hselect
    · rename_i htype
      have harray : (targetId? target).any (isArrayAt T) = ref.receiver.isArray := by
        cases target with
        | expr e => simp [targetId?, isArrayAt, show T.lookup e.id = _ from htarget]
        | type t => simp [targetId?, isArrayAt, show T.lookup t.id = _ from htarget]
        | parent => simp [show ref.isType = false from htarget] at htype
      rw [hnew, harray]
      split at hselect
      · rename_i hreceiver
        cases hselect
        simp [hreceiver]
      · rename_i hreceiver
        obtain ⟨a, -, rfl⟩ := Option.map_eq_some_iff.mp hselect
        simp [hreceiver]
  · rename_i hnew
    obtain ⟨a, -, rfl⟩ := Option.map_eq_some_iff.mp hselect
    simp [hnew]

/-- The leg over a receiver, which is visited only if it has no type. -/
def Leg.receiver (r : Expr) : Leg :=
  { Leg.through [.node (.expr r)] with
    memo := [r]
    memo_mem := by
      rintro q hq
      rw [List.mem_singleton.mp hq]
      have hself : Node.expr r ∈ Stop.below [.node (.expr r)] := by
        simpa [Stop.target] using Node.self_mem_subtree (.expr r)
      exact List.mem_map_of_mem (f := Node.id) hself }

/-- The leg over what stands before the colons of a method reference. -/
def Leg.ofTarget : RefTarget → Leg
  | .expr r => .receiver r
  | .type _ | .parent => .through []

theorem early_methodRef (id : NodeId) (target : RefTarget) (typeArgs : List TypeRef)
    (name : String) : Leg.early ⟨id, .methodRef target typeArgs name⟩ = .ofTarget target := by
  cases target <;> simp [Leg.early, Leg.inside, Leg.ofTarget, Leg.receiver, Leg.through, Node.stops,
    Expr.children, Node.stop?, receiver?]

theorem RefKnown.typed {e : Expr} {ref : MethodRef} {T : Typings} (h : RefKnown e ref T) :
    RefsTyped [e] T := by
  obtain ⟨id, shape⟩ := e
  obtain ⟨target, typeArgs, rfl, htarget⟩ := h
  intro a ha r hr
  rw [List.mem_singleton.mp ha] at hr
  cases target with
  | expr e =>
    cases hr
    rw [Typed, show T.lookup r.id = _ from htarget]
    rfl
  | type | parent => cases hr

/-- The type of a receiver, which is found out once. -/
def typedOnce (c : Checker) (r : Expr) : Check JType := do
  match ← typeOf? r.id with
  | some t => pure t
  | none => c.expr r none

theorem refReceiver_expr (c : Checker) (e r : Expr) :
    refReceiver c e (.expr r) = (do
      let t ← typedOnce c r
      return (t, ← namesType r)) := by
  simp only [refReceiver, typedOnce, bind_assoc]
  refine bind_congr fun found => ?_
  cases found <;> rfl

section

variable {c : Checker} {r : Expr} {setting : Setting} {s : State}

theorem exec_typedOnce_some {t : JType} (h : s.typings.lookup r.id = some t) :
    exec (typedOnce c r setting) s = (.ok t, s) := by
  show exec ((match s.typings.lookup r.id with
    | some t => pure t
    | none => c.expr r none : Check JType) setting) s = _
  rw [h]
  rfl

theorem exec_typedOnce_none (h : s.typings.lookup r.id = none) :
    exec (typedOnce c r setting) s = exec (c.expr r none setting) s := by
  show exec ((match s.typings.lookup r.id with
    | some t => pure t
    | none => c.expr r none : Check JType) setting) s = _
  rw [h]

theorem exec_typedOnce_cases (c : Checker) (r : Expr) (setting : Setting) (s : State) :
    (Typed s.typings r.id ∧ ∃ t, s.typings.lookup r.id = some t ∧
      exec (typedOnce c r setting) s = (.ok t, s)) ∨
    exec (typedOnce c r setting) s = exec (c.expr r none setting) s := by
  cases h : s.typings.lookup r.id with
  | some t => exact .inl ⟨by rw [Typed, h]; rfl, t, rfl, exec_typedOnce_some h⟩
  | none => exact .inr (exec_typedOnce_none h)

end

section

variable {c : Checker} (hc : c.Touring) {M : NodeId → Prop}

include hc

/-- A receiver is visited if it has no type, and otherwise keeps the one that it has. -/
theorem takes_typedOnce (r : Expr) (hclear : (Leg.receiver r).Clear M) :
    Takes anyTypes (.along M (.receiver r)) (typedOnce c r) fun t T => T.lookup r.id = some t := by
  have hexpr := hc.expr M r none ⟨hclear.nodup, hclear.apart⟩
  have hbelow : Stop.below (Leg.receiver r).stops = (Node.expr r).subtree := by
    simp [Leg.receiver, Leg.through, Stop.target]
  have hfresh : r ∈ (Tour.along M (.receiver r)).fresh :=
    List.mem_append_left _ List.mem_cons_self
  refine ⟨?_, ?_, ?_, ?_, ?_, ?_⟩
  · refine (goes_typeOf? _).bind fun found => ?_
    split
    · exact .pure _
    · exact hexpr.has
  · intro setting s _
    rcases exec_typedOnce_cases c r setting s with ⟨-, t, -, hrun⟩ | hrun
    · rw [hrun]
      exact Footprint.typings_refl _
    · rw [hrun]
      exact hexpr.grows setting s trivial
  · intro setting s t s' hrun _
    rcases exec_typedOnce_cases c r setting s with ⟨-, t, hlookup, hsame⟩ | hsame
    · rw [hsame] at hrun
      cases hrun
      exact hlookup
    · rw [hsame] at hrun
      exact hc.exprType hrun
  · intro setting s _ hplain
    rcases exec_typedOnce_cases c r setting s with ⟨-, t, -, hrun⟩ | hrun
    · rw [hrun]
    · rw [hrun]
      exact hexpr.plain setting s trivial hplain
  · intro setting s t s' hrun _ _ hcount
    rcases exec_typedOnce_cases c r setting s with ⟨htyped, t, -, hsame⟩ | hsame
    · rw [hsame] at hrun
      cases hrun
      -- nothing is counted, but there are no calls to count
      have hfree := (hcount.2 r hfresh).resolve_left (absurd htyped)
      rw [Tour.tally_along, hbelow, sum_callsAt_eq_zero s.typings hfree]
      rfl
    · rw [hsame] at hrun
      refine hexpr.calls hrun trivial trivial ⟨hcount.1, fun q hq => hcount.2 q ?_⟩
      exact List.mem_append_right _ hq
  · intro setting s t s' hrun _ _ hs horder
    rcases exec_typedOnce_cases c r setting s with ⟨htyped, t, -, hsame⟩ | hsame
    · rw [hsame] at hrun
      cases hrun
      have hfree := (horder.2 r hfresh).resolve_left (absurd htyped)
      exact (walk_eq_self hfree _ _).symm
    · rw [hsame] at hrun
      refine hexpr.model hrun trivial trivial hs ⟨horder.1, fun q hq => horder.2 q ?_⟩
      exact List.mem_append_right _ hq

/-- A receiver that has a type is not visited again. -/
theorem takes_typedAgain (r : Expr) :
    Takes (fun T => Typed T r.id) (.marking M) (typedOnce c r) fun t T =>
      T.lookup r.id = some t := by
  have hrun : ∀ setting s, Typed s.typings r.id → ∃ t, s.typings.lookup r.id = some t ∧
      exec (typedOnce c r setting) s = (.ok t, s) := by
    intro setting s htyped
    obtain ⟨t, ht⟩ := Option.isSome_iff_exists.mp htyped
    exact ⟨t, ht, exec_typedOnce_some ht⟩
  refine ⟨?_, ?_, ?_, ?_, ?_, ?_⟩
  · refine (goes_typeOf? _).bind fun found => ?_
    split
    · exact .pure _
    · exact hc.balanced.goes_expr (fun _ => trivial) r none
  · intro setting s htyped
    obtain ⟨t, -, hsame⟩ := hrun setting s htyped
    rw [hsame]
    exact Footprint.typings_refl _
  · intro setting s t s' hok htyped
    obtain ⟨t, hlookup, hsame⟩ := hrun setting s htyped
    rw [hsame] at hok
    cases hok
    exact hlookup
  · intro setting s htyped _
    obtain ⟨t, -, hsame⟩ := hrun setting s htyped
    rw [hsame]
  · intro setting s t s' hok _ htyped _
    obtain ⟨t, -, hsame⟩ := hrun setting s htyped
    rw [hsame] at hok
    cases hok
    rfl
  · intro setting s t s' hok _ htyped _ _
    obtain ⟨t, -, hsame⟩ := hrun setting s htyped
    rw [hsame] at hok
    cases hok
    rfl

theorem takes_refReceiver (e : Expr) (target : RefTarget)
    (htypes : ∀ t, target = .type t → (resolving M).Allows (.type t))
    (hclear : (Leg.ofTarget target).Clear M) :
    Takes anyTypes (.along M (.ofTarget target)) (refReceiver c e target) fun found T =>
      TargetKnown T found target := by
  cases target with
  | type t =>
    have hresolve := Travels.leaf (goes_resolveType t (htypes t rfl)) (still_resolveType t) hclear
    have hresolve := hresolve.knowing (S := fun type T => T.lookup t.id = some type)
      resolveType_lookup
    exact hresolve.ret _ fun _ _ h => h.2
  | expr r =>
    rw [refReceiver_expr]
    have hname : ∀ t, Takes (fun T => T.lookup r.id = some t) (.marking fun _ => False)
        (do return (t, ← namesType r)) fun found T => TargetKnown T found (.expr r) :=
      fun t => .skip (goes_namesType r) (still_namesType r) fun isType => .pure fun _ h => h
    refine ((takes_typedOnce hc r hclear).bind hname (Tour.apart_marking_right ?_)).le ?_
    · exact fun _ _ _ _ => id
    · exact Tour.append_marking_le fun _ => False.elim
  | parent =>
    have hclass := Travels.leaf (M := M) (goes_currentClass (.expr e)) (still_currentClass _) hclear
    exact hclass.ret _ fun _ _ _ => rfl

theorem takes_refReceiver_again (e : Expr) (target : RefTarget)
    (htypes : ∀ t, target = .type t → (resolving M).Allows (.type t)) :
    Takes (fun T => ∀ r, target = .expr r → Typed T r.id) (.marking M) (refReceiver c e target)
      fun found T => TargetKnown T found target := by
  cases target with
  | type t =>
    have hresolve : Takes (fun T => ∀ r, RefTarget.type t = .expr r → Typed T r.id) (.marking M)
        (resolveType t) fun _ => anyTypes :=
      .leaf (goes_resolveType t (htypes t rfl)) (still_resolveType t)
    have hresolve := hresolve.knowing (S := fun type T => T.lookup t.id = some type)
      resolveType_lookup
    exact hresolve.ret _ fun _ _ h => h.2
  | expr r =>
    rw [refReceiver_expr]
    have hname : ∀ t, Takes (fun T => T.lookup r.id = some t) (.marking fun _ => False)
        (do return (t, ← namesType r)) fun found T => TargetKnown T found (.expr r) :=
      fun t => .skip (goes_namesType r) (still_namesType r) fun isType => .pure fun _ h => h
    have htyped := (takes_typedAgain hc (M := M) r).bind hname
      (Tour.apart_marking_right fun _ _ _ _ => id)
    refine htyped.imp (Tour.append_marking_le fun _ => False.elim) ?_ fun _ _ => id
    exact fun T h => h r rfl
  | parent =>
    have hclass : Takes (fun T => ∀ r, RefTarget.parent = .expr r → Typed T r.id) (.marking M)
        (currentClass (.expr e)) fun _ => anyTypes :=
      .leaf (goes_currentClass _) (still_currentClass _)
    exact hclass.ret _ fun _ _ _ => rfl

/-- The first round over a method reference. -/
theorem takes_methodRefOf (e : Expr)
    (htypes : ∀ t ∈ (Node.expr e).types, (resolving M).Allows (.type t))
    (hclear : (Leg.early e).Clear M) :
    Takes anyTypes (.along M (.early e)) (methodRefOf c e) (RefKnown e) := by
  obtain ⟨id, shape⟩ := e
  cases shape with
  | methodRef target typeArgs name =>
    rw [early_methodRef] at hclear ⊢
    refine .resolve (goes_resolveTypes (F := resolving M) typeArgs fun t ht => htypes t ?_)
      (still_resolveTypes _) (fun _ _ _ h => h) ?_ (fun _ => .inl) fun types => ?_
    · exact Node.mem_types.mpr (by simp [Node.children, Expr.children, ht])
    · exact fun r hr => hclear.apart _ (Tour.fresh_along hr)
    · have htarget := takes_refReceiver hc ⟨id, .methodRef target typeArgs name⟩ target
        (M := M) ?_ hclear
      · exact htarget.ret _ fun found T h => ⟨target, typeArgs, rfl, h⟩
      · rintro t rfl
        exact htypes t (Node.mem_types.mpr (by simp [Node.children, Expr.children]))
  | _ => exact .failAt _ _

/-- The second round over a method reference, up to the method. -/
theorem takes_methodRefOf_again (e : Expr)
    (htypes : ∀ t ∈ (Node.expr e).types, (resolving M).Allows (.type t)) :
    Takes (RefsTyped [e]) (.marking M) (methodRefOf c e) (RefKnown e) := by
  obtain ⟨id, shape⟩ := e
  cases shape with
  | methodRef target typeArgs name =>
    refine .resolve (goes_resolveTypes (F := resolving M) typeArgs fun t ht => htypes t ?_)
      (still_resolveTypes _) ?_ nofun (fun _ h => h) fun types => ?_
    · exact Node.mem_types.mpr (by simp [Node.children, Expr.children, ht])
    · exact fun T T' hgrow hrefs => hrefs.mono hgrow.suffix
    · have htarget := takes_refReceiver_again hc ⟨id, .methodRef target typeArgs name⟩ target
        (M := M) ?_
      · refine TakesIf.imp (htarget.ret _ fun found T h => ?_) (.refl _) ?_ fun _ _ h => h
        · exact ⟨target, typeArgs, rfl, h⟩
        · rintro T hrefs r rfl
          exact hrefs _ List.mem_cons_self r rfl
      · rintro t rfl
        exact htypes t (Node.mem_types.mpr (by simp [Node.children, Expr.children]))
  | _ => exact .failAt _ _

omit hc in
/-- The method that a reference selects is counted. -/
theorem takes_checkMethodRef {P : Typings → Prop} {t : Tour} (e : Expr) (f : FunctionType)
    (href : Takes P t (methodRefOf c e) (RefKnown e)) :
    Takes P (t ++ .own (.expr e)) (checkMethodRef c e f) fun _ => anyTypes := by
  refine href.bind (fun ref => ?_) ⟨nofun, fun _ _ _ _ => id⟩
  refine .skip .get .get fun s => .skip goes_classes still_classes fun env => ?_
  refine .skip .read .read fun setting => ?_
  split
  · exact .failAt _ _
  · rename_i selection hselect
    extract_lets -underBinder next
    have hnext : ∀ r, Has .silent (next r) := by
      intro r
      refine Goes.get.bind fun s => goes_classes.bind fun env => ?_
      exact .ite (.failAt _ _) (.pure _)
    have hstill : ∀ r, Still (next r) := by
      intro r
      refine Still.get.bind fun s => still_classes.bind fun env => ?_
      exact .ite (.failAt _ _) (.pure _)
    have hcalls : ∀ T, RefKnown e ref T →
        (Tour.own (.expr e)).tally T = if selection.applicable.isSome then 1 else 0 := by
      intro T hknown
      rw [Tour.tally_own, callsAt_methodRef hknown hselect]
    split
    · rename_i a happlicable
      simp only [happlicable] at hcalls
      exact (takes_recordCall _ _ hcalls fun _ _ => rfl).done hnext hstill
    · rename_i hnone
      have hnone : selection.applicable = none := Option.eq_none_iff_forall_ne_some.mpr hnone
      simp only [hnone] at hcalls
      refine .counting (hnext ()) (fun setting s => (hstill () setting s).2) ?_ hcalls fun _ _ => rfl
      intro setting s a s' hrun
      have halike := hstill () setting s
      rw [hrun] at halike
      exact halike.1

theorem visits_bodyType (expected : JType) (body : LambdaBody) :
    Visits M [.node (bodyNode body)] (bodyType c expected body) := by
  cases body with
  | expr e => exact (hc.expr M e _).done (fun _ => .pure _) fun _ => .pure _
  | block s =>
    refine ((hc.stmt M s).withFrame _).done (fun r => ?_) fun r => ?_
    · split
      · exact goes_classes.bind fun _ => .pure _
      · exact .pure _
    · split
      · exact still_classes.bind fun _ => .pure _
      · exact .pure _

theorem visits_checkLambda (e : Expr) (f : FunctionType) (params : List LambdaParam)
    (body : LambdaBody) (htypes : ∀ p ∈ params, ∀ t ∈ p.type, (resolving M).Allows (.type t)) :
    Visits M [.node (bodyNode body)] (checkLambda c e f params body) := by
  unfold checkLambda
  refine .skip .get .get fun s => .ite (.failAt _ _) ?_
  refine Travels.done (.inBlock (.skip ?_ ?_ fun _ => ?_) _) (fun produced => ?_) fun produced => ?_
  · exact has_bindParams rfl e f _ _ fun p hp => htypes p.1 (List.of_mem_zip hp).1
  · exact still_bindParams e f _ _
  · exact visits_bodyType hc _ body
  · exact goes_classes.bind fun _ => .ite (.failAt _ _) (.pure _)
  · exact still_classes.bind fun _ => .ite (.failAt _ _) (.pure _)

end

theorem stops_lambda {e : Expr} {params : List LambdaParam} {body : LambdaBody}
    (hshape : e.shape = .lambda params body) : (Node.expr e).stops = [.node (bodyNode body)] := by
  cases body <;> simp [Node.stops, Expr.children, hshape, Node.stop?, bodyNode]

theorem atNode_allows {M : NodeId → Prop} {n : Node} {t : TypeRef} (ht : t ∈ n.types) :
    (resolving (atNode M n)).Allows (.type t) := by
  intro m hm _
  refine .inr (List.mem_map_of_mem (List.mem_cons_of_mem _ ?_))
  exact List.mem_flatMap.mpr ⟨t, ht, hm⟩

theorem atNode_self {M : NodeId → Prop} (n : Node) : (resolving (atNode M n)).marks n.id :=
  .inr List.mem_cons_self

/-- The stops below a lambda are visited in the second round. -/
theorem Tour.lambda_late_le {e : Expr} (h : isLambda e = true) :
    (along (atNode (fun _ => False) (.expr e)) (.through (Node.expr e).stops)).Le (late [e]) := by
  have hlate : [e].flatMap lateNodes = (Node.expr e).subtree := by
    obtain ⟨id, shape⟩ := e
    cases shape with
    | lambda => simp [lateNodes]
    | _ => cases h
  have hcalls : hasCalls (.expr e) = false := by
    obtain ⟨id, shape⟩ := e
    cases shape with
    | lambda => rfl
    | _ => cases h
  have hbelow : ∀ n ∈ Stop.below (Node.expr e).stops, n ∈ (Node.expr e).subtree :=
    fun n => Node.mem_subtree_of_stops
  have hreceiver : ∀ r ∈ (along (atNode (fun _ => False) (.expr e))
      (.through (Node.expr e).stops)).fresh, ∃ n ∈ (Node.expr e).subtree, receiver? n = some r := by
    intro r hr
    obtain ⟨n, hn, hr⟩ := List.mem_filterMap.mp hr
    exact ⟨n, hbelow n hn, hr⟩
  refine ⟨?_, ?_, ?_, ?_, ?_, ?_⟩
  · intro id hid
    show id ∈ ([e].flatMap lateNodes).map Node.id
    rw [hlate]
    refine ((Node.subtree_perm _).map Node.id).mem_iff.mpr ?_
    rw [List.map_cons, List.map_append]
    rcases hid with (hid | hid) | hid
    · exact hid.elim
    · rcases List.mem_cons.mp hid with hid | hid
      · exact List.mem_cons.mpr (.inl hid)
      · exact List.mem_cons_of_mem _ (List.mem_append_left _ hid)
    · exact List.mem_cons_of_mem _ (List.mem_append_right _ hid)
  · intro T T' _
    rw [tally_along]
    show 0 + ((Stop.below (Node.expr e).stops).map (callsAt T')).sum
      = 0 + (([e].flatMap lateNodes).map (callsAt T')).sum
    rw [hlate, Node.sum_subtree (callsAt_type T'), callsAt_eq_zero T' hcalls, Nat.zero_add,
      Nat.zero_add]
  · rintro T ⟨⟨hsilent, hargs⟩, -⟩
    rw [hlate] at hargs
    refine ⟨⟨List.forall_mem_nil _, fun n hn => hargs n (hbelow n hn)⟩, fun r hr => .inr ?_⟩
    obtain ⟨n, hn, hr⟩ := hreceiver r hr
    exact hsilent e List.mem_cons_self h n hn r hr
  · rintro T ⟨hfree, -⟩
    have hfree : Free isDecl (.expr e) := hfree e List.mem_cons_self h
    funext b N
    exact (walk_eq b (.expr e) N).symm.trans (walk_eq_self hfree b N)
  · rintro T ⟨hfree, -⟩
    have hfree : Free isDecl (.expr e) := hfree e List.mem_cons_self h
    refine ⟨⟨List.forall_mem_nil _, fun n hn => hfree.lambdaArgs (hbelow n hn)⟩, fun r hr => .inr ?_⟩
    obtain ⟨n, hn, hr⟩ := hreceiver r hr
    exact hfree.mono (Node.child_mem_subtree hn (receiver?_mem_children hr))
  · intro hplain n hn
    refine hplain n ?_
    show n ∈ [e].flatMap lateNodes
    rw [hlate]
    exact hbelow n hn

/-- The types and the method of a reference are visited in the second round. -/
theorem Tour.methodRef_late_le {e : Expr} {target : RefTarget} {typeArgs : List TypeRef}
    {name : String} (hshape : e.shape = .methodRef target typeArgs name) :
    (marking (atNode (fun _ => False) (.expr e)) ++ own (.expr e)
      ++ marking fun id => id = e.id).Le (late [e]) := by
  have hlate : [e].flatMap lateNodes = .expr e :: Node.belowTypes (Node.expr e).types := by
    simp [lateNodes, hshape]
  have htypes : ∀ T, ((Node.belowTypes (Node.expr e).types).map (callsAt T)).sum = 0 := by
    intro T
    refine List.sum_eq_zero fun k hk => ?_
    obtain ⟨n, hn, rfl⟩ := List.mem_map.mp hk
    obtain ⟨t, rfl⟩ := Node.eq_type_of_mem_belowTypes hn
    rfl
  refine .of_parts ?_ ?_ nofun (fun _ => ⟨⟨trivial, trivial⟩, trivial⟩)
    (fun _ => ⟨⟨trivial, trivial⟩, trivial⟩) (fun _ => rfl) ?_
  · intro id hid
    show id ∈ ([e].flatMap lateNodes).map Node.id
    rw [hlate]
    rcases hid with ((hid | hid) | hid) | hid
    · exact hid.elim
    · exact hid
    · exact hid.elim
    · exact List.mem_cons.mpr (.inl hid)
  · intro T
    rw [tally_append, tally_append, tally_own]
    show 0 + callsAt T (.expr e) + 0 = 0 + (([e].flatMap lateNodes).map (callsAt T)).sum
    rw [hlate, List.map_cons, List.sum_cons, htypes T]
    omega
  · intro n hn
    show n ∈ [e].flatMap lateNodes
    rw [hlate]
    exact List.mem_cons.mpr (.inl (List.mem_singleton.mp hn))

theorem early_eq_inside {e : Expr} {target : RefTarget} {typeArgs : List TypeRef} {name : String}
    (hshape : e.shape = .methodRef target typeArgs name) : Leg.early e = .inside (.expr e) 0 := by
  obtain ⟨id, shape⟩ := e
  subst hshape
  rfl

/-- The types on which the number of calls at and below a node depends are not that of the node. -/
theorem readIds_ne {n m : Node} (hnodup : (n.subtree.map Node.id).Nodup) (hm : m ∈ n.subtree)
    {id : NodeId} (hid : id ∈ readIds m) : id ≠ n.id := by
  rintro rfl
  have hperm := ((Node.subtree_perm n).map Node.id).nodup_iff.mp hnodup
  exact (List.nodup_cons.mp hperm).1 (readIds_mem_below hm hid)

section

variable {c : Checker} {M : NodeId → Prop}

/-- A method reference is given its type after its method was counted. -/
theorem takes_checkFunctional_ref {P : Typings → Prop} {t : Tour} {e : Expr} {target : RefTarget}
    {typeArgs : List TypeRef} {name : String} (hshape : e.shape = .methodRef target typeArgs name)
    (href : Takes P t (methodRefOf c e) (RefKnown e))
    (hread : ∀ n ∈ .expr e :: t.nodes, ∀ id ∈ readIds n, id ≠ e.id) (type : JType) :
    Takes P (t ++ .own (.expr e) ++ .marking fun id => id = e.id) (checkFunctional c e type)
      fun _ => anyTypes := by
  have hrecord : ∀ outcome : Outcome, Takes anyTypes (.marking fun id => id = e.id)
      (do record e.id outcome.interfaceType; return outcome) fun _ => anyTypes := by
    intro outcome
    refine .leaf (Goes.bind (.record rfl _) fun _ => .pure _) ?_
    exact (Still.record _ _).bind fun _ => .pure _
  unfold checkFunctional
  refine .skip goes_classes still_classes fun env => ?_
  split
  · exact .failAt _ _
  · rename_i f _
    rw [hshape]
    refine (takes_checkMethodRef e f href).bind hrecord (Tour.apart_marking_right ?_)
    intro n hn
    refine hread n ?_
    rcases List.mem_append.mp hn with hn | hn
    · exact List.mem_cons_of_mem _ hn
    · exact List.mem_cons.mpr (.inl (List.mem_singleton.mp hn))

variable (hc : c.Touring)

include hc

theorem visits_checkFunctional_lambda {e : Expr} {params : List LambdaParam} {body : LambdaBody}
    (hshape : e.shape = .lambda params body) (type : JType) :
    Visits (atNode M (.expr e)) (Node.expr e).stops (checkFunctional c e type) := by
  rw [stops_lambda hshape]
  unfold checkFunctional
  refine .skip goes_classes still_classes fun env => ?_
  split
  · exact .failAt _ _
  · rename_i f _
    rw [hshape]
    refine Travels.done (visits_checkLambda hc e f params body fun p hp t ht => ?_) ?_ ?_
    · exact atNode_allows (Node.mem_types.mpr (lambdaType_mem_children hshape hp ht))
    · exact fun outcome => Goes.bind (.record (atNode_self (.expr e)) _) fun _ => .pure _
    · exact fun outcome => (Still.record _ _).bind fun _ => .pure _

/-- The second round over a lambda or method reference. -/
theorem takes_checkFunctional (e : Expr) (type : JType)
    (hnodup : ((Node.expr e).subtree.map Node.id).Nodup) :
    Takes (RefsTyped [e]) (.late [e]) (checkFunctional c e type) fun _ => anyTypes := by
  have hclear : (Leg.through [.node (.expr e)]).Clear fun _ => False := by
    refine ⟨?_, fun _ _ => id⟩
    simpa [Leg.ids, Leg.through, Stop.target] using hnodup
  cases hshape : e.shape with
  | lambda params body =>
    have hlambda : isLambda e = true := by simp [isLambda, hshape]
    have hvisit := visits_checkFunctional_lambda hc hshape type
      ⟨(hclear.inside 0).nodup, (hclear.inside 0).apart⟩
    exact hvisit.imp (Tour.lambda_late_le hlambda) (fun _ _ => trivial) fun _ _ => id
  | methodRef target typeArgs name =>
    have href := takes_methodRefOf_again hc e (M := atNode (fun _ => False) (.expr e))
      fun t ht => atNode_allows ht
    refine (takes_checkFunctional_ref hshape href ?_ type).le (Tour.methodRef_late_le hshape)
    intro n hn id hid
    rw [List.mem_singleton.mp hn] at hid
    exact readIds_ne hnodup (Node.self_mem_subtree _) hid
  | _ =>
    unfold checkFunctional
    refine .skip goes_classes still_classes fun env => ?_
    split
    · exact .failAt _ _
    · rw [hshape]
      exact .failAt _ _

/-- A lambda or method reference whose target type is known is visited in one go. -/
theorem visits_checkFunctional (e : Expr) (type : JType) :
    Visits M [.node (.expr e)] (checkFunctional c e type) := by
  cases hshape : e.shape with
  | lambda params body =>
    refine .stops rfl ?_ rfl (visits_checkFunctional_lambda hc hshape type)
    obtain ⟨id, shape⟩ := e
    subst hshape
    rfl
  | methodRef target typeArgs name =>
    intro hclear
    have hnodup : ((Node.expr e).subtree.map Node.id).Nodup := by
      have hnodup := hclear.nodup
      simpa [Leg.ids, Leg.through, Stop.target] using hnodup
    have hinside := hclear.inside 0
    rw [← early_eq_inside hshape] at hinside
    have href := takes_methodRefOf hc e (fun t ht => atNode_allows ht) hinside
    refine ((takes_checkFunctional_ref hshape href ?_ type).le (Tour.append_marking_le ?_)).le ?_
    · intro n hn id hid
      refine readIds_ne hnodup ?_ hid
      rcases List.mem_cons.mp hn with rfl | hn
      · exact Node.self_mem_subtree _
      · rw [early_eq_inside hshape] at hn
        exact Node.mem_subtree_of_stops hn
    · rintro id rfl
      exact .inl (.inl (atNode_self (.expr e)))
    · rw [early_eq_inside hshape]
      exact Tour.inside_own_le M (.expr e)
  | _ =>
    unfold checkFunctional
    refine .skip goes_classes still_classes fun env => ?_
    split
    · exact .failAt _ _
    · rw [hshape]
      exact .failAt _ _

end

end JavaSema.Analysis
