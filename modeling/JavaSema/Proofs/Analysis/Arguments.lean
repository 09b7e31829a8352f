import JavaSema.Proofs.Analysis.CoverExpr
import JavaSema.Proofs.Analysis.Visit

/-!
# The tour over the arguments of a call

The arguments of a call are visited in two rounds.  What needs no target type is visited once, before
candidates are tried.  Lambdas, and the methods that references select, are visited against each
candidate until one takes them all; the calls that were counted against a candidate are given up with
it, but the types and the classes are not.

There are four groups.

* `Leg.early` and `Tour.late` are the two rounds.  Together they make up the tour over the arguments.
* `Checker.Touring` is what checking a node of each kind visits.
* The two rounds are taken.
* Candidates.  The late round may be taken any number of times.
-/

namespace JavaSema.Analysis

open Source

variable {α β : Type}

/-! ## The two rounds -/

/-- The leg over what is visited of an argument before a candidate is tried. -/
def Leg.early (a : Expr) : Leg :=
  match a.shape with
  | .lambda _ _ => .through []
  | .methodRef _ _ _ => { Leg.inside (.expr a) 0 with args := [] }
  | _ => .through [.node (.expr a)]

/-- The nodes of an argument that are visited against a candidate. -/
def lateNodes (a : Expr) : List Node :=
  match a.shape with
  | .lambda _ _ => (Node.expr a).subtree
  | .methodRef _ _ _ => .expr a :: Node.belowTypes (Node.expr a).types
  | _ => []

/-- Both rounds together visit the argument. -/
theorem early_late_perm (a : Expr) :
    (Stop.below (Leg.early a).stops ++ lateNodes a).Perm (Node.expr a).subtree := by
  unfold Leg.early lateNodes
  split
  · exact .refl _
  · refine .trans ?_ (Node.subtree_perm _).symm
    exact List.perm_append_comm
  · simp [Leg.through, Stop.target]

/-- The first round over the arguments. -/
def Leg.earlyAll : List Expr → Leg
  | [] => .through []
  | a :: args => .early a ++ .earlyAll args

theorem Leg.earlyAll_stops (args : List Expr) :
    (Leg.earlyAll args).stops = args.flatMap fun a => (Leg.early a).stops := by
  induction args with
  | nil => rfl
  | cons a args ih =>
    rw [List.flatMap_cons, ← ih]
    rfl

/-- The numbers of the nodes that are visited in the second round. -/
def lateMarks (args : List Expr) (id : NodeId) : Prop := id ∈ (args.flatMap lateNodes).map Node.id

/-- The second round over the arguments. -/
def Tour.late (args : List Expr) : Tour where
  marks := lateMarks args
  nodes := args.flatMap lateNodes
  extra := 0
  fresh := []
  callsOnce := Lambdas RefsSilent args ∧ ∀ n ∈ args.flatMap lateNodes, LambdaArgs RefsSilent n
  namesOnce := Lambdas (Free isDecl) args
  walk _ M := M

/-- The leg over arguments. -/
def Leg.ofArgs (args : List Expr) : Leg :=
  { Leg.through (args.map fun a => .node (.expr a)) with args }

theorem below_ofArgs (args : List Expr) :
    Stop.below (Leg.ofArgs args).stops = args.flatMap fun a => (Node.expr a).subtree :=
  List.flatMap_map ..

theorem below_earlyAll (args : List Expr) :
    Stop.below (Leg.earlyAll args).stops =
      args.flatMap fun a => Stop.below (Leg.early a).stops := by
  rw [Leg.earlyAll_stops, Stop.below, List.flatMap_assoc]
  rfl

/-- The nodes of both rounds are those of the arguments. -/
theorem rounds_perm (args : List Expr) :
    (Stop.below (Leg.earlyAll args).stops ++ args.flatMap lateNodes).Perm
      (Stop.below (Leg.ofArgs args).stops) := by
  rw [below_earlyAll, below_ofArgs]
  refine (List.flatMap_append_perm _ _ _).trans ?_
  exact List.Perm.flatMap_left args fun a _ => early_late_perm a

section

variable {M : NodeId → Prop} {args : List Expr}

theorem Leg.Clear.early (h : (Leg.ofArgs args).Clear M) :
    (Leg.earlyAll args).Clear (lateMarks args) := by
  have hnodup := ((rounds_perm args).map Node.id).nodup_iff.mpr h.nodup
  rw [List.map_append] at hnodup
  obtain ⟨hearly, -, hdisjoint⟩ := List.nodup_append.mp hnodup
  exact ⟨hearly, fun id hid hmark => hdisjoint id hid id hmark rfl⟩

theorem Tour.early_apart_late (h : (Leg.ofArgs args).Clear M) :
    (along (lateMarks args) (.earlyAll args)).Apart (late args) :=
  ⟨nofun, fun _ hn _ hid => h.early.apart _ (Leg.readIds_mem_ids hn hid)⟩

/-- In the first round the same classes are named as on the whole tour, if there are none inside of
the lambdas. -/
theorem walkAll_early (h : Lambdas (Free isDecl) args) (b : Option String) (N : Model) :
    walkAll b (Leg.earlyAll args).stops N = walkAll b (Leg.ofArgs args).stops N := by
  rw [Leg.earlyAll_stops]
  show _ = walkAll b (args.map fun a => .node (.expr a)) N
  induction args generalizing N with
  | nil => rfl
  | cons a args ih =>
    obtain ⟨hfirst, hrest⟩ := List.forall_mem_cons.mp h
    rw [List.flatMap_cons, List.map_cons, walkAll_append, walkAll_cons, ih hrest]
    congr 1
    show _ = walk b (.expr a) N
    unfold Leg.early
    split
    · rename_i params body hshape
      have hlambda : isLambda a = true := by simp [isLambda, hshape]
      exact (walk_eq_self (hfirst hlambda) b N).symm
    · exact (walk_eq b (.expr a) N).symm
    · rfl

theorem memo_earlyAll {r : Expr} (hr : r ∈ (Leg.earlyAll args).memo) :
    ∃ a ∈ args, receiver? (.expr a) = some r := by
  induction args with
  | nil => cases hr
  | cons a args ih =>
    rcases List.mem_append.mp hr with hr | hr
    · refine ⟨a, List.mem_cons_self, ?_⟩
      unfold Leg.early at hr
      split at hr
      · cases hr
      · exact Option.mem_toList.mp hr
      · cases hr
    · obtain ⟨b, hb, hr⟩ := ih hr
      exact ⟨b, List.mem_cons_of_mem _ hb, hr⟩

/-- A receiver that is visited in the first round is that of an argument, or of a node below one. -/
theorem fresh_earlyAll {r : Expr} (hr : r ∈ (Tour.along M (.earlyAll args)).fresh) :
    r ∈ (Stop.below (Leg.ofArgs args).stops).filterMap receiver? := by
  have hmem : ∀ n ∈ Stop.below (Leg.earlyAll args).stops, n ∈ Stop.below (Leg.ofArgs args).stops :=
    fun n hn => (rounds_perm args).mem_iff.mp (List.mem_append_left _ hn)
  rcases List.mem_append.mp hr with hr | hr
  · obtain ⟨a, ha, hr⟩ := memo_earlyAll hr
    refine List.mem_filterMap.mpr ⟨.expr a, ?_, hr⟩
    rw [below_ofArgs]
    exact List.mem_flatMap.mpr ⟨a, ha, Node.self_mem_subtree _⟩
  · obtain ⟨n, hn, hr⟩ := List.mem_filterMap.mp hr
    exact List.mem_filterMap.mpr ⟨n, hmem n hn, hr⟩

theorem early_plain (a : Expr) : (Leg.early a).args = [] ∧ (Leg.early a).extra = 0 := by
  unfold Leg.early
  split <;> exact ⟨rfl, rfl⟩

theorem earlyAll_plain (args : List Expr) :
    (Leg.earlyAll args).args = [] ∧ (Leg.earlyAll args).extra = 0 := by
  induction args with
  | nil => exact ⟨rfl, rfl⟩
  | cons a args ih =>
    obtain ⟨hargs, hextra⟩ := early_plain a
    constructor
    · show (Leg.early a).args ++ (Leg.earlyAll args).args = []
      rw [hargs, ih.1]
      rfl
    · show (Leg.early a).extra + (Leg.earlyAll args).extra = 0
      rw [hextra, ih.2]

/-- Both rounds make up the tour over the arguments. -/
theorem Tour.rounds_le (M : NodeId → Prop) (args : List Expr) :
    (along (lateMarks args) (.earlyAll args) ++ late args).Le (along M (.ofArgs args)) := by
  have hperm := rounds_perm args
  refine .of_parts ?_ ?_ ?_ ?_ ?_ ?_ ?_
  · intro id hid
    refine .inr (((hperm.map Node.id).mem_iff (a := id)).mp ?_)
    rw [List.map_append, List.mem_append]
    rcases hid with (hid | hid) | hid
    · exact .inr hid
    · exact .inl hid
    · exact .inr hid
  · intro T
    have hsum := ((hperm.map (callsAt T)).sum_eq).symm
    rw [List.map_append, List.sum_append] at hsum
    rw [tally_append, tally_along, tally_along, hsum, (earlyAll_plain args).2]
    show 0 + _ + (0 + ((args.flatMap lateNodes).map (callsAt T)).sum) = 0 + _
    omega
  · intro r hr
    rcases List.mem_append.mp hr with hr | hr
    · exact List.mem_append_right _ (fresh_earlyAll hr)
    · cases hr
  · rintro ⟨hargs, hnodes⟩
    have hall := fun n hn => hnodes n (hperm.mem_iff.mp hn)
    obtain ⟨hearly, hlate⟩ := List.forall_mem_append.mp hall
    refine ⟨⟨?_, hearly⟩, hargs, hlate⟩
    rw [(earlyAll_plain args).1]
    exact List.forall_mem_nil _
  · rintro ⟨hargs, hnodes⟩
    have hall := fun n hn => hnodes n (hperm.mem_iff.mp hn)
    refine ⟨⟨?_, (List.forall_mem_append.mp hall).1⟩, hargs⟩
    rw [(earlyAll_plain args).1]
    exact List.forall_mem_nil _
  · rintro ⟨hargs, -⟩
    funext b N
    exact walkAll_early hargs b N
  · exact fun n hn => hperm.mem_iff.mp hn

theorem lateNodes_subset {a : Expr} {n : Node} (h : n ∈ lateNodes a) : n ∈ (Node.expr a).subtree :=
  (early_late_perm a).mem_iff.mp (List.mem_append_right _ h)

theorem lateNodes_of_plain {a : Expr} (h : isFunctional a = false) : lateNodes a = [] := by
  obtain ⟨id, shape⟩ := a
  cases shape with
  | lambda | methodRef => cases h
  | _ => rfl

theorem self_mem_lateNodes {a : Expr} (h : isFunctional a = true) : .expr a ∈ lateNodes a := by
  obtain ⟨id, shape⟩ := a
  cases shape with
  | lambda => exact Node.self_mem_subtree _
  | methodRef => exact List.mem_cons_self
  | _ => cases h

/-- The types of lambdas and method references may be resolved in the second round too. -/
theorem lateMarks_allows {args : List Expr} {a : Expr} (ha : a ∈ args) (h : isFunctional a = true)
    {t : TypeRef} (ht : t ∈ (Node.expr a).types) : (resolving (lateMarks args)).Allows (.type t) := by
  intro m hm _
  have hbelow : m ∈ Node.belowTypes (Node.expr a).types := List.mem_flatMap.mpr ⟨t, ht, hm⟩
  refine List.mem_map_of_mem (List.mem_flatMap.mpr ⟨a, ha, ?_⟩)
  obtain ⟨id, shape⟩ := a
  cases shape with
  | lambda => exact Node.mem_subtree_of_types hbelow
  | methodRef => exact List.mem_cons_of_mem _ hbelow
  | _ => cases h

theorem mem_late_singleton {a : Expr} {n : Node} :
    n ∈ [a].flatMap lateNodes ↔ n ∈ lateNodes a := by
  simp

/-- There is nothing to do in the second round for an argument that needs no target type. -/
theorem Tour.nothing_late {a : Expr} (h : isFunctional a = false) :
    (marking fun _ => False).Le (late [a]) := by
  have hnone : [a].flatMap lateNodes = [] := by simp [lateNodes_of_plain h]
  refine .of_parts (fun _ => False.elim) ?_ nofun (fun _ => trivial) (fun _ => trivial)
    (fun _ => rfl) nofun
  intro T
  show 0 = 0 + (([a].flatMap lateNodes).map (callsAt T)).sum
  rw [hnone]
  rfl

/-- The second round goes from argument to argument. -/
theorem Tour.late_cons_le (a : Expr) (args : List Expr) :
    (late [a] ++ late args).Le (late (a :: args)) := by
  have hnodes : [a].flatMap lateNodes ++ args.flatMap lateNodes = (a :: args).flatMap lateNodes := by
    simp
  refine .of_parts ?_ ?_ (fun _ => id) ?_ ?_ (fun _ => rfl) ?_
  · intro id hid
    show id ∈ ((a :: args).flatMap lateNodes).map Node.id
    rw [← hnodes, List.map_append, List.mem_append]
    exact hid
  · intro T
    rw [tally_append]
    show 0 + (([a].flatMap lateNodes).map (callsAt T)).sum
      + (0 + ((args.flatMap lateNodes).map (callsAt T)).sum)
      = 0 + (((a :: args).flatMap lateNodes).map (callsAt T)).sum
    rw [← hnodes, List.map_append, List.sum_append]
    omega
  · rintro ⟨hargs, hall⟩
    rw [← hnodes] at hall
    obtain ⟨hfirst, hrest⟩ := List.forall_mem_append.mp hall
    obtain ⟨ha, hargs⟩ := List.forall_mem_cons.mp hargs
    exact ⟨⟨List.forall_mem_singleton.mpr ha, hfirst⟩, hargs, hrest⟩
  · intro hargs
    obtain ⟨ha, hargs⟩ := List.forall_mem_cons.mp hargs
    exact ⟨List.forall_mem_singleton.mpr ha, hargs⟩
  · intro n hn
    show n ∈ (a :: args).flatMap lateNodes
    rw [← hnodes]
    exact hn

theorem Leg.Clear.subtree {a : Expr} (h : (Leg.ofArgs args).Clear M) (ha : a ∈ args) :
    ((Node.expr a).subtree.map Node.id).Nodup := by
  have hnodup := h.nodup
  rw [Leg.ids, below_ofArgs, List.map_flatMap] at hnodup
  exact (List.nodup_flatMap.mp hnodup).1 a ha

/-- In the second round each argument leaves the types on which the others depend. -/
theorem Tour.late_apart {a : Expr} (h : (Leg.ofArgs (a :: args)).Clear M) :
    (late [a]).Apart (late args) := by
  have hnodup := h.nodup
  rw [Leg.ids, below_ofArgs, List.flatMap_cons, List.map_append] at hnodup
  refine ⟨fun r hr => (by cases hr), fun n hn id hid hmark => ?_⟩
  obtain ⟨b, hb, hn⟩ := List.mem_flatMap.mp hn
  rw [List.mem_singleton.mp hb] at hn
  obtain ⟨c, hc, rfl⟩ := exists_child_of_readIds hid
  have hc : c.id ∈ (Node.expr a).subtree.map Node.id :=
    List.mem_map_of_mem (Node.child_mem_subtree (lateNodes_subset hn) hc)
  obtain ⟨k, hk, hid⟩ := List.mem_map.mp hmark
  obtain ⟨b, hb, hk⟩ := List.mem_flatMap.mp hk
  refine (List.nodup_append.mp hnodup).2.2 _ hc _ ?_ rfl
  rw [← hid]
  exact List.mem_map_of_mem (List.mem_flatMap.mpr ⟨b, hb, lateNodes_subset hk⟩)

end

/-! ## Checkers -/

/-- The receivers of the method references among the arguments have types. -/
def RefsTyped (args : List Expr) (T : Typings) : Prop :=
  ∀ a ∈ args, ∀ r, receiver? (.expr a) = some r → Typed T r.id

theorem RefsTyped.mono {args : List Expr} {T T' : Typings} (h : RefsTyped args T)
    (hsuffix : T <:+ T') : RefsTyped args T' :=
  fun a ha r hr => (h a ha r hr).mono hsuffix

theorem refsTyped_append {args args' : List Expr} {T : Typings} :
    RefsTyped (args ++ args') T ↔ RefsTyped args T ∧ RefsTyped args' T :=
  List.forall_mem_append

/-- The checker visits each node once, and the lambdas and method references among arguments in two
rounds. -/
structure Checker.Touring (c : Checker) : Prop where
  /-- It leaves scopes and frames as they were. -/
  balanced : c.Balanced
  /-- Expressions. -/
  expr : ∀ M e expected, Visits M [.node (.expr e)] (c.expr e expected)
  /-- An expression is given its type. -/
  exprType : ∀ {setting e expected s t s'}, exec (c.expr e expected setting) s = (.ok t, s') →
    s'.typings.lookup e.id = some t
  /-- Expressions before a dot. -/
  qualifier : ∀ M e, Visits M [.node (.expr e)] (c.qualifier e)
  /-- A value before a dot is given its type. -/
  qualifierType : ∀ {setting e s t s'}, exec (c.qualifier e setting) s = (.ok (.value t), s') →
    s'.typings.lookup e.id = some t
  /-- Lambdas and method references, in the second round. -/
  functional : ∀ e target, ((Node.expr e).subtree.map Node.id).Nodup →
    Takes (RefsTyped [e]) (.late [e]) (c.functional e target) fun _ => anyTypes
  /-- Method references, in the first round. -/
  methodRef : ∀ M e, (∀ t ∈ (Node.expr e).types, (resolving M).Allows (.type t)) →
    (Leg.early e).Clear M →
    Takes anyTypes (.along M (.early e)) (c.methodRef e) fun _ => RefsTyped [e]
  /-- Statements. -/
  stmt : ∀ M s, Visits M [.node (.stmt s)] (c.stmt s)
  /-- Declarations. -/
  decl : ∀ M d, Visits M [.node (.decl d)] (c.decl d)

/-! ## The rounds are taken -/

section

variable {c : Checker} (hc : c.Touring) {M : NodeId → Prop}

include hc

theorem takes_classifyArg (a : Expr)
    (htypes : isFunctional a = true → ∀ t ∈ (Node.expr a).types, (resolving M).Allows (.type t))
    (hclear : (Leg.early a).Clear M) :
    Takes anyTypes (.along M (.early a)) (classifyArg c a) fun _ => RefsTyped [a] := by
  have hnone : receiver? (.expr a) = none → ∀ T, RefsTyped [a] T := by
    intro hnone T b hb r hr
    rw [List.mem_singleton.mp hb, hnone] at hr
    cases hr
  obtain ⟨id, shape⟩ := a
  cases shape with
  | lambda params body =>
    have hshape : Has (resolving M) (lambdaShape params body) := by
      refine goes_lambdaShape params body fun p hp t ht => htypes rfl t ?_
      exact Node.mem_types.mpr (lambdaType_mem_children rfl hp ht)
    have htypes := Travels.leaf hshape (still_lambdaShape params body) hclear
    exact htypes.ret _ fun _ T _ => hnone rfl T
  | methodRef target typeArgs name =>
    exact (hc.methodRef M _ (htypes rfl) hclear).ret _ fun _ _ h => h
  | _ => exact (hc.expr M _ none hclear).ret _ fun _ T _ => hnone rfl T

theorem takes_classifyArgs (args : List Expr)
    (htypes : ∀ a ∈ args, isFunctional a = true →
      ∀ t ∈ (Node.expr a).types, (resolving M).Allows (.type t))
    (hclear : (Leg.earlyAll args).Clear M) :
    Takes anyTypes (.along M (.earlyAll args)) (classifyArgs c args) fun known T =>
      known.length = args.length ∧ RefsTyped args T := by
  induction args with
  | nil =>
    have hpure : Takes anyTypes (.marking fun _ => False) (classifyArgs c []) fun known T =>
        known.length = 0 ∧ RefsTyped [] T := .pure fun _ _ => ⟨rfl, List.forall_mem_nil _⟩
    exact hpure.le (Tour.marking_le fun _ => False.elim)
  | cons a args ih =>
    obtain ⟨hfirst, hrest⟩ := List.forall_mem_cons.mp htypes
    have hhead := takes_classifyArg hc a hfirst hclear.left
    have htail := Takes.carry (S := RefsTyped [a]) (ih hrest hclear.right)
      fun T T' hgrow h => h.mono hgrow.suffix
    rw [classifyArgs, List.mapM_cons]
    refine (hhead.bind (fun b => ?_) (Tour.along_apart hclear)).le (Tour.along_append_le M _ _)
    refine htail.ret (b :: ·) ?_
    rintro known T ⟨⟨hlength, hrefs⟩, href⟩
    exact ⟨congrArg (· + 1) hlength, refsTyped_append.mpr ⟨href, hrefs⟩⟩

theorem takes_completeArg (i : Inference) (a : Expr) (formal : JType)
    (hnodup : ((Node.expr a).subtree.map Node.id).Nodup) :
    Takes (RefsTyped [a]) (.late [a]) (completeArg c i a formal) fun _ => anyTypes := by
  unfold completeArg
  split
  · rename_i hplain
    have hplain : isFunctional a = false := by simpa using hplain
    have hpure : Takes (RefsTyped [a]) (.marking fun _ => False) (pure i : Check Inference)
        fun _ => anyTypes := .pure fun _ _ => trivial
    exact hpure.le (Tour.nothing_late hplain)
  · rename_i hfun
    have hfun : isFunctional a = true := by simpa using hfun
    refine TakesIf.le (t := .late [a] ++ .marking fun id => id = a.id)
      (Takes.bind (hc.functional a _ hnodup) (fun outcome => ?_) (Tour.apart_marking_right ?_))
      (Tour.append_marking_le ?_)
    · refine .leaf (goes_classes.bind fun env => ?_) (still_classes.bind fun env => ?_)
      · dsimp only
        split
        · exact Goes.bind (.record rfl _) fun _ => .pure _
        · exact .pure _
      · dsimp only
        split
        · exact (Still.record _ _).bind fun _ => .pure _
        · exact .pure _
    · intro n hn id hid hmark
      have hbelow := readIds_mem_below (lateNodes_subset (mem_late_singleton.mp hn)) hid
      have hnodup := ((Node.subtree_perm _).map Node.id).nodup_iff.mp hnodup
      rw [hmark] at hbelow
      exact (List.nodup_cons.mp hnodup).1 hbelow
    · intro id hid
      refine List.mem_map.mpr ⟨.expr a, mem_late_singleton.mpr (self_mem_lateNodes hfun), ?_⟩
      exact hid.symm

theorem takes_completeArgs (i : Inference) (pairs : List (Expr × JType))
    (hclear : (Leg.ofArgs (pairs.map Prod.fst)).Clear M) :
    Takes (RefsTyped (pairs.map Prod.fst)) (.late (pairs.map Prod.fst)) (completeArgs c i pairs)
      fun _ => anyTypes := by
  induction pairs generalizing i with
  | nil =>
    have hpure : Takes (RefsTyped []) (.marking fun _ => False) (completeArgs c i [])
      fun _ => anyTypes := .pure fun _ _ => trivial
    refine hpure.le ?_
    exact .of_parts (fun _ => False.elim) (fun _ => rfl) nofun (fun _ => trivial)
      (fun _ => trivial) (fun _ => rfl) nofun
  | cons p rest ih =>
    have hhead := takes_completeArg hc i p.1 p.2 (hclear.subtree List.mem_cons_self)
    have hhead : Takes (RefsTyped ((p :: rest).map Prod.fst)) (.late [p.1])
        (completeArg c i p.1 p.2) fun _ => RefsTyped (rest.map Prod.fst) := by
      refine (hhead.frame (S := RefsTyped (rest.map Prod.fst)) fun T T' hgrow h =>
        h.mono hgrow.suffix).imp (.refl _) ?_ ?_
      · exact fun T h => refsTyped_append.mp h
      · exact fun _ _ h => h.2
    have hrest : (Leg.ofArgs (rest.map Prod.fst)).Clear M := hclear.right (v := .ofArgs [p.1])
    refine (hhead.bind (fun j => ih j hrest) (Tour.late_apart hclear)).le ?_
    exact Tour.late_cons_le p.1 _

theorem takes_completeCall (args : List Expr) (hclear : (Leg.ofArgs args).Clear M) (a : Applicable)
    (hformals : a.formals.length = args.length) :
    Takes (RefsTyped args) (.late args) (completeCall c args a) fun _ => anyTypes := by
  have hfst : (args.zip a.formals).map Prod.fst = args :=
    List.map_fst_zip (Nat.le_of_eq hformals.symm)
  have hpairs := takes_completeArgs hc a.inference (args.zip a.formals) (M := M) (by rwa [hfst])
  rw [hfst] at hpairs
  exact hpairs.ret _ fun _ _ _ => trivial

end

/-! ## Candidates -/

/-- The run over a list of candidates, of which the first one is tried: it takes the arguments, or the
run fails, or the others follow, with the number of calls from before. -/
theorem exec_completeFirst_cons (c : Checker) (args : List Expr) (failure : Option AnalysisError)
    (a : Applicable) (rest : List Applicable) (setting : Setting) (s : State) :
    (∃ b u, exec (completeCall c args a setting) s = (.ok b, u) ∧
      exec (completeFirst c args failure (a :: rest) setting) s = (.ok (some b), u)) ∨
    ∃ e u, exec (completeCall c args a setting) s = (.error e, u) ∧
      ((∃ e' u', exec (completeFirst c args failure (a :: rest) setting) s = (.error e', u') ∧
        u'.typings = u.typings ∧ Alike u u') ∨
      ∃ u', u'.typings = u.typings ∧ u'.model = u.model ∧ u'.calls = s.calls ∧
        exec (completeFirst c args failure (a :: rest) setting) s =
          exec (completeFirst c args (failure.or (some e)) rest setting) u') := by
  rw [completeFirst, run_bind_ok (run_get _ _), run_bind_ok (exec_attempt _ _ _)]
  rcases exec (completeCall c args a setting) s with ⟨e | b, u⟩
  · refine .inr ⟨e, u, rfl, ?_⟩
    dsimp only
    split
    · exact .inl ⟨e, u, rfl, rfl, alike_refl u⟩
    · have htypings := Silent.unwindTo s.table.depth setting u
      have halike := Still.unwindTo s.table.depth setting u
      rcases hunwind : exec (unwindTo s.table.depth setting) u with ⟨e' | x, u'⟩
      · rw [hunwind] at htypings halike
        exact .inl ⟨e', u', run_bind_error hunwind, htypings, halike⟩
      · rw [hunwind] at htypings halike
        refine .inr ⟨{ u' with calls := s.calls }, htypings, halike.2, rfl, ?_⟩
        rw [run_bind_ok hunwind]
        rfl
  · exact .inl ⟨b, u, rfl, rfl⟩

/-- On the second round nothing depends on the types from before, and no class is named if the calls
may be counted more than once. -/
theorem Tour.late_plain {args : List Expr} (h : (Tour.late args).namesOnce) :
    (Tour.late args).Plain := by
  intro n hn
  obtain ⟨⟨id, shape⟩, ha, hn⟩ := List.mem_flatMap.mp hn
  cases shape with
  | lambda => exact h _ ha rfl n hn
  | methodRef =>
    rcases List.mem_cons.mp hn with rfl | hn
    · rfl
    · obtain ⟨t, rfl⟩ := Node.eq_type_of_mem_belowTypes hn
      rfl
  | _ => cases hn

/-- What trying candidates leaves behind: types, and the calls of the candidate that is taken. -/
structure Retried (args : List Expr) (s : State) (r : Except AnalysisError (Option Applicable) × State) :
    Prop where
  /-- Types of the second round are recorded. -/
  grows : (Tour.late args).footprint.Typings s.typings r.2.typings
  /-- Without declarations the model is left. -/
  plain : (Tour.late args).Plain → r.2.model = s.model
  /-- The calls of the second round are counted once. -/
  calls : ∀ b, r.1 = .ok (some b) → (Tour.late args).callsOnce →
    r.2.calls = s.calls + (Tour.late args).tally r.2.typings

/-- The tour on which one call is counted besides. -/
def Tour.once : Tour := { Tour.marking (fun _ => False) with extra := 1 }

/-- The leg over the arguments of a call, which is counted besides. -/
def Leg.counted (args : List Expr) : Leg := { Leg.ofArgs args with extra := 1 }

theorem Tour.counted_le (M : NodeId → Prop) (args : List Expr) :
    (along M (.ofArgs args) ++ once).Le (along M (.counted args)) := by
  refine .of_parts ?_ ?_ ?_ (fun h => ⟨h, trivial⟩) (fun h => ⟨h, trivial⟩) (fun _ => rfl) ?_
  · exact fun id hid => hid.elim (fun hid => hid) False.elim
  · intro T
    rw [tally_append, tally_along, tally_along]
    exact Nat.add_comm _ 1 |>.trans (congrArg (1 + ·) (Nat.zero_add _))
  · intro r hr
    exact (List.mem_append.mp hr).elim (fun hr => hr) nofun
  · intro n hn
    exact (List.mem_append.mp hn).elim (fun hn => hn) nofun

section

variable {c : Checker} (hc : c.Touring) {M : NodeId → Prop} (args : List Expr)
  (hclear : (Leg.ofArgs args).Clear M)

include hc hclear

theorem retried_completeFirst (failure : Option AnalysisError) (candidates : List Applicable)
    (hformals : ∀ a ∈ candidates, a.formals.length = args.length) (setting : Setting) (s : State)
    (hrefs : RefsTyped args s.typings) :
    Retried args s (exec (completeFirst c args failure candidates setting) s) := by
  induction candidates generalizing failure s with
  | nil =>
    cases failure with
    | none => exact ⟨Footprint.typings_refl _, fun _ => rfl, nofun⟩
    | some e => exact ⟨Footprint.typings_refl _, fun _ => rfl, nofun⟩
  | cons a rest ih =>
    obtain ⟨hfirst, hrest⟩ := List.forall_mem_cons.mp hformals
    have htrial := takes_completeCall hc args hclear a hfirst
    have hgrows := htrial.grows setting s hrefs
    have hplain := htrial.plain setting s hrefs
    rcases exec_completeFirst_cons c args failure a rest setting s with
      ⟨b, u, hok, hrun⟩ | ⟨e, u, herror, ⟨e', u', hrun, htypings, halike⟩ |
        ⟨u', htypings, hmodel, hcalls, hrun⟩⟩
    · rw [hok] at hgrows hplain
      rw [hrun]
      refine ⟨hgrows, hplain, fun _ _ honce => ?_⟩
      exact htrial.calls hok trivial hrefs ⟨honce, nofun⟩
    · rw [herror] at hgrows hplain
      rw [hrun]
      refine ⟨htypings ▸ hgrows, fun h => halike.2.trans (hplain h), nofun⟩
    · rw [herror] at hgrows hplain
      rw [← htypings] at hgrows
      obtain ⟨hgrows', hplain', hcalls'⟩ := ih (failure.or (some e)) hrest u'
        (hrefs.mono hgrows.suffix)
      rw [hrun]
      refine ⟨hgrows.trans hgrows', fun h => ?_, fun b hb honce => ?_⟩
      · exact ((hplain' h).trans hmodel).trans (hplain h)
      · rw [hcalls' b hb honce, hcalls]

/-- The second round is taken once for good: a candidate that is given up leaves nothing but types. -/
theorem takesIf_completeBest (candidates : List Applicable) :
    TakesIf (fun best => best.isSome = true)
      (fun T => (∀ a ∈ candidates, a.formals.length = args.length) ∧ RefsTyped args T) (.late args)
      (completeBest c args candidates) fun _ => anyTypes := by
  refine .given (goes_completeBest hc.balanced (fun _ => trivial) args candidates) fun hformals => ?_
  have hretried := retried_completeFirst hc args hclear none candidates hformals
  refine ⟨?_, fun setting s h => (hretried setting s h).grows, fun _ _ => trivial,
    fun setting s h => (hretried setting s h).plain, ?_, ?_⟩
  · exact goes_completeBest hc.balanced (fun _ => trivial) args candidates
  · intro setting s best s' hrun hsome hrefs hcount
    obtain ⟨b, rfl⟩ := Option.isSome_iff_exists.mp hsome
    have hcalls := (hretried setting s hrefs).calls b
    rw [show exec (completeFirst c args none candidates setting) s = (.ok (some b), s') from hrun]
      at hcalls
    exact hcalls rfl hcount.1
  · intro setting s best s' hrun _ hrefs _ horder
    have hplain := (hretried setting s hrefs).plain (Tour.late_plain horder.1)
    rwa [show exec (completeFirst c args none candidates setting) s = (.ok best, s') from hrun]
      at hplain

/-- Selecting a candidate takes the tour over the arguments. -/
theorem takes_selecting {t : Tour} {S : Typings → Prop} {Q : α → Typings → Prop}
    {pick : List Arg → ClassEnv → Setting → List Applicable}
    {f : List Arg → Option Applicable → Check α}
    (hS : ∀ T T', (Tour.along M (.ofArgs args)).footprint.Typings T T' → S T → S T')
    (hpick : ∀ known env setting, ∀ a ∈ pick known env setting, a.formals.length = known.length)
    (hf : ∀ known best, Takes S t (f known best) Q) (hnone : ∀ known, Fails (f known none))
    (hapart : (Tour.along M (.ofArgs args)).Apart t) :
    Takes S (Tour.along M (.ofArgs args) ++ t)
      (do
        let known ← classifyArgs c args
        let env ← classes
        let setting ← read
        f known (← completeBest c args (pick known env setting))) Q := by
  have hle := Tour.rounds_le M args
  have hS' : ∀ t' : Tour, (∀ id, t'.marks id → (Tour.along M (.ofArgs args)).marks id) →
      ∀ T T', t'.footprint.Typings T T' → S T → S T' := by
    rintro t' hmarks T T' ⟨new, rfl, hnew⟩
    exact hS _ _ ⟨new, rfl, fun p hp => hmarks _ (hnew p hp)⟩
  have hnodes : ∀ n ∈ (Tour.along (lateMarks args) (.earlyAll args) ++ Tour.late args).nodes,
      n ∈ (Tour.along M (.ofArgs args)).nodes := fun n hn => (rounds_perm args).mem_iff.mp hn
  have hearly : (Tour.along (lateMarks args) (.earlyAll args)).Apart t :=
    hapart.mono_left (fun id hid => hle.marks id (.inl hid))
      fun n hn => hnodes n (List.mem_append_left _ hn)
  have hlate : (Tour.late args).Apart t :=
    hapart.mono_left (fun id hid => hle.marks id (.inr hid))
      fun n hn => hnodes n (List.mem_append_right _ hn)
  have hclassify := takes_classifyArgs hc args
    (fun a ha hfun t ht => lateMarks_allows ha hfun ht) hclear.early
  have hclassify := hclassify.carry (hS' _ fun id hid => hle.marks id (.inl hid))
  have hrest : ∀ known : List Arg,
      Takes (fun T => (known.length = args.length ∧ RefsTyped args T) ∧ S T) (Tour.late args ++ t)
        (do
          let env ← classes
          let setting ← read
          f known (← completeBest c args (pick known env setting))) Q := by
    intro known
    refine .skip goes_classes still_classes fun env => .skip .read .read fun setting => ?_
    have hbest := takesIf_completeBest hc args hclear (pick known env setting)
    have hbest := hbest.frame (hS' _ fun id hid => hle.marks id (.inr hid))
    refine TakesIf.bind (hbest.imp (.refl _) ?_ fun _ _ h => h.2) (hf known) ?_ hlate
    · rintro T ⟨⟨hlength, hrefs⟩, hT⟩
      exact ⟨⟨fun a ha => (hpick known env setting a ha).trans hlength, hrefs⟩, hT⟩
    · intro best hbest
      cases best with
      | none => exact hnone known
      | some a => exact absurd rfl hbest
  have htour := hclassify.bind hrest ((Tour.early_apart_late hclear).append_right hearly)
  rw [← Tour.append_assoc] at htour
  exact htour.le (hle.append (.refl t))

end

section

variable {c : Checker} (hc : c.Touring) {M : NodeId → Prop} (args : List Expr)

include hc

/-- Selecting a candidate takes the tour over the arguments, before what follows is visited. -/
theorem travels_selecting {v : Leg} {pick : List Arg → ClassEnv → Setting → List Applicable}
    {f : List Arg → Option Applicable → Check α}
    (hpick : ∀ known env setting, ∀ a ∈ pick known env setting, a.formals.length = known.length)
    (hf : ∀ known best, v.Clear M → Follows (.once ++ .along M v) (f known best))
    (hnone : ∀ known, Fails (f known none)) :
    Travels M (.counted args ++ v) (do
      let known ← classifyArgs c args
      let env ← classes
      let setting ← read
      f known (← completeBest c args (pick known env setting))) := by
  intro hclear
  have hclear : (Leg.ofArgs args ++ v).Clear M := ⟨hclear.nodup, hclear.apart⟩
  have htour := takes_selecting hc args hclear.left (S := anyTypes) (fun _ _ _ h => h) hpick
    (fun known best => hf known best hclear.right) hnone
    (.append_right ⟨nofun, fun _ _ _ _ => id⟩ (Tour.along_apart hclear))
  rw [← Tour.append_assoc] at htour
  refine htour.le (((Tour.counted_le M args).append (.refl _)).trans ?_)
  exact Tour.along_append_le M (.counted args) v

end

end JavaSema.Analysis
