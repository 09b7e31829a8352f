import JavaSema.Proofs.Analysis.Lookup
import JavaSema.Proofs.Overload.Formals

/-!
# Recording the types of a tree

A logic for the question which nodes of a unit have a type at the end of an analysis.  Types are only
added while it runs, so that all statements are about the types `T` at the end.

There are four groups.

* Nodes.  `Settled` says that a node has the type that it needs, and `Covered` that all nodes of its
  subtree are settled.
* States.  `Consistent` says that the expressions which have a type so far are covered by the end.
* Steps.  `Covers` says that a step keeps states consistent and establishes a fact about `T` where it
  succeeds.  A step whose footprint leaves the expressions alone establishes nothing.
* Rules for what steps are made of.
-/

namespace JavaSema.Analysis

open Source

variable {α β : Type}

/-! ## Nodes -/

/-- The types hold one for the node. -/
def Typed (T : Typings) (id : NodeId) : Prop := (T.lookup id).isSome = true

theorem typed_append (T new : Typings) {id : NodeId} (h : Typed T id) : Typed (new ++ T) id := by
  unfold Typed at h ⊢
  induction new with
  | nil => exact h
  | cons p new ih =>
    rw [List.cons_append, List.lookup_cons]
    split
    · rfl
    · exact ih

theorem Typed.mono {T T' : Typings} {id : NodeId} (h : Typed T id) (hsuffix : T <:+ T') :
    Typed T' id := by
  obtain ⟨new, rfl⟩ := hsuffix
  exact typed_append T new h

theorem typed_cons (T : Typings) (id : NodeId) (t : JType) : Typed ((id, t) :: T) id := by
  simp [Typed]

/-- A node is typed by what was added, or was typed before. -/
theorem typed_append_cases {T : Typings} {id : NodeId} (new : Typings) (h : Typed (new ++ T) id) :
    (∃ p ∈ new, p.1 = id) ∨ Typed T id := by
  unfold Typed at h ⊢
  induction new with
  | nil => exact .inr h
  | cons p new ih =>
    rw [List.cons_append, List.lookup_cons] at h
    split at h
    · rename_i hid
      exact .inl ⟨p, List.mem_cons_self, (beq_iff_eq.mp hid).symm⟩
    · rcases ih h with ⟨q, hq, hid⟩ | h
      · exact .inl ⟨q, List.mem_cons_of_mem _ hq, hid⟩
      · exact .inr h

/-- Whether the expression is a name, bare or after a dot. -/
def isName (e : Expr) : Bool :=
  match e.shape with
  | .name _ | .field _ _ => true
  | _ => false

/-- The expression is a name that stands before the dot of another one. -/
def BeforeDot (u : SourceUnit) (e : Expr) : Prop :=
  isName e = true ∧ ∃ f name, Node.expr f ∈ u.nodes ∧ f.shape = .field e name

/-- The node has a type if it needs one: statements do, and expressions except for names before a
dot. -/
def Settled (u : SourceUnit) (T : Typings) : Node → Prop
  | .expr e => Typed T e.id ∨ BeforeDot u e
  | .stmt s => Typed T s.id
  | .type _ | .decl _ => True

/-- The nodes at and below the node are settled. -/
def Covered (u : SourceUnit) (T : Typings) (n : Node) : Prop := ∀ m ∈ n.subtree, Settled u T m

/-- The nodes below the node are settled. -/
def Filled (u : SourceUnit) (T : Typings) (n : Node) : Prop := ∀ c ∈ n.children, Covered u T c

variable {u : SourceUnit} {T : Typings}

theorem Settled.mono {T' : Typings} {n : Node} (h : Settled u T n) (hsuffix : T <:+ T') :
    Settled u T' n := by
  cases n with
  | expr e => exact h.imp_left fun htyped => htyped.mono hsuffix
  | stmt s => exact Typed.mono h hsuffix
  | type | decl => trivial

theorem Filled.mono {T' : Typings} {n : Node} (h : Filled u T n) (hsuffix : T <:+ T') :
    Filled u T' n :=
  fun c hc m hm => (h c hc m hm).mono hsuffix

theorem Filled.covered {n : Node} (h : Filled u T n) (hn : Settled u T n) : Covered u T n := by
  intro m hm
  rcases Node.mem_subtree_iff.mp hm with rfl | ⟨c, hc, hm⟩
  · exact hn
  · exact h c hc m hm

theorem Covered.filled {n : Node} (h : Covered u T n) : Filled u T n :=
  fun _ hc m hm => h m (Node.mem_subtree_of_child hc hm)

theorem Filled.covered_expr {e : Expr} (h : Filled u T (.expr e)) (he : Typed T e.id) :
    Covered u T (.expr e) :=
  h.covered (.inl he)

/-- Types consist of types, which need no type. -/
theorem covered_type (t : TypeRef) : Covered u T (.type t) := by
  intro m hm
  rcases Node.mem_subtree_iff.mp hm with rfl | ⟨c, hc, hm⟩
  · trivial
  · obtain ⟨b, hb, rfl⟩ := List.mem_map.mp hc
    exact covered_type b m hm
termination_by sizeOf t
decreasing_by exact Node.sizeOf_lt_of_mem_typeChildren hb

/-! ## States -/

/-- The expressions of the unit that have a type so far are filled by the end. -/
def Consistent (u : SourceUnit) (T typings : Typings) : Prop :=
  ∀ e, Node.expr e ∈ u.nodes → Typed typings e.id → Filled u T (.expr e)

/-- The footprint that leaves the expressions of the unit alone. -/
def sparing (u : SourceUnit) : Footprint where
  marks id := ∀ e, Node.expr e ∈ u.nodes → e.id ≠ id
  binds := true
  returns := true

/-- Nodes with the same number are the same if no number is used twice. -/
theorem eq_of_id (hids : (u.nodes.map Node.id).Nodup) {n m : Node} (hn : n ∈ u.nodes)
    (hm : m ∈ u.nodes) (h : n.id = m.id) : n = m :=
  List.inj_on_of_nodup_map hids hn hm h

theorem subtree_mem_nodes {n m : Node} (hn : n ∈ u.nodes) (hm : m ∈ n.subtree) : m ∈ u.nodes := by
  rcases Node.mem_subtree_iff.mp hm with rfl | ⟨c, hc, hm⟩
  · exact hn
  · exact subtree_mem_nodes (SourceUnit.child_mem_nodes hn hc) hm
termination_by sizeOf n
decreasing_by exact Node.sizeOf_lt_of_mem_children hc

theorem sparing_marks (hids : (u.nodes.map Node.id).Nodup) {n : Node} (hn : n ∈ u.nodes)
    (hne : ∀ e, n ≠ .expr e) : (sparing u).marks n.id :=
  fun e he hid => hne e (eq_of_id hids he hn hid).symm

/-- The types and declarations of a unit are not its expressions. -/
theorem sparing_allows (hids : (u.nodes.map Node.id).Nodup) {n : Node} (hn : n ∈ u.nodes) :
    (sparing u).Allows n := by
  intro m hm hdecl
  refine sparing_marks hids (subtree_mem_nodes hn hm) ?_
  rintro e rfl
  cases hdecl

theorem Consistent.of_sparing {typings typings' : Typings} (h : Consistent u T typings)
    (hnew : (sparing u).Typings typings typings') : Consistent u T typings' := by
  obtain ⟨new, rfl, hmarks⟩ := hnew
  intro e he htyped
  rcases typed_append_cases new htyped with ⟨p, hp, hid⟩ | htyped
  · exact absurd hid.symm (hmarks p hp e he)
  · exact h e he htyped

/-! ## Steps -/

/-- Under a condition on the types at the end, the step keeps states consistent and establishes a fact
about the end where it succeeds.  It adds types under any condition. -/
def Covers (u : SourceUnit) (T : Typings) (P : Prop) (m : Check α) (Q : α → Prop) : Prop :=
  ∀ setting s, s.typings <:+ (exec (m setting) s).2.typings ∧
    (P → (exec (m setting) s).2.typings <:+ T → Consistent u T s.typings →
      Consistent u T (exec (m setting) s).2.typings ∧
        ∀ a, (exec (m setting) s).1 = .ok a → Q a)

/-- The step records no type for an expression of the unit. -/
def Spares (u : SourceUnit) (m : Check α) : Prop :=
  ∀ setting s, (sparing u).Typings s.typings (exec (m setting) s).2.typings

theorem Spares.suffix {m : Check α} (h : Spares u m) (setting : Setting) (s : State) :
    s.typings <:+ (exec (m setting) s).2.typings := by
  obtain ⟨new, hnew, -⟩ := h setting s
  rw [hnew]
  exact List.suffix_append new s.typings

namespace Spares

theorem of_goes {m : Check α} {k : Nat} (h : Goes (sparing u) 0 k m) : Spares u m := by
  intro setting s
  obtain ⟨⟨j, hj⟩, -⟩ := h setting s s ((sparing u).at_refl s)
  exact hj.typings

theorem inTable (n : Node) (op : TableM α) : Spares u (inTable n op) := by
  intro setting s
  rw [exec_inTable]
  exact Footprint.typings_refl _

theorem inTableFor (name : String) (op : TableM α) : Spares u (inTableFor name op) := by
  intro setting s
  rw [exec_inTableFor]
  exact Footprint.typings_refl _

theorem bind {m : Check β} {f : β → Check α} (hm : Spares u m) (hf : ∀ b, Spares u (f b)) :
    Spares u (m >>= f) :=
  fun setting => Keeps.bind
    (R := fun s s' : State => (sparing u).Typings s.typings s'.typings)
    (fun _ _ _ h h' => h.trans h') (hm setting) fun b => hf b setting

theorem discard {m : Check α} (hm : Spares u m) : Spares u (Functor.discard m) := by
  show Spares u (_ <$> m)
  rw [map_eq_pure_bind]
  exact hm.bind fun _ => of_goes (.pure _)

/-- Scopes are closed without a type. -/
theorem unwindTo (depth : Nat) : Spares u (unwindTo depth) := by
  have hgo : ∀ n, Spares u (unwindTo.go n) := by
    intro n
    induction n with
    | zero => exact of_goes (.pure _)
    | succ n ih => exact (inTableFor _ _).bind fun _ => ih
  exact (of_goes .get).bind fun _ => hgo _

theorem closeClass (d : Decl) : Spares u (do attachMembers d (← closeClass d)) := by
  refine (inTable _ _).bind fun members setting s => ?_
  exact (at_attachMembers d members setting ((sparing u).at_refl s)).typings

end Spares

namespace Covers

variable {P P' : Prop} {Q S : α → Prop} {R : β → Prop}

theorem pure {a : α} (h : P → Q a) : Covers u T P (Pure.pure a) Q := by
  intro setting s
  refine ⟨List.suffix_rfl, fun hP _ hs => ⟨hs, ?_⟩⟩
  intro b hb
  cases hb
  exact h hP

theorem throw (e : AnalysisError) : Covers u T P (MonadExcept.throw e : Check α) Q :=
  fun _ _ => ⟨List.suffix_rfl, fun _ _ hs => ⟨hs, nofun⟩⟩

theorem failAt (n : Node) (cause : ResolveError) :
    Covers u T P (Analysis.failAt n cause : Check α) Q := throw _

theorem failNamed (name : String) (cause : ResolveError) :
    Covers u T P (Analysis.failNamed name cause : Check α) Q := throw _

/-- The fact that the first step establishes is among the conditions of the second one. -/
theorem bind {m : Check β} {f : β → Check α} (hm : Covers u T P m R)
    (hf : ∀ b, Covers u T (P ∧ R b) (f b) Q) : Covers u T P (m >>= f) Q := by
  intro setting s
  obtain ⟨hgrow, hfirst⟩ := hm setting s
  rcases hrun : exec (m setting) s with ⟨e | b, s'⟩
  · rw [run_bind_error hrun]
    rw [hrun] at hgrow hfirst
    refine ⟨hgrow, fun hP hT hs => ⟨(hfirst hP hT hs).1, nofun⟩⟩
  · rw [run_bind_ok hrun]
    rw [hrun] at hgrow hfirst
    obtain ⟨hgrow', hsecond⟩ := hf b setting s'
    refine ⟨hgrow.trans hgrow', ?_⟩
    intro hP hT hs
    obtain ⟨hs', hR⟩ := hfirst hP (hgrow'.trans hT) hs
    exact hsecond ⟨hP, hR b rfl⟩ hT hs'

/-- Conditions may be added, and facts weakened. -/
theorem imp {m : Check α} {Q' : α → Prop} (h : Covers u T P m Q) (hP : P' → P)
    (hQ : ∀ a, P' → Q a → Q' a) : Covers u T P' m Q' := by
  intro setting s
  obtain ⟨hgrow, hend⟩ := h setting s
  refine ⟨hgrow, fun hP' hT hs => ?_⟩
  obtain ⟨hs', hQa⟩ := hend (hP hP') hT hs
  exact ⟨hs', fun a ha => hQ a hP' (hQa a ha)⟩

/-- A step at the end, after which all is established. -/
theorem last {m : Check α} (h : Covers u T True m S) (hQ : ∀ a, P → S a → Q a) :
    Covers u T P m Q :=
  h.imp (fun _ => trivial) hQ

/-- A step whose conditions are met, before one that may use what it establishes. -/
theorem seq {m : Check β} {f : β → Check α} (hm : Covers u T True m R)
    (hf : ∀ b, Covers u T (P ∧ R b) (f b) Q) : Covers u T P (m >>= f) Q :=
  (hm.last fun _ _ hR => hR).bind hf

theorem of_spares {m : Check α} (h : Spares u m) : Covers u T P m fun _ => True := by
  intro setting s
  refine ⟨h.suffix setting s, fun _ _ hs => ⟨?_, fun _ _ => trivial⟩⟩
  exact hs.of_sparing (h setting s)

/-- A step that leaves the expressions of the unit alone, before another one. -/
theorem after {m : Check β} {f : β → Check α} (hm : Spares u m)
    (hf : ∀ b, Covers u T P (f b) Q) : Covers u T P (m >>= f) Q :=
  (of_spares hm).bind fun b => (hf b).imp And.left fun _ _ hQ => hQ

theorem skip {m : Check β} {f : β → Check α} {k : Nat} (hm : Goes (sparing u) 0 k m)
    (hf : ∀ b, Covers u T P (f b) Q) : Covers u T P (m >>= f) Q :=
  after (.of_goes hm) hf

/-- A step that leaves the expressions of the unit alone, where all is established. -/
theorem leaf {m : Check α} {k : Nat} (hm : Goes (sparing u) 0 k m) (h : P → ∀ a, Q a) :
    Covers u T P m Q :=
  (of_spares (.of_goes hm)).imp id fun a hP _ => h hP a

theorem map {m : Check β} {f : β → α} (hm : Covers u T P m R) (hQ : ∀ b, R b → Q (f b)) :
    Covers u T P (f <$> m) Q := by
  rw [map_eq_pure_bind]
  exact hm.bind fun b => pure fun h => hQ b h.2

theorem discard {m : Check β} {q : Prop} (hm : Covers u T P m fun _ => q) :
    Covers u T P (Functor.discard m) fun _ => q :=
  hm.map fun _ h => h

theorem ite {p : Prop} [Decidable p] {m m' : Check α} (hm : Covers u T P m Q)
    (hm' : Covers u T P m' Q) : Covers u T P (if p then m else m') Q := by
  split
  · exact hm
  · exact hm'

theorem forM (l : List β) {f : β → Check PUnit} {q : β → Prop}
    (hf : ∀ b ∈ l, Covers u T True (f b) fun _ => q b) :
    Covers u T P (l.forM f) fun _ => ∀ b ∈ l, q b := by
  induction l with
  | nil => exact pure fun _ => nofun
  | cons b l ih =>
    refine seq (hf b List.mem_cons_self) fun _ => ?_
    refine (ih fun c hc => hf c (List.mem_cons_of_mem _ hc)).imp And.left ?_
    rintro _ ⟨-, hb⟩ hl c hc
    rcases List.mem_cons.mp hc with rfl | hc
    · exact hb
    · exact hl c hc

theorem mapM (l : List β) {f : β → Check α} {q : β → Prop}
    (hf : ∀ b ∈ l, Covers u T True (f b) fun _ => q b) :
    Covers u T P (l.mapM f) fun as => as.length = l.length ∧ ∀ b ∈ l, q b := by
  induction l with
  | nil => exact pure fun _ => ⟨rfl, nofun⟩
  | cons b l ih =>
    rw [List.mapM_cons]
    refine seq (hf b List.mem_cons_self) fun a => ?_
    have hrest := ih fun c hc => hf c (List.mem_cons_of_mem _ hc)
    refine bind (hrest.imp And.left fun _ _ h => h) fun as => pure ?_
    rintro ⟨⟨-, hb⟩, hlength, hl⟩
    refine ⟨by simp [hlength], ?_⟩
    intro c hc
    rcases List.mem_cons.mp hc with rfl | hc
    · exact hb
    · exact hl c hc

/-! ## Rules for types -/

/-- The type of a node may be recorded once those of the nodes below it are. -/
theorem record (hids : (u.nodes.map Node.id).Nodup) {n : Node} (hn : n ∈ u.nodes)
    (hfilled : P → Filled u T n) (t : JType) :
    Covers u T P (record n.id t) fun _ => Typed T n.id := by
  intro setting s
  have hrun : exec (Analysis.record n.id t setting) s
      = (.ok (), { s with typings := (n.id, t) :: s.typings }) := rfl
  rw [hrun]
  refine ⟨List.suffix_cons _ _, fun hP hT hs => ⟨?_, fun _ _ => (typed_cons _ _ t).mono hT⟩⟩
  intro e he htyped
  rcases typed_append_cases [(n.id, t)] htyped with ⟨p, hp, hid⟩ | htyped
  · rw [List.mem_singleton.mp hp] at hid
    rw [← eq_of_id hids hn he hid]
    exact hfilled hP
  · exact hs e he htyped

/-- An expression that has a type is covered. -/
theorem typeOf? {e : Expr} (he : Node.expr e ∈ u.nodes) :
    Covers u T P (typeOf? e.id) fun found => found.isSome = true → Covered u T (.expr e) := by
  intro setting s
  have hrun : exec (Analysis.typeOf? e.id setting) s = (.ok (s.typings.lookup e.id), s) := rfl
  rw [hrun]
  refine ⟨List.suffix_rfl, fun _ hT hs => ⟨hs, ?_⟩⟩
  rintro _ ⟨⟩ htyped
  exact (hs e he htyped).covered_expr (Typed.mono htyped hT)

/-! ## Rules for brackets -/

theorem attempt {m : Check α} (hm : Covers u T P m Q) :
    Covers u T P (attempt m) fun r => ∀ a, r = .ok a → Q a := by
  intro setting s
  obtain ⟨hgrow, hend⟩ := hm setting s
  rw [exec_attempt]
  refine ⟨hgrow, fun hP hT hs => ?_⟩
  obtain ⟨hs', hQ⟩ := hend hP hT hs
  refine ⟨hs', ?_⟩
  rintro _ ⟨⟩
  exact hQ

theorem closing {close : Check Unit} {step : Check α} (hstep : Covers u T P step Q)
    (hclose : Spares u close) : Covers u T P (closing close step) Q := by
  intro setting s
  obtain ⟨hstate, hvalue⟩ := exec_closing close step setting s
  obtain ⟨hgrow, hend⟩ := hstep setting s
  have hgrow' := hclose.suffix setting (exec (step setting) s).2
  rw [hstate]
  refine ⟨hgrow.trans hgrow', fun hP hT hs => ?_⟩
  obtain ⟨hs', hQ⟩ := hend hP (hgrow'.trans hT) hs
  exact ⟨hs'.of_sparing (hclose setting _), fun a ha => hQ a (hvalue a ha)⟩

theorem inBlock {step : Check α} (hstep : Covers u T P step Q) (n : Node) :
    Covers u T P (inBlock n step) Q := by
  refine skip (goes_observerOf n) fun observer => ?_
  refine after (.inTable n _) fun _ => ?_
  exact hstep.closing (Spares.inTable n _).discard

theorem withFrame {step : Check α} (hstep : Covers u T P step Q) (frame : Frame) :
    Covers u T P (withFrame frame step) fun r => Q r.1 := by
  intro setting s
  obtain ⟨hstate, hvalue⟩ := exec_withFrame frame step setting s
  obtain ⟨hgrow, hend⟩ := hstep setting (s.enter frame)
  rw [hstate]
  refine ⟨hgrow, fun hP hT hs => ?_⟩
  obtain ⟨hs', hQ⟩ := hend hP hT hs
  exact ⟨hs', fun r hr => hQ r.1 (hvalue r hr)⟩

end Covers

end JavaSema.Analysis
