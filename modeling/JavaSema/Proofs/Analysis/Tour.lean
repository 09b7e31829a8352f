import JavaSema.Proofs.Analysis.Balance
import JavaSema.Proofs.Analysis.Typed
import JavaSema.Proofs.Analysis.Walk

/-!
# Tours

A logic for the questions how many calls a step of an analysis counts and which classes it names.

There are four groups.

* `Tour` is the itinerary of a step: the nodes whose calls it counts, the types that it may record,
  and what it makes of the model.  `++` puts one tour after another, and `Tour.Le` compares tours.
* `Takes` says that a step takes a tour.  The number of calls and the model after a success are what
  the tour says, if nothing on it was met before; a tour without declarations leaves the model also
  where it fails.
* Rules for what steps are made of.
* Rules for brackets: scopes and frames.
-/

namespace JavaSema.Analysis

open Source

variable {α β : Type}

/-! ## Tours -/

/-- The itinerary of a step. -/
structure Tour where
  /-- The nodes whose types may be recorded. -/
  marks : NodeId → Prop
  /-- The nodes whose calls are counted. -/
  nodes : List Node
  /-- The calls that are counted besides. -/
  extra : Nat
  /-- The receivers of method references, each of which is visited only if it has no type yet. -/
  fresh : List Expr
  /-- What must hold of the nodes for each call to be counted once. -/
  callsOnce : Prop
  /-- What must hold of the nodes for each class to be named once. -/
  namesOnce : Prop
  /-- What becomes of the model inside of a class. -/
  walk : Option String → Model → Model

namespace Tour

/-- The footprint of a statement that records no other types than the tour. -/
def footprint (t : Tour) : Footprint := { marks := t.marks, binds := true, returns := true }

/-- The calls that are counted on the tour, given the types at its end. -/
def tally (t : Tour) (T : Typings) : Nat := t.extra + (t.nodes.map (callsAt T)).sum

/-- Each call on the tour is counted once if the tour starts with these types. -/
def Countable (t : Tour) (T : Typings) : Prop :=
  t.callsOnce ∧ ∀ r ∈ t.fresh, ¬ Typed T r.id ∨ Free hasCalls (.expr r)

/-- Each class on the tour is named once if the tour starts with these types. -/
def Orderly (t : Tour) (T : Typings) : Prop :=
  t.namesOnce ∧ ∀ r ∈ t.fresh, ¬ Typed T r.id ∨ Free isDecl (.expr r)

/-- There is no declaration on the tour. -/
def Plain (t : Tour) : Prop := ∀ n ∈ t.nodes, isDecl n = false

/-- The tour on which types are recorded and nothing else is done. -/
def marking (marks : NodeId → Prop) : Tour where
  marks := marks
  nodes := []
  extra := 0
  fresh := []
  callsOnce := True
  namesOnce := True
  walk := fun _ M => M

instance : Append Tour where
  append t t' :=
    { marks := fun id => t.marks id ∨ t'.marks id
      nodes := t.nodes ++ t'.nodes
      extra := t.extra + t'.extra
      fresh := t.fresh ++ t'.fresh
      callsOnce := t.callsOnce ∧ t'.callsOnce
      namesOnce := t.namesOnce ∧ t'.namesOnce
      walk := fun b M => t'.walk b (t.walk b M) }

variable {t t' t'' : Tour} {T : Typings}

theorem tally_append (t t' : Tour) (T : Typings) : (t ++ t').tally T = t.tally T + t'.tally T := by
  show t.extra + t'.extra + ((t.nodes ++ t'.nodes).map (callsAt T)).sum = _
  rw [List.map_append, List.sum_append, tally, tally]
  omega

theorem countable_append :
    (t ++ t').Countable T ↔ t.Countable T ∧ t'.Countable T := by
  show (t.callsOnce ∧ t'.callsOnce) ∧ (∀ r ∈ t.fresh ++ t'.fresh, _) ↔ _
  rw [List.forall_mem_append]
  exact ⟨fun h => ⟨⟨h.1.1, h.2.1⟩, h.1.2, h.2.2⟩, fun h => ⟨⟨h.1.1, h.2.1⟩, h.1.2, h.2.2⟩⟩

theorem orderly_append : (t ++ t').Orderly T ↔ t.Orderly T ∧ t'.Orderly T := by
  show (t.namesOnce ∧ t'.namesOnce) ∧ (∀ r ∈ t.fresh ++ t'.fresh, _) ↔ _
  rw [List.forall_mem_append]
  exact ⟨fun h => ⟨⟨h.1.1, h.2.1⟩, h.1.2, h.2.2⟩, fun h => ⟨⟨h.1.1, h.2.1⟩, h.1.2, h.2.2⟩⟩

theorem plain_append : (t ++ t').Plain ↔ t.Plain ∧ t'.Plain := List.forall_mem_append

/-! ## Comparing tours -/

/-- A step that takes the one tour takes the other one. -/
structure Le (t t' : Tour) : Prop where
  /-- No other types are recorded. -/
  marks : ∀ id, t.marks id → t'.marks id
  /-- The same calls are counted. -/
  tally : ∀ T T', t'.Countable T → t.tally T' = t'.tally T'
  /-- Calls that are counted once on the one tour are so on the other one. -/
  countable : ∀ T, t'.Countable T → t.Countable T
  /-- The same classes are named. -/
  walk : ∀ T, t'.Orderly T → t.walk = t'.walk
  /-- Classes that are named once on the one tour are so on the other one. -/
  orderly : ∀ T, t'.Orderly T → t.Orderly T
  /-- There are no other declarations. -/
  plain : t'.Plain → t.Plain

theorem Le.refl (t : Tour) : t.Le t :=
  ⟨fun _ => id, fun _ _ _ => rfl, fun _ => id, fun _ _ => rfl, fun _ => id, id⟩

theorem Le.trans (h : t.Le t') (h' : t'.Le t'') : t.Le t'' where
  marks id hid := h'.marks id (h.marks id hid)
  tally T T' hT := (h.tally T T' (h'.countable T hT)).trans (h'.tally T T' hT)
  countable T hT := h.countable T (h'.countable T hT)
  walk T hT := (h.walk T (h'.orderly T hT)).trans (h'.walk T hT)
  orderly T hT := h.orderly T (h'.orderly T hT)
  plain hplain := h.plain (h'.plain hplain)

theorem Le.append {u u' : Tour} (h : t.Le t') (hu : u.Le u') : (t ++ u).Le (t' ++ u') where
  marks id hid := hid.imp (h.marks id) (hu.marks id)
  tally T T' hT := by
    obtain ⟨hT, hTu⟩ := countable_append.mp hT
    rw [tally_append, tally_append, h.tally T T' hT, hu.tally T T' hTu]
  countable T hT := by
    obtain ⟨hT, hTu⟩ := countable_append.mp hT
    exact countable_append.mpr ⟨h.countable T hT, hu.countable T hTu⟩
  walk T hT := by
    obtain ⟨hT, hTu⟩ := orderly_append.mp hT
    show (fun b M => u.walk b (t.walk b M)) = fun b M => u'.walk b (t'.walk b M)
    rw [h.walk T hT, hu.walk T hTu]
  orderly T hT := by
    obtain ⟨hT, hTu⟩ := orderly_append.mp hT
    exact orderly_append.mpr ⟨h.orderly T hT, hu.orderly T hTu⟩
  plain hplain := by
    obtain ⟨hplain, hplainu⟩ := plain_append.mp hplain
    exact plain_append.mpr ⟨h.plain hplain, hu.plain hplainu⟩

/-- Tours are compared part by part. -/
theorem Le.of_parts (hmarks : ∀ id, t.marks id → t'.marks id)
    (htally : ∀ T, t.tally T = t'.tally T) (hfresh : ∀ r ∈ t.fresh, r ∈ t'.fresh)
    (hcalls : t'.callsOnce → t.callsOnce) (hnames : t'.namesOnce → t.namesOnce)
    (hwalk : t'.namesOnce → t.walk = t'.walk) (hnodes : ∀ n ∈ t.nodes, n ∈ t'.nodes) : t.Le t' where
  marks := hmarks
  tally _ T' _ := htally T'
  countable _ hT := ⟨hcalls hT.1, fun r hr => hT.2 r (hfresh r hr)⟩
  walk _ hT := hwalk hT.1
  orderly _ hT := ⟨hnames hT.1, fun r hr => hT.2 r (hfresh r hr)⟩
  plain hplain n hn := hplain n (hnodes n hn)

theorem append_assoc (t t' t'' : Tour) : t ++ t' ++ t'' = t ++ (t' ++ t'') := by
  show Tour.mk _ _ _ _ _ _ _ = Tour.mk _ _ _ _ _ _ _
  congr 1
  · funext id
    exact propext or_assoc
  · exact List.append_assoc _ _ _
  · exact Nat.add_assoc _ _ _
  · exact List.append_assoc _ _ _
  · exact propext and_assoc
  · exact propext and_assoc

/-- A tour with more marks, after a tour with marks only. -/
theorem marking_append_le {marks : NodeId → Prop} (h : ∀ id, marks id → t.marks id) :
    (marking marks ++ t).Le t where
  marks id hid := hid.elim (h id) fun hid => hid
  tally T T' _ := by
    rw [tally_append]
    exact Nat.zero_add _
  countable _ hT := countable_append.mpr ⟨⟨trivial, nofun⟩, hT⟩
  walk _ _ := rfl
  orderly _ hT := orderly_append.mpr ⟨⟨trivial, nofun⟩, hT⟩
  plain hplain := plain_append.mpr ⟨nofun, hplain⟩

theorem append_marking_le {marks : NodeId → Prop} (h : ∀ id, marks id → t.marks id) :
    (t ++ marking marks).Le t where
  marks id hid := hid.elim (fun hid => hid) (h id)
  tally _ T' _ := tally_append t (marking marks) T'
  countable _ hT := countable_append.mpr ⟨hT, trivial, nofun⟩
  walk _ _ := rfl
  orderly _ hT := orderly_append.mpr ⟨hT, trivial, nofun⟩
  plain hplain := plain_append.mpr ⟨hplain, nofun⟩

/-! ## Tours one after another -/

/-- The second tour meets nothing that the first one recorded, and leaves the types on which the count
of the first one depends. -/
structure Apart (t t' : Tour) : Prop where
  /-- The receivers of the second tour have no type from the first one. -/
  fresh : ∀ r ∈ t'.fresh, ¬ t.marks r.id
  /-- The types that matter for the first tour are not recorded again. -/
  read : ∀ n ∈ t.nodes, ∀ id ∈ readIds n, ¬ t'.marks id

/-- A part of the first tour is apart from the second one too. -/
theorem Apart.mono_left (h : t'.Apart t'') (hmarks : ∀ id, t.marks id → t'.marks id)
    (hnodes : ∀ n ∈ t.nodes, n ∈ t'.nodes) : t.Apart t'' :=
  ⟨fun r hr hmark => h.fresh r hr (hmarks _ hmark), fun n hn => h.read n (hnodes n hn)⟩

theorem Apart.append_right (h : t.Apart t') (h' : t.Apart t'') : t.Apart (t' ++ t'') where
  fresh := List.forall_mem_append.mpr ⟨h.fresh, h'.fresh⟩
  read n hn id hid hmark := hmark.elim (h.read n hn id hid) (h'.read n hn id hid)

theorem apart_marking_left {marks : NodeId → Prop} (h : ∀ r ∈ t.fresh, ¬ marks r.id) :
    (marking marks).Apart t :=
  ⟨h, nofun⟩

theorem apart_marking_right {marks : NodeId → Prop}
    (h : ∀ n ∈ t.nodes, ∀ id ∈ readIds n, ¬ marks id) : t.Apart (marking marks) :=
  ⟨nofun, h⟩

/-- Types of nodes that do not matter for the tour leave its count. -/
theorem tally_of_new {new : Typings} (h : ∀ p ∈ new, ∀ n ∈ t.nodes, p.1 ∉ readIds n) :
    t.tally (new ++ T) = t.tally T := by
  have hnodes : t.nodes.map (callsAt (new ++ T)) = t.nodes.map (callsAt T) := by
    refine List.map_congr_left fun n hn => callsAt_congr fun id hid => lookup_append_of_ne ?_
    rintro p hp rfl
    exact h p hp n hn hid
  rw [tally, tally, hnodes]

theorem fresh_of_new {new : Typings} {r : Expr} {p : Prop} (hnew : ∀ q ∈ new, q.1 ≠ r.id)
    (h : ¬ Typed T r.id ∨ p) : ¬ Typed (new ++ T) r.id ∨ p := by
  refine h.imp_left fun huntyped htyped => ?_
  rcases typed_append_cases new htyped with ⟨q, hq, hid⟩ | htyped
  · exact hnew q hq hid
  · exact huntyped htyped

section

variable (h : t.Apart t') {T' : Typings} (hT : t.footprint.Typings T T')

include h hT

theorem Apart.countable (hcount : t'.Countable T) : t'.Countable T' := by
  obtain ⟨new, rfl, hmarks⟩ := hT
  refine ⟨hcount.1, fun r hr => fresh_of_new ?_ (hcount.2 r hr)⟩
  rintro q hq hid
  exact h.fresh r hr (hid ▸ hmarks q hq)

theorem Apart.orderly (horder : t'.Orderly T) : t'.Orderly T' := by
  obtain ⟨new, rfl, hmarks⟩ := hT
  refine ⟨horder.1, fun r hr => fresh_of_new ?_ (horder.2 r hr)⟩
  rintro q hq hid
  exact h.fresh r hr (hid ▸ hmarks q hq)

end

theorem Apart.tally (h : t.Apart t') {T' : Typings} (hT : t'.footprint.Typings T T') :
    t.tally T' = t.tally T := by
  obtain ⟨new, rfl, hmarks⟩ := hT
  exact tally_of_new fun p hp n hn hid => h.read n hn p.1 hid (hmarks p hp)

end Tour

/-! ## Runs -/

section Run

variable {F : Footprint} {m : Check α}

theorem Has.typings (h : Has F m) (setting : Setting) (s : State) :
    F.Typings s.typings (exec (m setting) s).2.typings := by
  obtain ⟨⟨j, hj⟩, -⟩ := h.run setting s
  exact hj.typings

theorem Footprint.Typings.suffix {T T' : Analysis.Typings} (h : F.Typings T T') : T <:+ T' := by
  obtain ⟨new, rfl, -⟩ := h
  exact List.suffix_append _ _

theorem owners_of_grown {ss ss' : List Scope} (h : Grown ss ss') :
    ss'.map Scope.owner = ss.map Scope.owner := by
  cases h with
  | nil => rfl
  | @cons a b outer outer' hgrew houter =>
    have hbare : ∀ l : List Scope, l.map Scope.owner = (l.map Scope.bare).map Scope.owner := by
      intro l
      rw [List.map_map]
      rfl
    rw [List.map_cons, List.map_cons, hgrew.owner, hbare outer', houter, ← hbare outer]

theorem innermostClass?_of_owners {t t' : SymbolTable}
    (h : t'.scopes.map Scope.owner = t.scopes.map Scope.owner) :
    t'.innermostClass? = t.innermostClass? := by
  have hclasses : ∀ t : SymbolTable,
      t.enclosingClasses = (t.scopes.map Scope.owner).filterMap id := by
    intro t
    rw [List.filterMap_map]
    rfl
  rw [SymbolTable.innermostClass?, SymbolTable.innermostClass?, hclasses, hclasses, h]

/-- A step that leaves the scopes leaves the class inside of which it is taken. -/
theorem Has.innermostClass? (h : Has F m) {setting : Setting} {s s' : State} {a : α}
    (hrun : exec (m setting) s = (.ok a, s')) (hs : s.table.Reachable) :
    s'.table.Reachable ∧ s'.table.innermostClass? = s.table.innermostClass? := by
  have hend := (h.run setting s).2 a
  rw [hrun] at hend
  obtain ⟨hreach, top, kept, hscopes, htop, hgrown, -⟩ := (hend rfl).table hs
  obtain rfl : top = [] := List.eq_nil_of_length_eq_zero htop
  rw [List.nil_append] at hscopes
  refine ⟨hreach, innermostClass?_of_owners ?_⟩
  rw [hscopes]
  exact owners_of_grown hgrown

end Run

/-- The footprint of a step that records no type. -/
def Footprint.silent : Footprint := { marks := fun _ => False, binds := true, returns := true }

theorem typings_of_silent {T T' : Typings} (h : Footprint.silent.Typings T T') : T' = T := by
  obtain ⟨new, rfl, hnew⟩ := h
  cases new with
  | nil => rfl
  | cons p new => exact (hnew p List.mem_cons_self).elim

/-! ## Steps -/

/-- The step takes the tour, as far as its results satisfy `G`: under a condition on the types at its
start, and with a fact about the types after a success. -/
structure TakesIf (G : α → Prop) (P : Typings → Prop) (t : Tour) (m : Check α)
    (Q : α → Typings → Prop) : Prop where
  /-- It leaves scopes and frames as a statement does. -/
  has : Has .ofStmt m
  /-- It records no other types than the tour. -/
  grows : ∀ setting s, P s.typings →
    t.footprint.Typings s.typings (exec (m setting) s).2.typings
  /-- The fact holds after a success. -/
  post : ∀ {setting s a s'}, exec (m setting) s = (.ok a, s') → P s.typings → Q a s'.typings
  /-- Without declarations the model is left, also by a failure. -/
  plain : ∀ setting s, P s.typings → t.Plain → (exec (m setting) s).2.model = s.model
  /-- The calls of the tour are counted. -/
  calls : ∀ {setting s a s'}, exec (m setting) s = (.ok a, s') → G a → P s.typings →
    t.Countable s.typings → s'.calls = s.calls + t.tally s'.typings
  /-- The classes of the tour are named. -/
  model : ∀ {setting s a s'}, exec (m setting) s = (.ok a, s') → G a → P s.typings →
    s.table.Reachable → t.Orderly s.typings → s'.model = t.walk s.table.innermostClass? s.model

/-- The step takes the tour, under a condition on the types at its start, and with a fact about the
types after a success. -/
abbrev Takes (P : Typings → Prop) (t : Tour) (m : Check α) (Q : α → Typings → Prop) : Prop :=
  TakesIf (fun _ => True) P t m Q

/-- The condition that holds of all types. -/
def anyTypes : Typings → Prop := fun _ => True

/-- The step takes the tour. -/
abbrev Follows (t : Tour) (m : Check α) : Prop := Takes anyTypes t m fun _ => anyTypes

/-- No run of the step succeeds. -/
def Fails (m : Check α) : Prop := ∀ setting s, ∃ e s', exec (m setting) s = (.error e, s')

/-! ## Rules -/

section

variable {G : α → Prop} {P P' : Typings → Prop} {t t' : Tour} {m : Check α}
  {Q Q' : α → Typings → Prop}

theorem TakesIf.imp (h : TakesIf G P t m Q) (hle : t.Le t') (hP : ∀ T, P' T → P T)
    (hQ : ∀ a T, Q a T → Q' a T) : TakesIf G P' t' m Q' where
  has := h.has
  grows setting s hT := by
    obtain ⟨new, hnew, hmarks⟩ := h.grows setting s (hP _ hT)
    exact ⟨new, hnew, fun p hp => hle.marks _ (hmarks p hp)⟩
  post hrun hT := hQ _ _ (h.post hrun (hP _ hT))
  plain setting s hT hplain := h.plain setting s (hP _ hT) (hle.plain hplain)
  calls hrun hG hT hcount := by
    rw [h.calls hrun hG (hP _ hT) (hle.countable _ hcount), hle.tally _ _ hcount]
  model hrun hG hT hs horder := by
    rw [h.model hrun hG (hP _ hT) hs (hle.orderly _ horder), hle.walk _ horder]

theorem TakesIf.le (h : TakesIf G P t m Q) (hle : t.Le t') : TakesIf G P t' m Q :=
  h.imp hle (fun _ => id) fun _ _ => id

/-- A fact that does not depend on types may be assumed, except for scopes and frames. -/
theorem TakesIf.given {p : Prop} (hhas : Has .ofStmt m) (h : p → TakesIf G P t m Q) :
    TakesIf G (fun T => p ∧ P T) t m Q where
  has := hhas
  grows setting s hT := (h hT.1).grows setting s hT.2
  post hrun hT := (h hT.1).post hrun hT.2
  plain setting s hT := (h hT.1).plain setting s hT.2
  calls hrun hG hT := (h hT.1).calls hrun hG hT.2
  model hrun hG hT := (h hT.1).model hrun hG hT.2

/-- A condition that the tour leaves holds also afterwards. -/
theorem TakesIf.frame {S : Typings → Prop} (h : TakesIf G P t m Q)
    (hS : ∀ T T', t.footprint.Typings T T' → S T → S T') :
    TakesIf G (fun T => P T ∧ S T) t m fun a T => Q a T ∧ S T where
  has := h.has
  grows setting s hT := h.grows setting s hT.1
  post {setting s a s'} hrun hT := by
    have hgrow := h.grows setting s hT.1
    rw [hrun] at hgrow
    exact ⟨h.post hrun hT.1, hS _ _ hgrow hT.2⟩
  plain setting s hT := h.plain setting s hT.1
  calls hrun hG hT := h.calls hrun hG hT.1
  model hrun hG hT := h.model hrun hG hT.1

/-- A condition that the tour leaves is carried along. -/
theorem Takes.carry {S : Typings → Prop} (h : Takes anyTypes t m Q)
    (hS : ∀ T T', t.footprint.Typings T T' → S T → S T') :
    Takes S t m fun a T => Q a T ∧ S T :=
  (h.frame hS).imp (.refl t) (fun _ hT => ⟨trivial, hT⟩) fun _ _ => id

/-- What runs that succeed establish is known. -/
theorem Takes.knowing {S : α → Typings → Prop} (h : Takes P t m Q)
    (hS : ∀ {setting s a s'}, exec (m setting) s = (.ok a, s') → S a s'.typings) :
    Takes P t m fun a T => Q a T ∧ S a T :=
  { h with post := fun hrun hT => ⟨h.post hrun hT, hS hrun⟩ }

theorem Fails.takes {m : Check α} (h : Fails m) (hhas : Has .silent m) (hstill : Still m) :
    Takes P t m Q where
  has := hhas.mono ⟨fun _ => False.elim, nofun, nofun⟩
  grows setting s _ := by
    rw [typings_of_silent (hhas.typings setting s)]
    exact Footprint.typings_refl _
  post {setting s a s'} hrun := by
    obtain ⟨e, s'', herror⟩ := h setting s
    rw [herror] at hrun
    cases hrun
  plain setting s _ _ := (hstill setting s).2
  calls {setting s a s'} hrun := by
    obtain ⟨e, s'', herror⟩ := h setting s
    rw [herror] at hrun
    cases hrun
  model {setting s a s'} hrun := by
    obtain ⟨e, s'', herror⟩ := h setting s
    rw [herror] at hrun
    cases hrun

theorem fails_failAt (n : Node) (cause : ResolveError) : Fails (failAt n cause : Check α) :=
  fun _ s => ⟨_, s, rfl⟩

theorem fails_failNamed (name : String) (cause : ResolveError) :
    Fails (failNamed name cause : Check α) :=
  fun _ s => ⟨_, s, rfl⟩

namespace Takes

theorem failAt (n : Node) (cause : ResolveError) :
    Takes P t (Analysis.failAt n cause : Check α) Q :=
  (fails_failAt n cause).takes (.failAt n cause) (.failAt n cause)

theorem failNamed (name : String) (cause : ResolveError) :
    Takes P t (Analysis.failNamed name cause : Check α) Q :=
  (fails_failNamed name cause).takes (.failNamed name cause) (.failNamed name cause)

/-- A step that counts and names nothing. -/
theorem leaf {marks : NodeId → Prop} (hhas : Has (Tour.marking marks).footprint m)
    (hstill : Still m) : Takes P (Tour.marking marks) m fun _ => anyTypes where
  has := hhas.mono ⟨fun _ _ => trivial, id, id⟩
  grows setting s _ := hhas.typings setting s
  post _ _ := trivial
  plain setting s _ _ := (hstill setting s).2
  calls {setting s a s'} hrun _ _ _ := by
    have hcalls := (hstill setting s).1
    rw [hrun] at hcalls
    exact hcalls
  model {setting s a s'} hrun _ _ _ _ := by
    have hmodel := (hstill setting s).2
    rw [hrun] at hmodel
    exact hmodel

/-- A step that counts so many calls, and names and records nothing. -/
theorem counting {k : Nat} (hhas : Has .silent m)
    (hmodel : ∀ setting s, (exec (m setting) s).2.model = s.model)
    (hcalls : ∀ {setting s a s'}, exec (m setting) s = (.ok a, s') → s'.calls = s.calls + k)
    (htally : ∀ T, P T → t.tally T = k) (hwalk : ∀ b M, t.walk b M = M) :
    Takes P t m fun _ => anyTypes where
  has := hhas.mono ⟨fun _ => False.elim, nofun, nofun⟩
  grows setting s _ := by
    rw [typings_of_silent (hhas.typings setting s)]
    exact Footprint.typings_refl _
  post _ _ := trivial
  plain setting s _ _ := hmodel setting s
  calls {setting s a s'} hrun _ hT _ := by
    have htypings := typings_of_silent (hhas.typings setting s)
    rw [hrun] at htypings
    rw [hcalls hrun, htypings, htally _ hT]
  model {setting s a s'} hrun _ _ _ _ := by
    have hsame := hmodel setting s
    rw [hrun] at hsame
    rw [hwalk]
    exact hsame

theorem pure {a : α} (h : ∀ T, P T → Q a T) :
    Takes P (Tour.marking fun _ => False) (Pure.pure a) Q where
  has := .pure a
  grows _ _ _ := Footprint.typings_refl _
  post hrun hT := by
    cases hrun
    exact h _ hT
  plain _ _ _ _ := rfl
  calls hrun _ _ _ := by
    cases hrun
    rfl
  model hrun _ _ _ _ := by
    cases hrun
    rfl

theorem ite {p : Prop} [Decidable p] {m' : Check α} (hm : Takes P t m Q) (hm' : Takes P t m' Q) :
    Takes P t (if p then m else m') Q := by
  split
  · exact hm
  · exact hm'

end Takes

end

/-- The second tour follows the first one, where the second step fails unless the result of the first
one is among those that count. -/
theorem TakesIf.bind {G : β → Prop} {P : Typings → Prop} {t t' : Tour} {m : Check β}
    {f : β → Check α} {R : β → Typings → Prop} {Q : α → Typings → Prop} (hm : TakesIf G P t m R)
    (hf : ∀ b, Takes (R b) t' (f b) Q) (hG : ∀ b, ¬ G b → Fails (f b)) (hapart : t.Apart t') :
    Takes P (t ++ t') (m >>= f) Q := by
  have hsplit : ∀ {setting s a s'}, exec ((m >>= f) setting) s = (.ok a, s') →
      ∃ b u, exec (m setting) s = (.ok b, u) ∧ exec (f b setting) u = (.ok a, s') ∧ G b := by
    intro setting s a s' hrun
    obtain ⟨b, u, hfirst, hsecond⟩ := ok_of_exec_bind hrun
    refine ⟨b, u, hfirst, hsecond, ?_⟩
    by_contra hb
    obtain ⟨e, s'', herror⟩ := hG b hb setting u
    rw [hsecond] at herror
    cases herror
  refine ⟨hm.has.bind fun b => (hf b).has, ?_, ?_, ?_, ?_, ?_⟩
  · intro setting s hT
    obtain ⟨new, hnew, hmarks⟩ := hm.grows setting s hT
    rcases hrun : exec (m setting) s with ⟨e | b, u⟩
    · rw [run_bind_error hrun]
      rw [hrun] at hnew
      exact ⟨new, hnew, fun p hp => .inl (hmarks p hp)⟩
    · rw [run_bind_ok hrun]
      rw [hrun] at hnew
      obtain ⟨new', hnew', hmarks'⟩ := (hf b).grows setting u (hm.post hrun hT)
      rw [hnew', hnew, ← List.append_assoc]
      refine ⟨_, rfl, List.forall_mem_append.mpr ⟨fun p hp => .inr (hmarks' p hp), ?_⟩⟩
      exact fun p hp => .inl (hmarks p hp)
  · intro setting s a s' hrun hT
    obtain ⟨b, u, hfirst, hsecond, -⟩ := hsplit hrun
    exact (hf b).post hsecond (hm.post hfirst hT)
  · intro setting s hT hplain
    obtain ⟨hplain, hplain'⟩ := Tour.plain_append.mp hplain
    have hfirst := hm.plain setting s hT hplain
    rcases hrun : exec (m setting) s with ⟨e | b, u⟩
    · rw [run_bind_error hrun]
      rwa [hrun] at hfirst
    · rw [run_bind_ok hrun]
      rw [hrun] at hfirst
      exact ((hf b).plain setting u (hm.post hrun hT) hplain').trans hfirst
  · intro setting s a s' hrun _ hT hcount
    obtain ⟨b, u, hfirst, hsecond, hb⟩ := hsplit hrun
    obtain ⟨hcount, hcount'⟩ := Tour.countable_append.mp hcount
    have hgrow := hm.grows setting s hT
    have hgrow' := (hf b).grows setting u (hm.post hfirst hT)
    rw [hfirst] at hgrow
    rw [hsecond] at hgrow'
    have hcalls := (hf b).calls hsecond trivial (hm.post hfirst hT) (hapart.countable hgrow hcount')
    rw [hcalls, hm.calls hfirst hb hT hcount, Tour.tally_append, hapart.tally hgrow', Nat.add_assoc]
  · intro setting s a s' hrun _ hT hs horder
    obtain ⟨b, u, hfirst, hsecond, hb⟩ := hsplit hrun
    obtain ⟨horder, horder'⟩ := Tour.orderly_append.mp horder
    have hgrow := hm.grows setting s hT
    rw [hfirst] at hgrow
    obtain ⟨hu, hinner⟩ := hm.has.innermostClass? hfirst hs
    rw [(hf b).model hsecond trivial (hm.post hfirst hT) hu (hapart.orderly hgrow horder'), hinner,
      hm.model hfirst hb hT hs horder]
    rfl

/-- A step that changes the model, before a tour with declarations. -/
theorem Follows.after {t : Tour} {m : Check β} {f : β → Check α} {marks : NodeId → Prop}
    {g : Option String → Model → Model} (hm : Has (Tour.marking marks).footprint m)
    (hrun : ∀ {setting s b s'}, exec (m setting) s = (.ok b, s') →
      s'.calls = s.calls ∧ s'.model = g s.table.innermostClass? s.model)
    (hf : ∀ b, Follows t (f b)) (hplain : ¬ t.Plain) (hfresh : ∀ r ∈ t.fresh, ¬ marks r.id) :
    Follows { t with marks := fun id => marks id ∨ t.marks id, walk := fun b M => t.walk b (g b M) }
      (m >>= f) := by
  have hapart : (Tour.marking marks).Apart t := Tour.apart_marking_left hfresh
  have hhas : Has .ofStmt m := hm.mono ⟨fun _ _ => trivial, id, id⟩
  refine ⟨hhas.bind fun b => (hf b).has, ?_, fun _ _ => trivial, ?_, ?_, ?_⟩
  · intro setting s _
    obtain ⟨new, hnew, hmarks⟩ := hm.typings setting s
    rcases hfirst : exec (m setting) s with ⟨e | b, u⟩
    · rw [run_bind_error hfirst]
      rw [hfirst] at hnew
      exact ⟨new, hnew, fun p hp => .inl (hmarks p hp)⟩
    · rw [run_bind_ok hfirst]
      rw [hfirst] at hnew
      obtain ⟨new', hnew', hmarks'⟩ := (hf b).grows setting u trivial
      rw [hnew', hnew, ← List.append_assoc]
      refine ⟨_, rfl, List.forall_mem_append.mpr ⟨fun p hp => .inr (hmarks' p hp), ?_⟩⟩
      exact fun p hp => .inl (hmarks p hp)
  · exact fun _ _ _ h => absurd h hplain
  · intro setting s a s' hboth _ _ hcount
    obtain ⟨b, u, hfirst, hsecond⟩ := ok_of_exec_bind hboth
    have hgrow := hm.typings setting s
    rw [hfirst] at hgrow
    rw [(hf b).calls hsecond trivial trivial (hapart.countable hgrow hcount), (hrun hfirst).1]
    rfl
  · intro setting s a s' hboth _ _ hs horder
    obtain ⟨b, u, hfirst, hsecond⟩ := ok_of_exec_bind hboth
    have hgrow := hm.typings setting s
    rw [hfirst] at hgrow
    obtain ⟨hu, hinner⟩ := hhas.innermostClass? hfirst hs
    rw [(hf b).model hsecond trivial trivial hu (hapart.orderly hgrow horder), hinner,
      (hrun hfirst).2]

namespace Takes

variable {P : Typings → Prop} {t t' : Tour} {m : Check β} {f : β → Check α}
  {R : β → Typings → Prop} {Q : α → Typings → Prop}

theorem bind (hm : Takes P t m R) (hf : ∀ b, Takes (R b) t' (f b) Q) (hapart : t.Apart t') :
    Takes P (t ++ t') (m >>= f) Q :=
  TakesIf.bind hm hf (fun _ h => absurd trivial h) hapart

/-- A step that counts and names nothing, before another one. -/
theorem resolve {marks : NodeId → Prop} (hm : Has (Tour.marking marks).footprint m)
    (hstill : Still m) (hP : ∀ T T', (Tour.marking marks).footprint.Typings T T' → P T → P T')
    (hfresh : ∀ r ∈ t.fresh, ¬ marks r.id) (hmarks : ∀ id, marks id → t.marks id)
    (hf : ∀ b, Takes P t (f b) Q) : Takes P t (m >>= f) Q := by
  have hleaf : Takes P (Tour.marking marks) m fun _ => P :=
    { Takes.leaf hm hstill with
      post := fun {setting s b s'} hrun hT => by
        have hgrow := hm.typings setting s
        rw [hrun] at hgrow
        exact hP _ _ hgrow hT }
  exact (hleaf.bind hf (Tour.apart_marking_left hfresh)).le (Tour.marking_append_le hmarks)

/-- A step that counts, names and records nothing, before another one. -/
theorem skip (hm : Has .silent m) (hstill : Still m) (hf : ∀ b, Takes P t (f b) Q) :
    Takes P t (m >>= f) Q := by
  refine resolve hm hstill ?_ (fun _ _ => id) (fun _ => False.elim) hf
  intro T T' hgrow hT
  rw [typings_of_silent hgrow]
  exact hT

/-- A step that counts, names and records nothing, after another one. -/
theorem done (hm : Takes P t m R) (hf : ∀ b, Has .silent (f b)) (hstill : ∀ b, Still (f b)) :
    Takes P t (m >>= f) fun _ => anyTypes := by
  have hrest : ∀ b, Takes (R b) (Tour.marking fun _ => False) (f b) fun _ => anyTypes :=
    fun b => Takes.leaf (hf b) (hstill b)
  refine (hm.bind hrest (Tour.apart_marking_right fun _ _ _ _ => id)).le ?_
  exact Tour.append_marking_le fun _ => False.elim

/-- A value that is computed from the result of a step. -/
theorem ret (hm : Takes P t m R) (g : β → α) (hQ : ∀ b T, R b T → Q (g b) T) :
    Takes P t (do let b ← m; Pure.pure (g b)) Q := by
  have hpure : ∀ b, Takes (R b) (Tour.marking fun _ => False) (Pure.pure (g b) : Check α) Q :=
    fun b => .pure (hQ b)
  refine (hm.bind hpure (Tour.apart_marking_right fun _ _ _ _ => id)).le ?_
  exact Tour.append_marking_le fun _ => False.elim

theorem map (g : β → α) (hm : Takes P t m R) : Takes P t (g <$> m) fun _ => anyTypes := by
  rw [map_eq_pure_bind]
  exact hm.ret g fun _ _ _ => trivial

end Takes

/-! ## Rules for brackets -/

section

variable {P : Typings → Prop} {t : Tour} {Q : α → Typings → Prop}

/-- The step inside of a bracket that succeeds succeeds. -/
theorem ok_of_exec_closing {close : Check Unit} {step : Check α} {setting : Setting} {s s' : State}
    {a : α} (hrun : exec (closing close step setting) s = (.ok a, s')) :
    ∃ u, exec (step setting) s = (.ok a, u) ∧ s' = (exec (close setting) u).2 := by
  obtain ⟨hstate, hvalue⟩ := exec_closing close step setting s
  rw [hrun] at hstate hvalue
  exact ⟨_, Prod.ext (hvalue a rfl) rfl, hstate⟩

/-- The step records no type. -/
def Silent (m : Check α) : Prop := ∀ setting s, (exec (m setting) s).2.typings = s.typings

namespace Silent

theorem pure (a : α) : Silent (Pure.pure a) := fun _ _ => rfl

theorem bind {m : Check β} {f : β → Check α} (hm : Silent m) (hf : ∀ b, Silent (f b)) :
    Silent (m >>= f) :=
  fun setting => Keeps.bind (R := fun s s' : State => s'.typings = s.typings)
    (fun _ _ _ h h' => h'.trans h) (hm setting) fun b => hf b setting

theorem discard {m : Check α} (hm : Silent m) : Silent (Functor.discard m) := by
  show Silent (_ <$> m)
  rw [map_eq_pure_bind]
  exact hm.bind fun _ => pure _

theorem inTable (n : Node) (op : TableM α) : Silent (inTable n op) := by
  intro setting s
  rw [exec_inTable]

theorem inTableFor (name : String) (op : TableM α) : Silent (inTableFor name op) := by
  intro setting s
  rw [exec_inTableFor]

theorem unwindTo (depth : Nat) : Silent (unwindTo depth) := by
  have hgo : ∀ n, Silent (unwindTo.go n) := by
    intro n
    induction n with
    | zero => exact pure _
    | succ n ih => exact (inTableFor _ _).bind fun _ => ih
  exact bind (fun _ _ => rfl) fun _ => hgo _

end Silent

/-- A step inside a scope that is opened before it and closed after it. -/
theorem Takes.bracket {opening : Check β} {close : Check Unit} {step : Check α}
    (hopen : ∀ F : Footprint, Goes F 0 1 opening) (hstillOpen : Still opening) (hclose : Pops close)
    (hstillClose : Still close) (hsilent : Silent close) {inside : Option String → Option String}
    (hinside : ∀ {setting s b s'}, exec (opening setting) s = (.ok b, s') → s.table.Reachable →
      s'.table.Reachable ∧ s'.table.innermostClass? = inside s.table.innermostClass?)
    (hstep : Takes P t step Q) :
    Takes P { t with walk := fun b => t.walk (inside b) }
      (do let _ ← opening; closing close step) Q := by
  have htypings : ∀ setting s, (exec (opening setting) s).2.typings = s.typings := by
    intro setting s
    obtain ⟨⟨j, hj⟩, -⟩ := hopen .silent setting s s (Footprint.silent.at_refl s)
    exact typings_of_silent hj.typings
  have hsplit : ∀ {setting s a s'},
      exec ((do let _ ← opening; closing close step : Check α) setting) s = (.ok a, s') →
      ∃ b u v, exec (opening setting) s = (.ok b, u) ∧ exec (step setting) u = (.ok a, v) ∧
        u.typings = s.typings ∧ Alike s u ∧ s'.typings = v.typings ∧ Alike v s' := by
    intro setting s a s' hrun
    obtain ⟨b, u, hfirst, hrest⟩ := ok_of_exec_bind hrun
    obtain ⟨v, hsecond, rfl⟩ := ok_of_exec_closing hrest
    have halike := hstillOpen setting s
    have hsame := htypings setting s
    rw [hfirst] at halike hsame
    exact ⟨b, u, v, hfirst, hsecond, hsame, halike, hsilent setting v, hstillClose setting v⟩
  refine ⟨?_, ?_, ?_, ?_, ?_, ?_⟩
  · exact Goes.bind (hopen _) fun _ => Goes.closing (F := .ofStmt) hstep.has hclose
  · intro setting s hT
    have hsame := htypings setting s
    rcases hrun : exec (opening setting) s with ⟨e | b, u⟩
    · rw [run_bind_error hrun]
      rw [hrun] at hsame
      rw [hsame]
      exact Footprint.typings_refl _
    · rw [run_bind_ok hrun, (exec_closing close step setting u).1, hsilent setting _]
      rw [hrun] at hsame
      rw [← hsame]
      exact hstep.grows setting u (hsame ▸ hT)
  · intro setting s a s' hrun hT
    obtain ⟨b, u, v, -, hsecond, hsame, -, hsame', -⟩ := hsplit hrun
    rw [hsame']
    exact hstep.post hsecond (hsame ▸ hT)
  · intro setting s hT hplain
    have halike := hstillOpen setting s
    have hsame := htypings setting s
    rcases hrun : exec (opening setting) s with ⟨e | b, u⟩
    · rw [run_bind_error hrun]
      rw [hrun] at halike
      exact halike.2
    · rw [run_bind_ok hrun, (exec_closing close step setting u).1]
      rw [hrun] at halike hsame
      have hmodel := hstep.plain setting u (hsame ▸ hT) hplain
      exact ((hstillClose setting _).2.trans hmodel).trans halike.2
  · intro setting s a s' hrun _ hT hcount
    obtain ⟨b, u, v, -, hsecond, hsame, halike, hsame', halike'⟩ := hsplit hrun
    rw [halike'.1, hstep.calls hsecond trivial (hsame ▸ hT) (hsame ▸ hcount), halike.1, hsame']
    rfl
  · intro setting s a s' hrun _ hT hs horder
    obtain ⟨b, u, v, hfirst, hsecond, hsame, halike, -, halike'⟩ := hsplit hrun
    obtain ⟨hu, hinner⟩ := hinside hfirst hs
    rw [halike'.2, hstep.model hsecond trivial (hsame ▸ hT) hu (hsame ▸ horder), halike.2, hinner]

/-- A block is inside of the same class. -/
theorem inside_pushScope {n : Node} {observer : Option String} {setting : Setting} {s s' : State}
    {a : Unit} (hrun : exec (inTable n (SymbolTable.pushScope .block observer) setting) s = (.ok a, s'))
    (hs : s.table.Reachable) :
    s'.table.Reachable ∧ s'.table.innermostClass? = s.table.innermostClass? := by
  have hstate := exec_inTable n (SymbolTable.pushScope .block observer) setting s
  rw [hrun] at hstate
  subst hstate
  exact ⟨hs.pushScope .block observer, rfl⟩

theorem pops_popScope (n : Node) : Pops (discard (inTable n SymbolTable.popScope)) :=
  (pops_inTable n).discard

theorem still_popScope (n : Node) : Still (discard (inTable n SymbolTable.popScope)) :=
  (Still.inTable n _).discard

theorem silent_popScope (n : Node) : Silent (discard (inTable n SymbolTable.popScope)) :=
  (Silent.inTable n _).discard

/-- A step inside a block of its own. -/
theorem Takes.block {step : Check α} (hstep : Takes P t step Q) (n : Node)
    (observer : Option String) :
    Takes P t (do
      inTable n (SymbolTable.pushScope .block observer)
      closing (Functor.discard (inTable n SymbolTable.popScope)) step) Q :=
  .bracket (fun _ => (Moves.pushScope .block observer).inTable n) (.inTable n _) (pops_popScope n)
    (still_popScope n) (silent_popScope n) inside_pushScope hstep

theorem Takes.inBlock {step : Check α} (hstep : Takes P t step Q) (n : Node) :
    Takes P t (inBlock n step) Q :=
  .skip (goes_observerOf n) (still_observerOf n) fun observer => hstep.block n observer

theorem Takes.withFrame {step : Check α} (hstep : Takes P t step Q) (frame : Frame) :
    Takes P t (withFrame frame step) fun r => Q r.1 := by
  have hsplit : ∀ {setting s r s'}, exec (Analysis.withFrame frame step setting) s = (.ok r, s') →
      ∃ u, exec (step setting) (s.enter frame) = (.ok r.1, u) ∧ s' = u.leave := by
    intro setting s r s' hrun
    obtain ⟨hstate, hvalue⟩ := exec_withFrame frame step setting s
    rw [hrun] at hstate hvalue
    exact ⟨_, Prod.ext (hvalue r rfl) rfl, hstate⟩
  refine ⟨?_, ?_, ?_, ?_, ?_, ?_⟩
  · exact Goes.withFrame (F := .ofStmt) hstep.has frame
  · intro setting s hT
    rw [(exec_withFrame frame step setting s).1]
    exact hstep.grows setting (s.enter frame) hT
  · intro setting s r s' hrun hT
    obtain ⟨u, hinner, rfl⟩ := hsplit hrun
    have hpost := hstep.post hinner hT
    exact hpost
  · intro setting s hT hplain
    rw [(exec_withFrame frame step setting s).1]
    exact hstep.plain setting (s.enter frame) hT hplain
  · intro setting s r s' hrun _ hT hcount
    obtain ⟨u, hinner, rfl⟩ := hsplit hrun
    have hcalls := hstep.calls hinner trivial hT hcount
    exact hcalls
  · intro setting s r s' hrun _ hT hs horder
    obtain ⟨u, hinner, rfl⟩ := hsplit hrun
    have hmodel := hstep.model hinner trivial hT hs horder
    exact hmodel

end

end JavaSema.Analysis
