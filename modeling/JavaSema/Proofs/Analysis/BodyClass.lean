import JavaSema.Proofs.Analysis.Visit
import JavaSema.Proofs.Catalog.Naming

/-!
# Classes that are declared on the spot

What naming and declaring a local or anonymous class does to the model: the class and the classes
among its members get names, and then definitions.

There are four groups.

* `Declares` says which classes a step declares.
* Headers declare a class and the classes among its members; members declare nothing new.
* `Registers` says that a step names and declares a class.
* A class is visited after it was registered.
-/

namespace JavaSema.Analysis

open Source

variable {α β : Type}

/-! ## Declared classes -/

theorem mem_insertName {names : List String} {name x : String} :
    x ∈ insertName names name ↔ x ∈ names ∨ x = name := by
  unfold insertName
  split
  · rename_i h
    constructor
    · exact .inl
    · rintro (hx | rfl)
      · exact hx
      · exact h
  · simp

theorem insertName_of_mem {names : List String} {name : String} (h : name ∈ names) :
    insertName names name = names := if_pos h

theorem mem_foldl_insertName {names new : List String} {x : String} :
    x ∈ new.foldl insertName names ↔ x ∈ names ∨ x ∈ new := by
  induction new generalizing names with
  | nil => simp
  | cons name new ih =>
    rw [List.foldl_cons, ih, mem_insertName, List.mem_cons, or_assoc]

theorem names_put (d : ClassDef) (classes : List ClassDef) :
    (ClassTable.put d classes).map ClassDef.name
      = insertName (classes.map ClassDef.name) d.name := by
  induction classes with
  | nil => rfl
  | cons c cs ih =>
    rw [ClassTable.put]
    by_cases hname : c.name = d.name
    · rw [if_pos (beq_iff_eq.mpr hname), insertName_of_mem]
      · simp [hname]
      · simp [hname]
    · rw [if_neg (fun h => hname (beq_iff_eq.mp h)), List.map_cons, ih]
      unfold insertName
      simp only [List.map_cons, List.mem_cons, Ne.symm hname, false_or]
      split
      · rfl
      · rfl

theorem Model.declare_append (xs ys : List String) (M : Model) :
    M.declare (xs ++ ys) = (M.declare xs).declare ys := by
  simp [Model.declare]

theorem Model.declare_of_mem {names : List String} {M : Model} (h : ∀ x ∈ names, x ∈ M.declared) :
    M.declare names = M := by
  have hsame : names.foldl insertName M.declared = M.declared := by
    induction names with
    | nil => rfl
    | cons x xs ih =>
      obtain ⟨hx, hxs⟩ := List.forall_mem_cons.mp h
      rw [List.foldl_cons, insertName_of_mem hx, ih hxs]
  rw [Model.declare, hsame]

/-- Where the step succeeds from the given model, it counts no call, and the classes of these names
are declared. -/
def Declares (M : Model) (names : List String) (m : Check α) : Prop :=
  ∀ ⦃setting : Setting⦄ ⦃s s' : State⦄ ⦃a : α⦄, exec (m setting) s = (.ok a, s') → s.model = M →
    s'.calls = s.calls ∧ s'.model = M.declare names

section

variable {M : Model} {xs ys : List String} {m : Check α} {f : α → Check β}

theorem Still.declares (h : Still m) : Declares M [] m := by
  intro setting s s' a hrun hs
  have halike := h setting s
  rw [hrun] at halike
  exact ⟨halike.1, halike.2.trans hs⟩

namespace Declares

theorem bind (hm : Declares M xs m) (hf : ∀ a, Declares (M.declare xs) ys (f a)) :
    Declares M (xs ++ ys) (m >>= f) := by
  intro setting s s' b hrun hs
  obtain ⟨a, u, hfirst, hsecond⟩ := ok_of_exec_bind hrun
  obtain ⟨hcalls, hmodel⟩ := hm hfirst hs
  obtain ⟨hcalls', hmodel'⟩ := hf a hsecond hmodel
  rw [Model.declare_append]
  exact ⟨hcalls'.trans hcalls, hmodel'⟩

theorem cons {x : String} (hm : Declares M [x] m) (hf : ∀ a, Declares (M.declare [x]) ys (f a)) :
    Declares M (x :: ys) (m >>= f) :=
  hm.bind hf

/-- A step that declares nothing, after another. -/
theorem done (hm : Declares M xs m) (hf : ∀ a, Still (f a)) : Declares M xs (m >>= f) := by
  rw [← List.append_nil xs]
  exact hm.bind fun a => (hf a).declares

/-- Classes that are declared already are replaced. -/
theorem of_mem (hm : Declares M xs m) (h : ∀ x ∈ xs, x ∈ M.declared) : Declares M [] m := by
  intro setting s s' a hrun hs
  have hsame := hm hrun hs
  rwa [Model.declare_of_mem h] at hsame

/-- Steps that declare nothing new. -/
theorem seq (hm : Declares M [] m) (hf : ∀ a, Declares M [] (f a)) : Declares M [] (m >>= f) :=
  hm.bind hf

/-- A step that declares nothing and gives a value of which something is known, before another. -/
theorem after {p : α → Prop} (hm : Still m)
    (hp : ∀ {setting : Setting} {s s' : State} {a : α}, exec (m setting) s = (.ok a, s') →
      s.model = M → p a)
    (hf : ∀ a, p a → Declares M ys (f a)) : Declares M ys (m >>= f) := by
  intro setting s s' b hrun hs
  obtain ⟨a, u, hfirst, hsecond⟩ := ok_of_exec_bind hrun
  have halike := hm setting s
  rw [hfirst] at halike
  obtain ⟨hcalls, hmodel⟩ := hf a (hp hfirst hs) hsecond (halike.2.trans hs)
  exact ⟨hcalls.trans halike.1, hmodel⟩

theorem skip (hm : Still m) (hf : ∀ a, Declares M ys (f a)) : Declares M ys (m >>= f) :=
  after (p := fun _ => True) hm (fun _ _ => trivial) fun a _ => hf a

theorem failAt (n : Node) (cause : ResolveError) :
    Declares M xs (Analysis.failAt n cause : Check α) := by
  intro setting s s' a hrun
  cases hrun

theorem forM {γ : Type} (l : List γ) {g : γ → List String} {f : γ → Check PUnit}
    (hf : ∀ b ∈ l, ∀ names, Declares (M.declare names) (g b) (f b)) (names : List String) :
    Declares (M.declare names) (l.flatMap g) (l.forM f) := by
  induction l generalizing names with
  | nil => exact (Still.pure _).declares
  | cons b l ih =>
    obtain ⟨hfirst, hrest⟩ := List.forall_mem_cons.mp hf
    refine (hfirst names).bind fun _ => ?_
    rw [← Model.declare_append]
    exact ih hrest (names ++ g b)

theorem forM_same {γ : Type} (l : List γ) {f : γ → Check PUnit}
    (hf : ∀ b ∈ l, Declares M [] (f b)) : Declares M [] (l.forM f) := by
  induction l with
  | nil => exact (Still.pure _).declares
  | cons b l ih =>
    obtain ⟨hfirst, hrest⟩ := List.forall_mem_cons.mp hf
    exact hfirst.seq fun _ => ih hrest

end Declares

theorem declares_declare (d : ClassDef) : Declares M [d.name] (declare d) := by
  rintro setting s s' a hrun rfl
  cases hrun
  refine ⟨rfl, ?_⟩
  show Model.mk _ ((ClassTable.put d s.declared.classes).map ClassDef.name) = _
  rw [names_put]
  rfl

/-- The name of a declaration is what the catalog has. -/
theorem binaryNameOf_ok {d : Decl} {setting : Setting} {s s' : State} {binary : String}
    (h : exec (binaryNameOf d setting) s = (.ok binary, s')) :
    s.model.catalog.binaryName? d = some binary := by
  rw [run_binaryNameOf] at h
  show s.catalog.binaryName? d = _
  cases hname : s.catalog.binaryName? d with
  | none =>
    rw [hname] at h
    cases h
  | some name =>
    rw [hname] at h
    cases h
    rfl

/-- A class that is declared is found under its name. -/
theorem loadAt_ok {n : Node} {name : String} {setting : Setting} {s s' : State} {d : ClassDef}
    (h : exec (loadAt n name setting) s = (.ok d, s')) (hname : name ∈ s.model.declared) :
    d.name = name := by
  obtain ⟨c, hc, hcname⟩ := List.mem_map.mp hname
  have hsome : (s.declared.get? name).isSome = true := by
    rw [ClassTable.get?, List.find?_isSome]
    exact ⟨c, hc, beq_iff_eq.mpr hcname⟩
  obtain ⟨e, he⟩ := Option.isSome_iff_exists.mp hsome
  have hload : (overlay s.declared setting.classes).load name = .ok e := by
    simp only [overlay, he]
  rw [run_loadAt, hload] at h
  cases h
  exact ClassTable.name_of_get? he

end

/-! ## Values -/

/-- Each value that the step gives satisfies the condition. -/
def Returns (p : α → Prop) (m : Check α) : Prop :=
  ∀ ⦃setting : Setting⦄ ⦃s s' : State⦄ ⦃a : α⦄, exec (m setting) s = (.ok a, s') → p a

namespace Returns

variable {p : β → Prop} {m : Check α} {f : α → Check β}

theorem pure {b : β} (h : p b) : Returns p (Pure.pure b) := by
  intro setting s s' a hrun
  cases hrun
  exact h

theorem bind {q : α → Prop} (hm : Returns q m) (hf : ∀ a, q a → Returns p (f a)) :
    Returns p (m >>= f) := by
  intro setting s s' b hrun
  obtain ⟨a, u, hfirst, hsecond⟩ := ok_of_exec_bind hrun
  exact hf a (hm hfirst) hsecond

theorem last (hf : ∀ a, Returns p (f a)) : Returns p (m >>= f) :=
  bind (q := fun _ => True) (fun _ _ _ _ _ => trivial) fun a _ => hf a

theorem ite {q : Prop} [Decidable q] {m m' : Check β} (hm : Returns p m) (hm' : Returns p m') :
    Returns p (if q then m else m') := by
  split
  · exact hm
  · exact hm'

theorem foldlM (l : List α) {g : β → α → Check β} (hg : ∀ b a, p b → Returns p (g b a)) {b : β}
    (hb : p b) : Returns p (l.foldlM g b) := by
  induction l generalizing b with
  | nil => exact pure hb
  | cons a l ih =>
    rw [List.foldlM_cons]
    exact bind (hg b a hb) fun b' hb' => ih hb'

end Returns

theorem returns_classHeader (d : Decl) (binary : String) (nesting : Nesting)
    (enclosing : Option String) :
    Returns (fun c => c.name = binary) (classHeader d binary nesting enclosing) := by
  unfold classHeader
  refine .last fun typeParams => .last fun _ => .last fun _ => .last fun written => ?_
  exact .last fun interfaces => .last fun _ => .last fun s => .last fun _ => .pure rfl

theorem returns_addMember (c : ClassDef) (m : Member) :
    Returns (fun c' => c'.name = c.name) (addMember c m) := by
  cases m with
  | field f => exact .last fun base => .pure rfl
  | method m => exact .last fun definition => .ite (.pure rfl) (.pure rfl)
  | initializer | type => exact .pure rfl

theorem returns_classMembers (d : Decl) (header : ClassDef) :
    Returns (fun c => c.name = header.name) (classMembers d header) := by
  have hmembers : ∀ c : ClassDef, c.name = header.name →
      Returns (fun c => c.name = header.name) (d.members.foldlM addMember c) := by
    intro c hc
    refine .foldlM _ (fun b m hb => ?_) hc
    exact fun _ _ _ _ hrun => (returns_addMember b m hrun).trans hb
  refine .bind (hmembers _ rfl) fun c hc => ?_
  dsimp only
  refine .ite (.pure ?_) (.pure ?_) <;> split <;> exact hc

/-! ## Headers and members -/

section

variable {M : Model}

theorem declares_declareHeader (height : Nat) (d : Decl) (header : ClassDef) :
    Declares M (header.name :: d.nestedTypes.flatMap (familyNames M.catalog))
      (declareHeader height d header) := by
  induction height generalizing d header M with
  | zero => exact .failAt _ _
  | succ height ih =>
    rw [declareHeader]
    refine (declares_declare header).cons fun _ => .skip (still_openClass d _ none) fun _ => ?_
    refine Declares.done (.forM _ (fun member _ names => ?_) _) fun _ => (still_closeClass d).discard
    refine .after (still_binaryNameOf member) (p := fun b => M.catalog.binaryName? member = some b)
      ?_ fun binary hbinary => ?_
    · rintro setting s s' b hrun hs
      have hname := binaryNameOf_ok hrun
      rw [hs] at hname
      exact hname
    · refine .after (still_classHeader member binary _ _) (p := fun c => c.name = binary) ?_ ?_
      · exact fun hrun _ => returns_classHeader _ _ _ _ hrun
      · rintro c rfl
        rw [familyNames_eq, hbinary]
        exact ih member c

/-- A class whose header is declared, and those of the classes among its members, gets its members
without a change of the model. -/
theorem declares_declareMembers (height : Nat) (d : Decl)
    (h : ∀ x ∈ familyNames M.catalog d, x ∈ M.declared) :
    Declares M [] (declareMembers height d) := by
  induction height generalizing d with
  | zero => exact .failAt _ _
  | succ height ih =>
    rw [declareMembers]
    refine .after (still_binaryNameOf d) (p := fun b => M.catalog.binaryName? d = some b)
      ?_ fun binary hbinary => ?_
    · rintro setting s s' b hrun hs
      have hname := binaryNameOf_ok hrun
      rwa [hs] at hname
    · rw [familyNames_eq, hbinary] at h
      obtain ⟨hself, hnested⟩ := List.forall_mem_cons.mp h
      refine .skip (still_openClass d binary none) fun _ => ?_
      refine .after (still_loadAt _ _) (p := fun c => c.name = binary) ?_ fun header hheader => ?_
      · rintro setting s s' c hrun rfl
        exact loadAt_ok hrun hself
      · refine .after (still_classMembers d header) (p := fun c => c.name = header.name) ?_ ?_
        · exact fun hrun _ => returns_classMembers _ _ hrun
        · intro c hc
          have hdeclared : ∀ x ∈ [c.name], x ∈ M.declared := by simpa [hc, hheader] using hself
          refine ((declares_declare c).of_mem hdeclared).seq fun _ => ?_
          refine Declares.done (.forM_same _ fun n hn => ih n fun x hx => hnested x ?_) fun _ =>
            (still_closeClass d).discard
          exact List.mem_flatMap.mpr ⟨n, hn, hx⟩

theorem declares_declareBody (d : Decl) (header : ClassDef)
    (h : M.catalog.binaryName? d = some header.name) :
    Declares M (header.name :: d.nestedTypes.flatMap (familyNames M.catalog))
      (declareBody d header) := by
  rw [← List.append_nil (header.name :: _)]
  refine (declares_declareHeader _ d header).bind fun _ => declares_declareMembers _ d ?_
  intro x hx
  refine mem_foldl_insertName.mpr (.inr ?_)
  rw [familyNames_eq] at hx
  show x ∈ [header.name] ++ _
  have hname : ((M.declare (header.name :: d.nestedTypes.flatMap
    (familyNames M.catalog))).catalog.binaryName? d).toList = [header.name] := by
    rw [show (M.declare _).catalog = M.catalog from rfl, h]
    rfl
  rwa [hname] at hx

end

/-! ## Registration -/

/-- Names a class inside the current one, together with the classes among its members, and goes on
with the names of the current class and of the new one. -/
def naming (n : Node) (d : Decl) (simple : String) (k : String → String → Check α) : Check α := do
  let enclosing ← currentClassName n
  let binary ← inCatalog fun catalog => catalog.nameLocal d enclosing simple
  inCatalog (modify fun catalog => catalog.nameNested d)
  k enclosing binary

/-- The catalog after a class was named inside of class `b`. -/
def namedIn (c : Catalog) (b : String) (d : Decl) (simple : String) : Catalog :=
  bareCatalog ((c.nameLocal d b simple).2.nameNested d)

theorem bareCatalog_nameNested {c c' : Catalog} (h : bareCatalog c = bareCatalog c') (d : Decl) :
    bareCatalog (c.nameNested d) = bareCatalog (c'.nameNested d) := by
  have hnames : (bareCatalog c).names = (bareCatalog c').names := by rw [h]
  have hcounters : (bareCatalog c).counters = (bareCatalog c').counters := by rw [h]
  change c.names = c'.names at hnames
  change c.counters = c'.counters at hcounters
  have hsame : c.binaryName? d = c'.binaryName? d := by
    rw [Catalog.binaryName?, Catalog.binaryName?, hnames]
  rw [Catalog.nameNested, Catalog.nameNested, ← hsame]
  split
  · rename_i binary _
    obtain ⟨hn, hc⟩ := Catalog.nameNestedIn_names (Node.decl d).height c binary d.nestedTypes
    obtain ⟨hn', hc'⟩ := Catalog.nameNestedIn_names (Node.decl d).height c' binary d.nestedTypes
    rw [bareCatalog, bareCatalog, hn, hc, hn', hc', hnames, hcounters]
  · exact h

theorem currentClassName_ok {n : Node} {setting : Setting} {s s' : State} {b : String}
    (h : exec (currentClassName n setting) s = (.ok b, s')) :
    s.table.innermostClass? = some b ∧ s' = s := by
  rw [run_currentClassName] at h
  cases hclass : s.table.innermostClass? with
  | none =>
    rw [hclass] at h
    cases h
  | some name =>
    rw [hclass] at h
    cases h
    exact ⟨rfl, rfl⟩

theorem naming_ok {n : Node} {d : Decl} {simple : String} {k : String → String → Check α}
    {setting : Setting} {s s' : State} {a : α}
    (h : exec (naming n d simple k setting) s = (.ok a, s')) :
    ∃ b u, s.table.innermostClass? = some b ∧
      exec (k b (s.model.catalog.nameLocal d b simple).1 setting) u = (.ok a, s') ∧
      u.calls = s.calls ∧ u.model = { s.model with catalog := namedIn s.model.catalog b d simple } := by
  obtain ⟨b, u, hclass, hrest⟩ := ok_of_exec_bind h
  obtain ⟨hb, rfl⟩ := currentClassName_ok hclass
  refine ⟨b, { u with catalog := (u.catalog.nameLocal d b simple).2.nameNested d }, hb, hrest, rfl, ?_⟩
  have hlocal : bareCatalog (u.catalog.nameLocal d b simple).2
      = bareCatalog (u.model.catalog.nameLocal d b simple).2 := rfl
  have hbare := bareCatalog_nameNested hlocal d
  show Model.mk (bareCatalog ((u.catalog.nameLocal d b simple).2.nameNested d)) _ = _
  rw [hbare]
  rfl

/-- The numbers of the types and declarations at and below a declaration. -/
def declaredIds (d : Decl) (id : NodeId) : Prop :=
  ∃ m ∈ (Node.decl d).subtree, isDeclarative m = true ∧ m.id = id

theorem declaredIds_allows (d : Decl) : (resolving (declaredIds d)).Allows (.decl d) :=
  fun m hm hdeclarative => ⟨m, hm, hdeclarative, rfl⟩

/-- Where the step succeeds inside of a class, it names and declares the class, and counts no call. -/
structure Registers (d : Decl) (simple : String) (m : Check α) : Prop where
  /-- It resolves the types of the class. -/
  has : Has (resolving (declaredIds d)) m
  /-- The class is registered. -/
  run : ∀ ⦃setting : Setting⦄ ⦃s s' : State⦄ ⦃a : α⦄, exec (m setting) s = (.ok a, s') →
    ∃ b, s.table.innermostClass? = some b ∧ s'.calls = s.calls ∧
      s'.model = s.model.register b d simple

/-- A class is named inside of another one, if its number is not that of a class of its family. -/
theorem binaryName?_namedIn {d : Decl} {simple : String}
    (hother : ∀ e ∈ d.nestedTypes.flatMap Decl.family, e.id ≠ d.id) (c : Catalog) (b : String) :
    (namedIn c b d simple).binaryName? d = some (c.nameLocal d b simple).1 := by
  set c' := (c.nameLocal d b simple).2 with hc'
  have hself : c'.binaryName? d = some (c.nameLocal d b simple).1 := by
    simp [hc', Catalog.nameLocal, Catalog.binaryName?, Catalog.assign]
  show (c'.nameNested d).names.lookup d.id = _
  rw [Catalog.nameNested, hself]
  dsimp only
  rw [(Catalog.nameNestedIn_names _ _ _ _).1, lookup_append_of_ne]
  · exact hself
  · intro p hp hid
    obtain ⟨e, he, hpe⟩ := Catalog.exists_of_memberEntries hp
    exact hother e he (hpe.symm.trans hid)

section

variable {d : Decl} {simple : String} (hids : ((Node.decl d).subtree.map Node.id).Nodup)

include hids

theorem id_ne_of_nested {e : Decl} (he : e ∈ d.nestedTypes.flatMap Decl.family) : e.id ≠ d.id := by
  obtain ⟨n, hn, he⟩ := List.mem_flatMap.mp he
  have hbelow := child_mem_below (Decl.nested_mem_children hn) (Decl.subtree_of_mem_family he)
  have hnodup := ((Node.subtree_perm (.decl d)).map Node.id).nodup_iff.mp hids
  intro hid
  exact (List.nodup_cons.mp hnodup).1 (List.mem_map.mpr ⟨.decl e, hbelow, hid⟩)

theorem registers_naming {n : Node} {k : String → String → Check α}
    (hk : ∀ enclosing binary, Has (resolving (declaredIds d)) (k enclosing binary))
    (hdeclares : ∀ (M : Model) enclosing binary, M.catalog.binaryName? d = some binary →
      Declares M (binary :: d.nestedTypes.flatMap (familyNames M.catalog)) (k enclosing binary)) :
    Registers d simple (naming n d simple k) where
  has := (goes_currentClassName n).bind fun enclosing => (goes_inCatalog _).bind fun binary =>
    (goes_inCatalog _).bind fun _ => hk enclosing binary
  run := by
    intro setting s s' a hrun
    obtain ⟨b, u, hclass, hrest, hcalls, hmodel⟩ := naming_ok hrun
    refine ⟨b, hclass, ?_⟩
    have hname : (namedIn s.model.catalog b d simple).binaryName? d = _ :=
      binaryName?_namedIn (fun _ => id_ne_of_nested hids) s.model.catalog b
    obtain ⟨hcalls', hmodel'⟩ := hdeclares _ b _ hname hrest hmodel
    exact ⟨hcalls'.trans hcalls, hmodel'⟩

end

/-! ## Visits -/

section

variable {M : NodeId → Prop} {d : Decl} {simple : String} {m : Check α} {f : α → Check β}

/-- A class is visited after it was registered. -/
theorem Registers.visits (hm : ((Node.decl d).subtree.map Node.id).Nodup → Registers d simple m)
    (hf : ∀ a, Visits M [.node (.decl d)] (f a)) : Visits M [.bodyClass d simple] (m >>= f) := by
  intro hclear
  have hids : ((Node.decl d).subtree.map Node.id).Nodup := by
    have hnodup := hclear.nodup
    simpa [Leg.ids, Leg.through, Stop.target] using hnodup
  have hbelow : ∀ n ∈ (Node.decl d).subtree, n.id ∈ (Leg.through [.bodyClass d simple]).ids := by
    intro n hn
    have hn : n ∈ Stop.below [.bodyClass d simple] := by simpa [Stop.target] using hn
    exact List.mem_map_of_mem hn
  have hplain : ¬ (Tour.along M (.through [.node (.decl d)])).Plain := by
    intro hplain
    have hself : Node.decl d ∈ Stop.below [.node (.decl d)] := by
      simpa [Stop.target] using Node.self_mem_subtree (.decl d)
    cases hplain _ hself
  have htour := Follows.after (g := fun b => meet b (.bodyClass d simple)) (hm hids).has
    (fun hrun => ?_) (fun a => hf a ⟨hclear.nodup, hclear.apart⟩) hplain ?_
  · refine htour.le (.of_parts ?_ (fun _ => rfl) (fun _ => id) id id (fun _ => rfl) fun _ => id)
    rintro id (⟨n, hn, -, rfl⟩ | hid)
    · exact .inr (hbelow n hn)
    · exact hid
  · obtain ⟨b, hclass, hcalls, hmodel⟩ := (hm hids).run hrun
    rw [hclass]
    exact ⟨hcalls, hmodel⟩
  · rintro r hr ⟨n, hn, hdeclarative, hid⟩
    have hexpr : Node.expr r ∈ Stop.below [.node (.decl d)] := Tour.receiver_mem hr
    have hexpr : Node.expr r ∈ (Node.decl d).subtree := by simpa [Stop.target] using hexpr
    cases List.inj_on_of_nodup_map hids hn hexpr hid
    cases hdeclarative

variable {c : Checker}

/-- Names and declares an anonymous class. -/
def declareAnonymous (n : Node) (d : Decl) (base : JType) : Check String :=
  naming n d "" fun enclosing binary => do
    let parent ← loadAt n base.name
    let header := anonymousHeader (← get).catalog d binary enclosing base parent.isInterface
    record d.id header.asType
    declareBody d header
    return binary

theorem checkAnonymous_eq (n : Node) (base : JType) :
    checkAnonymous c n d base = (do
      let binary ← declareAnonymous n d base
      c.decl d
      return .ofClass binary) := by
  simp only [checkAnonymous, declareAnonymous, naming, bind_assoc, pure_bind]

theorem visits_checkAnonymous (hdecl : Visits M [.node (.decl d)] (c.decl d)) (n : Node)
    (base : JType) : Visits M [.bodyClass d ""] (checkAnonymous c n d base) := by
  rw [checkAnonymous_eq]
  refine Registers.visits (fun hids => ?_) fun binary => hdecl.done (fun _ => .pure _) fun _ => .pure _
  refine registers_naming hids (fun enclosing binary => ?_) fun N enclosing binary hname => ?_
  · refine (goes_loadAt _ _).bind fun parent => Goes.get.bind fun s => ?_
    refine Goes.bind (.record (declaredIds_allows d).decl _) fun _ => ?_
    exact (goes_declareBody d _ (declaredIds_allows d)).bind fun _ => .pure _
  · refine .skip (still_loadAt _ _) fun parent => .skip .get fun s => ?_
    refine .skip (.record _ _) fun _ => ?_
    exact (declares_declareBody d _ hname).done fun _ => .pure _

/-- Names and declares a class inside a block. -/
def declareLocal (s : Stmt) (d : Decl) : Check Unit :=
  naming (.stmt s) d d.name fun enclosing binary => do
    let observer ← observerOf (.stmt s)
    inTable (.stmt s)
      (bindSymbol { name := d.name, kind := .type, type := .ofClass binary, observer })
    declareBody d (← classHeader d binary .inBlock (some enclosing))

theorem checkLocalClass_eq (s : Stmt) :
    checkLocalClass c s d = (do
      declareLocal s d
      c.decl d) := by
  simp only [checkLocalClass, declareLocal, naming, bind_assoc]

theorem visits_checkLocalClass (hdecl : Visits M [.node (.decl d)] (c.decl d)) (s : Stmt) :
    Visits M [.bodyClass d d.name] (checkLocalClass c s d) := by
  rw [checkLocalClass_eq]
  refine Registers.visits (fun hids => ?_) fun _ => hdecl
  refine registers_naming hids (fun enclosing binary => ?_) fun N enclosing binary hname => ?_
  · refine (goes_observerOf _).bind fun observer => Goes.bind (has_bindSymbol rfl _ _) fun _ => ?_
    refine (goes_classHeader d binary _ _ (declaredIds_allows d)).bind fun header => ?_
    exact goes_declareBody d header (declaredIds_allows d)
  · refine .skip (still_observerOf _) fun observer => .skip (.inTable _ _) fun _ => ?_
    refine .after (still_classHeader d binary _ _) (p := fun c => c.name = binary) ?_ ?_
    · exact fun hrun _ => returns_classHeader _ _ _ _ hrun
    · rintro header rfl
      exact declares_declareBody d header hname

end

end JavaSema.Analysis
