import JavaSema.Proofs.Analysis.Agree
import JavaSema.Proofs.Analysis.BodyClass

/-!
# Giving classes their members

When the headers of all classes of a unit are declared, each class is given its members.  This changes
no header, and so it makes no difference to another class.

There are three groups.

* `SideBySide` is about two runs of a step that end alike.
* `State.Filled` is what becomes of the state.
* One theorem for each function that gives classes their members.
-/

namespace JavaSema.Analysis

open Source

variable {α β : Type} {setting : Setting} {s s' t t' : State}

/-! ## Two runs -/

/-- Two runs of a step fail alike, or succeed with the same value and with states that satisfy the
condition. -/
def SideBySide (setting : Setting) (m : Check α) (s s' : State)
    (post : α → State → State → Prop) : Prop :=
  (∃ e t t', exec (m setting) s = (.error e, t) ∧ exec (m setting) s' = (.error e, t')) ∨
    ∃ a t t', exec (m setting) s = (.ok a, t) ∧ exec (m setting) s' = (.ok a, t') ∧ post a t t'

namespace SideBySide

variable {m : Check α} {k : α → Check β} {post post' : α → State → State → Prop}

theorem pure {a : α} (h : post a s s') : SideBySide setting (Pure.pure a) s s' post :=
  .inr ⟨a, s, s', rfl, rfl, h⟩

theorem throw (e : AnalysisError) : SideBySide setting (MonadExcept.throw e : Check α) s s' post :=
  .inl ⟨e, s, s', rfl, rfl⟩

theorem failAt (n : Node) (cause : ResolveError) :
    SideBySide setting (Analysis.failAt n cause : Check α) s s' post :=
  throw _

theorem bind {post : β → State → State → Prop}
    (h : SideBySide setting m s s' fun a t t' => SideBySide setting (k a) t t' post) :
    SideBySide setting (m >>= k) s s' post := by
  rcases h with ⟨e, t, t', hrun, hrun'⟩ | ⟨a, t, t', hrun, hrun', hnext⟩
  · exact .inl ⟨e, t, t', run_bind_error hrun, run_bind_error hrun'⟩
  · unfold SideBySide
    rw [run_bind_ok hrun, run_bind_ok hrun']
    exact hnext

theorem imp (h : SideBySide setting m s s' post)
    (hpost : ∀ a t t', exec (m setting) s = (.ok a, t) → post a t t' → post' a t t') :
    SideBySide setting m s s' post' := by
  rcases h with hfail | ⟨a, t, t', hrun, hrun', ht⟩
  · exact .inl hfail
  · exact .inr ⟨a, t, t', hrun, hrun', hpost a t t' hrun ht⟩

/-- What each step preserves is preserved by all of them. -/
theorem forM (inv : State → State → Prop) (l : List β) {f : β → Check PUnit}
    (hf : ∀ b ∈ l, ∀ t t', inv t t' → SideBySide setting (f b) t t' fun _ => inv) (hs : inv s s') :
    SideBySide setting (l.forM f) s s' fun _ => inv := by
  induction l generalizing s s' with
  | nil => exact .pure hs
  | cons b l ih =>
    obtain ⟨hfirst, hrest⟩ := List.forall_mem_cons.mp hf
    exact .bind ((hfirst s s' hs).imp fun _ t t' _ ht => ih hrest ht)

/-- If the one run succeeds, then the other one does. -/
theorem of_ok (h : SideBySide setting m s s' post) {a : α} (hrun : exec (m setting) s = (.ok a, t)) :
    ∃ t', exec (m setting) s' = (.ok a, t') ∧ post a t t' := by
  rcases h with ⟨e, u, u', hfail, -⟩ | ⟨b, u, u', hleft, hright, hpost⟩
  · rw [hrun] at hfail
    cases hfail
  · rw [hrun] at hleft
    cases hleft
    exact ⟨u', hright, hpost⟩

/-- A step of which both runs are known. -/
theorem of_runs {a : α} (h : exec (m setting) s = (.ok a, t)) (h' : exec (m setting) s' = (.ok a, t'))
    (hpost : post a t t') : SideBySide setting m s s' post :=
  .inr ⟨a, t, t', h, h', hpost⟩

end SideBySide

variable {own : String → Prop} {I M : NodeId → Prop}

theorem Steady.sideBySide {m : Check α} (hm : Steady setting own I M m)
    (hs : s.Agree setting.classes own I s') :
    SideBySide setting m s s' fun _ t t' => t.Agree setting.classes own I t' ∧ s.Stays M t := by
  obtain ⟨r, t, t', hrun, hrun', hagree, hstays⟩ := hm.cases hs
  cases r with
  | error e => exact .inl ⟨e, t, t', hrun, hrun'⟩
  | ok a => exact .inr ⟨a, t, t', hrun, hrun', hagree, hstays⟩

/-! ## Members -/

theorem familyNames_same {c c' : Catalog} (h : c.Same c') (d : Decl) :
    familyNames c d = familyNames c' d := by
  rw [familyNames, familyNames, funext h.binaryName?]

/-- The later state has the same headers.  Other classes than those of the given names have the same
members. -/
structure State.Filled (outside : ClassEnv) (names : List String) (s t : State) : Prop where
  /-- The headers are the same. -/
  headers : (overlay t.declared outside).headers = (overlay s.declared outside).headers
  /-- Other classes are the same. -/
  declared : ∀ name, name ∉ names → t.declared.get? name = s.declared.get? name
  /-- No class is missing. -/
  present : ∀ name, (s.declared.get? name).isSome → (t.declared.get? name).isSome
  /-- The catalogs differ at most in what they remember. -/
  catalog : s.catalog.Same t.catalog
  /-- No name of a placeholder is taken back. -/
  fresh : s.table.fresh ≤ t.table.fresh
  /-- The same expressions name a type. -/
  typeNames : ∀ id, t.typeNames.contains id = s.typeNames.contains id

namespace State.Filled

variable {outside : ClassEnv} {names : List String} {u : State}

theorem of_stays (h : s.Stays (fun _ => False) t) (names : List String) :
    s.Filled outside names t where
  headers := by rw [h.declared]
  declared name _ := by rw [h.declared]
  present name hname := by rwa [h.declared]
  catalog := h.catalog
  fresh := h.fresh
  typeNames id := h.typeNames id not_false

theorem trans (h : s.Filled outside names t) (h' : t.Filled outside names u) :
    s.Filled outside names u where
  headers := h'.headers.trans h.headers
  declared name hname := (h'.declared name hname).trans (h.declared name hname)
  present name hname := h'.present name (h.present name hname)
  catalog := h.catalog.trans h'.catalog
  fresh := Nat.le_trans h.fresh h'.fresh
  typeNames id := (h'.typeNames id).trans (h.typeNames id)

theorem mono {names' : List String} (h : s.Filled outside names t) (hsub : names ⊆ names') :
    s.Filled outside names' t :=
  ⟨h.headers, fun name hname => h.declared name fun hmem => hname (hsub hmem), h.present, h.catalog,
    h.fresh, h.typeNames⟩

end State.Filled

theorem returns_addMember_header (c : ClassDef) (m : Member) :
    Returns (fun c' => c'.header = c.header) (addMember c m) := by
  cases m with
  | field f => exact .last fun base => .pure rfl
  | method m => exact .last fun definition => .ite (.pure rfl) (.pure rfl)
  | initializer | type => exact .pure rfl

/-- A class keeps its header when it is given its members. -/
theorem returns_classMembers_header (d : Decl) (header : ClassDef) :
    Returns (fun c => c.header = header.header) (classMembers d header) := by
  have hmembers : ∀ c : ClassDef, c.header = header.header →
      Returns (fun c => c.header = header.header) (d.members.foldlM addMember c) := by
    intro c hc
    refine .foldlM _ (fun b m hb => ?_) hc
    exact fun _ _ _ _ hrun => (returns_addMember_header b m hrun).trans hb
  refine .bind (hmembers _ rfl) fun c hc => ?_
  dsimp only
  refine .ite (.pure ?_) (.pure ?_) <;> split <;> exact hc

/-- A class that is declared is loaded. -/
theorem loadAt_run {name : String} {c : ClassDef} (h : s.declared.get? name = some c) (n : Node) :
    exec (loadAt n name setting) s = (.ok c, s) := by
  have hload : (overlay s.declared setting.classes).load name = .ok c := by
    simp only [overlay, h]
  rw [run_loadAt, hload]
  rfl

/-- The name of a declaration is found in both catalogs or in none. -/
theorem sideBySide_binaryNameOf (hs : s.catalog.Same s'.catalog) (d : Decl) :
    SideBySide setting (binaryNameOf d) s s' fun b t t' =>
      s = t ∧ s' = t' ∧ s.catalog.binaryName? d = some b := by
  have hleft := run_binaryNameOf d setting s
  have hright := run_binaryNameOf d setting s'
  rw [← hs.binaryName?] at hright
  cases hname : s.catalog.binaryName? d with
  | none =>
    rw [hname] at hleft hright
    exact .inl ⟨_, s, s', hleft, hright⟩
  | some b =>
    rw [hname] at hleft hright
    exact .of_runs hleft hright ⟨rfl, rfl, rfl⟩

section

variable (hs : s.Agree setting.classes own I s')

include hs

/-- A class that is declared in both states is opened. -/
theorem sideBySide_openClass {c : ClassDef} {binary : String} (hown : own binary)
    (hc : s.declared.get? binary = some c) (d : Decl) (observer : Option String) :
    SideBySide setting (openClass d binary observer) s s' fun _ t t' =>
      t.Agree setting.classes own I t' ∧ s.Stays (fun _ => False) t := by
  have hsteps : Resolving (Steady setting own I fun _ => False) := Steady.resolving
  have hpush := hsteps.inTable (SymbolTable.uniform_pushClassScope binary observer)
    (.pushClassScope binary observer) (.decl d)
  refine .bind ((hpush.sideBySide hs).imp fun _ t t' _ ⟨ht, hstays⟩ => ?_)
  have hload : t.declared.get? binary = some c := by rw [hstays.declared, hc]
  have hload' : t'.declared.get? binary = some c := by rw [← ht.declared binary hown, hload]
  refine .bind (.of_runs (loadAt_run hload _) (loadAt_run hload' _) ?_)
  exact ((hsteps.bindHeader (.decl d) c).sideBySide ht).imp fun _ u u' _ ⟨hu, hstays'⟩ => ⟨hu, hstays.trans hstays'⟩

/-- A class is replaced by one with the same header. -/
theorem sideBySide_declare {c header : ClassDef} (hown : own c.name)
    (hheader : s.declared.get? c.name = some header) (hsame : c.header = header.header) :
    SideBySide setting (declare c) s s' fun _ t t' =>
      t.Agree setting.classes own I t' ∧ s.Filled setting.classes [c.name] t := by
  have hheader' : s'.declared.get? c.name = some header := by rw [← hs.declared _ hown, hheader]
  have hheaders := headers_overlay_insert hheader hsame setting.classes
  have hheaders' := headers_overlay_insert hheader' hsame setting.classes
  refine .of_runs (run_modify _ _ _) (run_modify _ _ _) ⟨⟨hs.toParallel.declare c, ?_, ?_, ?_⟩,
    ⟨hheaders, ?_, ?_, .refl _, Nat.le_refl _, fun _ => rfl⟩⟩
  · exact hheaders.trans (hs.headers.trans hheaders'.symm)
  · rw [← Catalog.faithful_headers_iff]
    dsimp only
    rw [hheaders, Catalog.faithful_headers_iff]
    exact hs.faithful
  · rw [← Catalog.faithful_headers_iff]
    dsimp only
    rw [hheaders', Catalog.faithful_headers_iff]
    exact hs.faithful'
  · intro name hname
    rw [ClassTable.get?_insert, if_neg fun heq => hname (List.mem_singleton.mpr heq.symm)]
  · intro name hname
    rw [ClassTable.get?_insert]
    split
    · rfl
    · exact hname

end

/-- A class whose header is declared, and those of the classes among its members, gets its members. -/
theorem sideBySide_declareMembers (height : Nat) (d : Decl) (hs : s.Agree setting.classes own I s')
    (hnames : ∀ b ∈ familyNames s.catalog d, own b ∧ (s.declared.get? b).isSome) :
    SideBySide setting (declareMembers height d) s s' fun _ t t' =>
      t.Agree setting.classes own I t' ∧ s.Filled setting.classes (familyNames s.catalog d) t := by
  induction height generalizing d s s' with
  | zero => exact .failAt _ _
  | succ height ih =>
    have hsteps : Resolving (Steady setting own I fun _ => False) := Steady.resolving
    rw [declareMembers]
    refine .bind ((sideBySide_binaryNameOf hs.catalog d).imp fun binary _ _ _ hbinary => ?_)
    obtain ⟨rfl, rfl, hbinary⟩ := hbinary
    rw [familyNames_eq, hbinary] at hnames ⊢
    obtain ⟨⟨hown, hsome⟩, hnested⟩ := List.forall_mem_cons.mp hnames
    obtain ⟨header, hheader⟩ := Option.isSome_iff_exists.mp hsome
    refine .bind ((sideBySide_openClass hs hown hheader d none).imp fun _ t t' _ hopened => ?_)
    obtain ⟨ht, hstays⟩ := hopened
    have hload : t.declared.get? binary = some header := by rw [hstays.declared, hheader]
    have hload' : t'.declared.get? binary = some header := by rw [← ht.declared _ hown, hload]
    refine .bind (.of_runs (loadAt_run hload _) (loadAt_run hload' _) ?_)
    refine .bind (((hsteps.classMembers d header).sideBySide ht).imp fun c u u' hrun hmade => ?_)
    obtain ⟨hu, hstays'⟩ := hmade
    have hname : c.name = binary :=
      (returns_classMembers d header hrun).trans (ClassTable.name_of_get? hheader)
    subst hname
    have hsame := returns_classMembers_header d header hrun
    have hheld : u.declared.get? c.name = some header := by rw [hstays'.declared, hload]
    have hbefore : s.Filled setting.classes ([c.name] ++ d.nestedTypes.flatMap (familyNames s.catalog)) u :=
      .of_stays (hstays.trans hstays') _
    refine .bind ((sideBySide_declare hu hown hheld hsame).imp fun _ v v' _ hdeclared => ?_)
    obtain ⟨hv, hfilled⟩ := hdeclared
    have hfilled := hbefore.trans (hfilled.mono (List.subset_append_left _ _))
    refine .bind ((SideBySide.forM (fun v v' => v.Agree setting.classes own I v' ∧
      s.Filled setting.classes ([c.name] ++ d.nestedTypes.flatMap (familyNames s.catalog)) v)
      d.nestedTypes (fun e he v v' hpair => ?_) ⟨hv, hfilled⟩).imp fun _ w w' _ hpair => ?_)
    · obtain ⟨hv, hfilled⟩ := hpair
      have hfamily := familyNames_same hfilled.catalog.symm e
      have hmem : familyNames s.catalog e ⊆ d.nestedTypes.flatMap (familyNames s.catalog) :=
        fun b hb => List.mem_flatMap.mpr ⟨e, he, hb⟩
      refine (ih e hv fun b hb => ?_).imp fun _ w w' _ hmore => ?_
      · rw [hfamily] at hb
        obtain ⟨hown, hsome⟩ := hnested b (hmem hb)
        exact ⟨hown, hfilled.present b hsome⟩
      · obtain ⟨hw, hmore⟩ := hmore
        rw [hfamily] at hmore
        exact ⟨hw, hfilled.trans (hmore.mono fun b hb => List.mem_append_right _ (hmem hb))⟩
    obtain ⟨hw, hfilled⟩ := hpair
    have hclose := hsteps.discardInTable SymbolTable.uniform_popScope .popScope (.decl d)
    exact (hclose.sideBySide hw).imp fun _ x x' _ hclosed =>
      ⟨hclosed.1, hfilled.trans (.of_stays hclosed.2 _)⟩

end JavaSema.Analysis
