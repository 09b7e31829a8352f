import JavaSema.Proofs.Catalog.Permuted
import Mathlib.Data.List.Nodup

/-!
# No two classes have the same binary name

A class is named after its package, after the class around it, or after the class around it with a
number if it stands in a body.  All three kinds of names are texts, and a name of one kind is never one of
another.

There are three groups.

* Segments.  A name shows the class around it (`nested_inj`), and the segment of a class in a body shows
  the number of the class (`segment_number_inj`).
* Origins.  `Origin` says where an entry of the catalog comes from.  `Unique` is the invariant: each entry
  has an origin, and no name occurs twice.
* Registrations.  Naming a class keeps the invariant, so that `Registered` catalogs have it.

## Implementation notes

The entries of a catalog are all names that were handed out, one for each registration.  That a class is
registered once means that its number occurs once among them.
-/

namespace JavaSema

/-! ## Segments -/

/-- The name has a first character, which is no digit, and has no dollar sign. -/
def IsTypeName (name : String) : Prop :=
  (∃ c, name.toList.head? = some c ∧ c.isDigit = false) ∧ '$' ∉ name.toList

theorem Text.splitLastChars?_eq_none {sep : Char} {s : List Char} (h : sep ∉ s) :
    splitLastChars? sep s = none := by
  induction s with
  | nil => rfl
  | cons c s ih =>
    rw [List.mem_cons, not_or] at h
    rw [splitLastChars?, ih h.2]
    exact if_neg (Ne.symm h.1)

theorem Text.splitLastChars?_append {sep : Char} (front : List Char) {s : List Char} (h : sep ∉ s) :
    splitLastChars? sep (front ++ sep :: s) = some (front, s) := by
  induction front with
  | nil => simp [splitLastChars?, splitLastChars?_eq_none h]
  | cons c front ih => simp [splitLastChars?, ih]

namespace BinaryName

theorem toList_nested (outer simple : String) :
    (nested outer simple).toList = outer.toList ++ '$' :: simple.toList := by
  simp [nested, String.toList_append]

/-- A nested name is cut at its last dollar sign. -/
theorem nested_inj {outer outer' simple simple' : String} (hs : '$' ∉ simple.toList)
    (hs' : '$' ∉ simple'.toList) (h : nested outer simple = nested outer' simple') :
    outer = outer' ∧ simple = simple' := by
  have hcut := congrArg (fun s => Text.splitLastChars? '$' s.toList) h
  simp only [toList_nested, Text.splitLastChars?_append _ hs, Text.splitLastChars?_append _ hs',
    Option.some.injEq, Prod.mk.injEq, String.toList_inj] at hcut
  exact hcut

end BinaryName

theorem PackageName.toList_qualify (p : PackageName) (simple : String) :
    (p.qualify simple).toList = (p.qualify "").toList ++ simple.toList := by
  unfold qualify
  split <;> simp [String.toList_append]

/-- Names at the top level have no dollar sign after the package. -/
theorem PackageName.qualify_ne_nested {p : PackageName} {name outer : String} (simple : String)
    (hname : '$' ∉ name.toList) (houter : (p.qualify "").toList <+: outer.toList) :
    p.qualify name ≠ BinaryName.nested outer simple := by
  intro h
  obtain ⟨rest, hrest⟩ := houter
  have hlist := congrArg String.toList h
  rw [toList_qualify, BinaryName.toList_nested, ← hrest, List.append_assoc,
    List.append_cancel_left_eq] at hlist
  apply hname
  rw [hlist]
  simp

theorem isDigit_of_mem_toString {n : Nat} {c : Char} (h : c ∈ (toString n).toList) :
    c.isDigit = true := by
  rw [Nat.toString_eq_ofList_toDigits, String.toList_ofList] at h
  exact Nat.isDigit_of_mem_toDigits (by decide) (by decide) h

/-- What follows the number of a class in a body: nothing, or the name of the class. -/
def FollowsNumber (simple : String) : Prop := simple = "" ∨ IsTypeName simple

theorem FollowsNumber.takeWhile {simple : String} (h : FollowsNumber simple) :
    simple.toList.takeWhile Char.isDigit = [] := by
  rcases h with rfl | ⟨⟨c, hhead, hdigit⟩, -⟩
  · rfl
  · obtain ⟨rest, hrest⟩ := List.head?_eq_some_iff.mp hhead
    rw [hrest]
    simp [hdigit]

/-- The segment of a class in a body has no dollar sign. -/
theorem FollowsNumber.no_dollar {simple : String} (h : FollowsNumber simple) (n : Nat) :
    '$' ∉ (toString n ++ simple).toList := by
  rw [String.toList_append, List.mem_append, not_or]
  refine ⟨fun hmem => ?_, ?_⟩
  · exact absurd (isDigit_of_mem_toString hmem) (by decide)
  · rcases h with rfl | hname
    · simp
    · exact hname.2

/-- The segment of a class in a body shows its number. -/
theorem segment_number_inj {simple simple' : String} {n n' : Nat} (hs : FollowsNumber simple)
    (hs' : FollowsNumber simple') (h : toString n ++ simple = toString n' ++ simple') : n = n' := by
  have hcut : ∀ {s : String} (k : Nat), FollowsNumber s →
      (toString k ++ s).toList.takeWhile Char.isDigit = (toString k).toList := by
    intro s k hs
    rw [String.toList_append,
      List.takeWhile_append_of_pos fun c hc => isDigit_of_mem_toString hc, hs.takeWhile]
    exact List.append_nil _
  have hdigits : (toString n).toList = (toString n').toList := by
    rw [← hcut n hs, ← hcut n' hs', h]
  have hnumber := congrArg (fun ds => Nat.ofDigitChars 10 ds 0) hdigits
  simpa [Nat.toString_eq_ofList_toDigits] using hnumber

/-- A segment that shows a number is not the name of a type. -/
theorem IsTypeName.ne_numbered {name : String} (h : IsTypeName name) (n : Nat) (simple : String) :
    name ≠ toString n ++ simple := by
  rintro rfl
  obtain ⟨⟨c, hhead, hdigit⟩, -⟩ := h
  rw [String.toList_append] at hhead
  have hne : (toString n).toList ≠ [] := by
    rw [Nat.toString_eq_ofList_toDigits, String.toList_ofList]
    exact Nat.toDigits_ne_nil
  obtain ⟨d, rest, hd⟩ := List.exists_cons_of_ne_nil hne
  have hmem : d ∈ (toString n).toList := hd ▸ List.mem_cons_self
  rw [hd] at hhead
  obtain rfl : d = c := by simpa using hhead
  simp [isDigit_of_mem_toString hmem] at hdigit

namespace Catalog

open Source

/-! ## Origins -/

/-- The declarations of a source text: those of the unit and others, with all their member classes.
Types have proper names, and no two of the same level of the same class have the same one. -/
structure PlainlyNamed (u : SourceUnit) (ds : List Decl) : Prop where
  /-- The types of the unit and all member classes are among the declarations. -/
  closed : ∀ siblings ∈ u.types :: ds.map Decl.nestedTypes, ∀ d ∈ siblings, d ∈ ds
  /-- Each declaration has its own number. -/
  numbered : ∀ d ∈ ds, ∀ e ∈ ds, d.id = e.id → d = e
  /-- Their names are names of types. -/
  plain : ∀ siblings ∈ u.types :: ds.map Decl.nestedTypes, ∀ d ∈ siblings, IsTypeName d.name
  /-- Siblings have different names. -/
  distinct : ∀ siblings ∈ u.types :: ds.map Decl.nestedTypes, (siblings.map Decl.name).Nodup

theorem nestedTypes_mem {u : SourceUnit} {ds : List Decl} {d : Decl} (hd : d ∈ ds) :
    d.nestedTypes ∈ u.types :: ds.map Decl.nestedTypes :=
  List.mem_cons_of_mem _ (List.mem_map.mpr ⟨d, hd, rfl⟩)

variable {u : SourceUnit} {ds : List Decl} {names more : List (NodeId × String)}
  {counters later : NameMap Nat} {p q : NodeId × String}

/-- The entry is that of a class outside of bodies, or of a member class of a class with an entry. -/
inductive OriginOutside (u : SourceUnit) (ds : List Decl) (names : List (NodeId × String)) :
    NodeId × String → Prop
  /-- A type of the unit. -/
  | top {d : Decl} (hd : d ∈ u.types) : OriginOutside u ds names (d.id, u.packageName.qualify d.name)
  /-- A member class. -/
  | member {d n : Decl} {b : String} (hd : d ∈ ds) (hn : n ∈ d.nestedTypes)
    (hb : (d.id, b) ∈ names) : OriginOutside u ds names (n.id, BinaryName.nested b n.name)

/-- Where an entry comes from.  A class in a body has a number up to the one that was reached. -/
inductive Origin (u : SourceUnit) (ds : List Decl) (names : List (NodeId × String))
    (counters : NameMap Nat) : NodeId × String → Prop
  /-- A type of the unit or a member class. -/
  | outside {p : NodeId × String} (h : OriginOutside u ds names p) : Origin u ds names counters p
  /-- A class in a body. -/
  | inBody {id : NodeId} {enclosing simple : String} {n : Nat}
    (henclosing : enclosing ∈ names.map Prod.snd) (hsimple : FollowsNumber simple)
    (hn : n ≤ (counters.lookup enclosing).getD 0) :
    Origin u ds names counters (id, BinaryName.nested enclosing (toString n ++ simple))

theorem OriginOutside.mono (h : OriginOutside u ds names p) (hnames : names ⊆ more) :
    OriginOutside u ds more p := by
  cases h with
  | top hd => exact .top hd
  | member hd hn hb => exact .member hd hn (hnames hb)

theorem Origin.mono (h : Origin u ds names counters p) (hnames : names ⊆ more)
    (hcounters : ∀ e, (counters.lookup e).getD 0 ≤ (later.lookup e).getD 0) :
    Origin u ds more later p := by
  cases h with
  | outside h => exact .outside (h.mono hnames)
  | inBody henclosing hsimple hn =>
    exact .inBody (List.map_subset _ hnames henclosing) hsimple (Nat.le_trans hn (hcounters _))

/-- Each entry has an origin, and no name occurs twice. -/
structure Unique (u : SourceUnit) (ds : List Decl) (names : List (NodeId × String))
    (counters : NameMap Nat) : Prop where
  /-- Each entry has an origin. -/
  origin : ∀ p ∈ names, Origin u ds names counters p
  /-- All names are in the package. -/
  inPackage : ∀ b ∈ names.map Prod.snd, (u.packageName.qualify "").toList <+: b.toList
  /-- No name occurs twice. -/
  nodup : (names.map Prod.snd).Nodup

/-- The class around a class is in the package, and so is the class. -/
theorem inPackage_nested {outer : String} (simple : String)
    (h : (u.packageName.qualify "").toList <+: outer.toList) :
    (u.packageName.qualify "").toList <+: (BinaryName.nested outer simple).toList := by
  rw [BinaryName.toList_nested]
  exact h.trans (List.prefix_append _ _)

theorem Unique.inPackage_of_mem (h : Unique u ds names counters) {id : NodeId} {b : String}
    (hb : (id, b) ∈ names) : (u.packageName.qualify "").toList <+: b.toList :=
  h.inPackage b (List.mem_map.mpr ⟨_, hb, rfl⟩)

/-- Classes outside of bodies with the same name are the same. -/
theorem Unique.eq_outside (h : Unique u ds names counters) (hds : PlainlyNamed u ds)
    (hp : OriginOutside u ds names p) (hq : OriginOutside u ds names q) (hpq : p.2 = q.2) :
    p.1 = q.1 := by
  have htop : u.types ∈ u.types :: ds.map Decl.nestedTypes := List.mem_cons_self
  cases hp with
  | @top d hd =>
    cases hq with
    | @top e he =>
      have hlist := congrArg String.toList hpq
      rw [PackageName.toList_qualify, PackageName.toList_qualify _ e.name,
        List.append_cancel_left_eq, String.toList_inj] at hlist
      rw [List.inj_on_of_nodup_map (hds.distinct _ htop) hd he hlist]
    | member he hn hb =>
      exact absurd hpq (PackageName.qualify_ne_nested _ (hds.plain _ htop _ hd).2
        (h.inPackage_of_mem hb))
  | @member d n b hd hn hb =>
    have hplain := hds.plain _ (nestedTypes_mem hd) _ hn
    cases hq with
    | top he =>
      exact absurd hpq.symm (PackageName.qualify_ne_nested _ (hds.plain _ htop _ he).2
        (h.inPackage_of_mem hb))
    | @member e m b' he hm hb' =>
      have hplain' := hds.plain _ (nestedTypes_mem he) _ hm
      obtain ⟨rfl, hname⟩ := BinaryName.nested_inj hplain.2 hplain'.2 hpq
      have hid := congrArg Prod.fst (List.inj_on_of_nodup_map h.nodup hb hb' rfl)
      obtain rfl := hds.numbered d hd e he hid
      rw [List.inj_on_of_nodup_map (hds.distinct _ (nestedTypes_mem hd)) hn hm hname]

/-- A class outside of bodies is not named like one in a body. -/
theorem Unique.ne_inBody (h : Unique u ds names counters) (hds : PlainlyNamed u ds)
    (hp : OriginOutside u ds names p) {enclosing simple : String} (n : Nat)
    (henclosing : enclosing ∈ names.map Prod.snd) (hsimple : FollowsNumber simple) :
    p.2 ≠ BinaryName.nested enclosing (toString n ++ simple) := by
  cases hp with
  | top hd =>
    exact PackageName.qualify_ne_nested _ (hds.plain _ List.mem_cons_self _ hd).2
      (h.inPackage _ henclosing)
  | member hd hn hb =>
    have hplain := hds.plain _ (nestedTypes_mem hd) _ hn
    intro hpq
    obtain ⟨-, hname⟩ := BinaryName.nested_inj hplain.2 (hsimple.no_dollar n) hpq
    exact hplain.ne_numbered n simple hname

/-! ## Registrations -/

/-- A class outside of bodies that has no name yet is named. -/
theorem Unique.assign (h : Unique u ds names counters) (hds : PlainlyNamed u ds)
    (horigin : OriginOutside u ds names p) (hnew : p.1 ∉ names.map Prod.fst) :
    Unique u ds (p :: names) counters := by
  have hmono : ∀ q, Origin u ds names counters q → Origin u ds (p :: names) counters q :=
    fun q hq => hq.mono (List.subset_cons_self _ _) fun _ => Nat.le_refl _
  refine ⟨?_, ?_, ?_⟩
  · exact List.forall_mem_cons.mpr ⟨hmono p (.outside horigin), fun q hq => hmono q (h.origin q hq)⟩
  · refine List.forall_mem_cons.mpr ⟨?_, h.inPackage⟩
    cases horigin with
    | @top d hd =>
      rw [PackageName.toList_qualify _ d.name]
      exact List.prefix_append _ _
    | member hd hn hb => exact inPackage_nested _ (h.inPackage_of_mem hb)
  · refine List.nodup_cons.mpr ⟨?_, h.nodup⟩
    intro hmem
    obtain ⟨q, hq, hqp⟩ := List.mem_map.mp hmem
    cases h.origin q hq with
    | outside hqo => exact hnew (List.mem_map.mpr ⟨q, hq, h.eq_outside hds hqo horigin hqp⟩)
    | inBody henclosing hsimple _ => exact h.ne_inBody hds horigin _ henclosing hsimple hqp.symm

/-- A class in a body gets the next number. -/
theorem Unique.nameLocal {c : Catalog} (h : Unique u ds c.names c.counters)
    (hds : PlainlyNamed u ds) (d : Decl) {enclosing simple : String}
    (henclosing : enclosing ∈ c.names.map Prod.snd) (hsimple : FollowsNumber simple) :
    Unique u ds (c.nameLocal d enclosing simple).2.names
      (c.nameLocal d enclosing simple).2.counters := by
  let n := (c.counters.lookup enclosing).getD 0
  let binary := BinaryName.nested enclosing (toString (n + 1) ++ simple)
  show Unique u ds ((d.id, binary) :: c.names) ((enclosing, n + 1) :: c.counters)
  have hsubset : c.names ⊆ (d.id, binary) :: c.names := List.subset_cons_self _ _
  have hcounters : ∀ e, (c.counters.lookup e).getD 0
      ≤ (((enclosing, n + 1) :: c.counters).lookup e).getD 0 := by
    intro e
    by_cases he : e = enclosing
    · subst he
      simp [n]
    · simp [List.lookup_cons, beq_false_of_ne he]
  refine ⟨?_, ?_, ?_⟩
  · refine List.forall_mem_cons.mpr ⟨?_, fun q hq => (h.origin q hq).mono hsubset hcounters⟩
    exact .inBody (List.map_subset _ hsubset henclosing) hsimple (by simp)
  · exact List.forall_mem_cons.mpr
      ⟨inPackage_nested _ (h.inPackage _ henclosing), h.inPackage⟩
  · refine List.nodup_cons.mpr ⟨?_, h.nodup⟩
    intro hmem
    obtain ⟨q, hq, hqb⟩ := List.mem_map.mp hmem
    cases h.origin q hq with
    | outside hqo => exact h.ne_inBody hds hqo _ henclosing hsimple hqb
    | inBody henclosing' hsimple' hm =>
      obtain ⟨rfl, hsegment⟩ := BinaryName.nested_inj (hsimple'.no_dollar _) (hsimple.no_dollar _) hqb
      have hnumber := segment_number_inj hsimple' hsimple hsegment
      simp only [n] at hnumber
      omega

/-- Each number occurs once. -/
def Once (names : List (NodeId × String)) : Prop := (names.map Prod.fst).Nodup

theorem Once.of_append (h : Once (more ++ names)) : Once names := by
  rw [Once, List.map_append] at h
  exact (List.nodup_append.mp h).2.1

theorem foldl_declare_entries (level : List (Decl × String)) (c : Catalog) :
    (level.foldl (fun c (d, binary) => c.declare d binary) c).names
      = (level.map fun p => (p.1.id, p.2)).reverse ++ c.names := by
  induction level generalizing c with
  | nil => rfl
  | cons p level ih =>
    rw [List.foldl_cons, ih, List.map_cons, List.reverse_cons, List.append_assoc]
    rfl

/-- The classes of a level are named. -/
theorem Unique.foldl_declare {c : Catalog} (h : Unique u ds c.names c.counters)
    (hds : PlainlyNamed u ds) {level : List (Decl × String)}
    (horigin : ∀ p ∈ level, OriginOutside u ds c.names (p.1.id, p.2))
    (honce : Once (level.foldl (fun c (d, binary) => c.declare d binary) c).names) :
    Unique u ds (level.foldl (fun c (d, binary) => c.declare d binary) c).names
      (level.foldl (fun c (d, binary) => c.declare d binary) c).counters := by
  induction level generalizing c with
  | nil => exact h
  | cons p level ih =>
    have hnext := honce
    rw [List.foldl_cons, foldl_declare_entries] at hnext
    have hnew : p.1.id ∉ c.names.map Prod.fst := (List.nodup_cons.mp hnext.of_append).1
    have hfirst : Unique u ds (c.declare p.1 p.2).names (c.declare p.1 p.2).counters :=
      h.assign hds (horigin p List.mem_cons_self) hnew
    refine ih hfirst (fun q hq => ?_) honce
    exact (horigin q (List.mem_cons_of_mem _ hq)).mono (List.subset_cons_self _ _)

/-- The classes of a level are named, and their member classes down to the given height. -/
theorem Unique.levels {c : Catalog} (h : Unique u ds c.names c.counters) (hds : PlainlyNamed u ds)
    (height : Nat) {level : List (Decl × String)} (hlevel : ∀ p ∈ level, p.1 ∈ ds)
    (horigin : ∀ p ∈ level, OriginOutside u ds c.names (p.1.id, p.2))
    (honce : Once ((Catalog.levels height level).foldl
      (fun c (d, binary) => c.declare d binary) c).names) :
    Unique u ds
      ((Catalog.levels height level).foldl (fun c (d, binary) => c.declare d binary) c).names
      ((Catalog.levels height level).foldl (fun c (d, binary) => c.declare d binary) c).counters := by
  induction height generalizing c level with
  | zero => exact h
  | succ height ih =>
    rw [Catalog.levels, List.foldl_append] at honce ⊢
    have hfirst := honce
    rw [foldl_declare_entries] at hfirst
    refine ih (h.foldl_declare hds horigin hfirst.of_append) ?_ ?_ honce
    · intro q hq
      obtain ⟨r, hr, hq⟩ := List.mem_flatMap.mp hq
      obtain ⟨m, hm, rfl⟩ := List.mem_map.mp hq
      exact hds.closed _ (nestedTypes_mem (hlevel r hr)) m hm
    · intro q hq
      obtain ⟨r, hr, hq⟩ := List.mem_flatMap.mp hq
      obtain ⟨m, hm, rfl⟩ := List.mem_map.mp hq
      exact .member (hlevel r hr) hm ((foldl_declare_names level c).1 r hr)

/-- Member classes of a class with a name are named, and theirs. -/
theorem Unique.nameNestedIn {c : Catalog} (h : Unique u ds c.names c.counters)
    (hds : PlainlyNamed u ds) (height : Nat) {d : Decl} {outer : String} (hd : d ∈ ds)
    (hb : (d.id, outer) ∈ c.names) {members : List Decl} (hmembers : ∀ n ∈ members, n ∈ d.nestedTypes)
    (honce : Once (Catalog.nameNestedIn height c outer members).names) :
    Unique u ds (Catalog.nameNestedIn height c outer members).names
      (Catalog.nameNestedIn height c outer members).counters := by
  induction height generalizing c d outer members with
  | zero => exact h
  | succ height ih =>
    rw [Catalog.nameNestedIn] at honce ⊢
    induction members generalizing c with
    | nil => exact h
    | cons n members ihmembers =>
      let named := c.assign n (BinaryName.nested outer n.name)
      let inner := Catalog.nameNestedIn height named (BinaryName.nested outer n.name) n.nestedTypes
      have hn := hmembers n List.mem_cons_self
      have hrest := (nameNestedIn_names (height + 1) inner outer members).1
      have hinner := (nameNestedIn_names height named (BinaryName.nested outer n.name)
        n.nestedTypes).1
      rw [Catalog.nameNestedIn] at hrest
      have honceInner : Once inner.names := (hrest ▸ honce).of_append
      have honceNamed : Once named.names := (hinner ▸ honceInner).of_append
      have hnamed : Unique u ds named.names named.counters :=
        h.assign hds (.member hd hn hb) (List.nodup_cons.mp honceNamed).1
      have hfirst : Unique u ds inner.names inner.counters :=
        ih hnamed (hds.closed _ (nestedTypes_mem hd) n hn) List.mem_cons_self (fun _ hm => hm)
          honceInner
      have hkept : (d.id, outer) ∈ inner.names := by
        rw [hinner]
        exact List.mem_append_right _ (List.mem_cons_of_mem _ hb)
      exact ihmembers hfirst hkept (fun m hm => hmembers m (List.mem_cons_of_mem _ hm)) honce

/-- The catalogs of a unit and of registrations after it.  Classes in bodies stand in classes that have a
name. -/
inductive Registered (env : ClassEnv) (hasLanguagePackage : Bool) (u : SourceUnit) (ds : List Decl) :
    Catalog → Prop
  /-- The unit was registered. -/
  | unit : Registered env hasLanguagePackage u ds (ofUnit env hasLanguagePackage u)
  /-- A local or anonymous class was registered. -/
  | inBody {c : Catalog} (h : Registered env hasLanguagePackage u ds c) {d : Decl} (hd : d ∈ ds)
    {enclosing simple : String} (henclosing : enclosing ∈ c.names.map Prod.snd)
    (hsimple : FollowsNumber simple) :
    Registered env hasLanguagePackage u ds (c.nameLocal d enclosing simple).2
  /-- The member classes of a class were registered. -/
  | members {c : Catalog} (h : Registered env hasLanguagePackage u ds c) {d : Decl} (hd : d ∈ ds) :
    Registered env hasLanguagePackage u ds (c.nameNested d)

theorem Registered.unique {env : ClassEnv} {hasLanguagePackage : Bool} {c : Catalog}
    (h : Registered env hasLanguagePackage u ds c) (hds : PlainlyNamed u ds) (honce : Once c.names) :
    Unique u ds c.names c.counters := by
  induction h with
  | unit =>
    have hempty : Unique u ds [] [] := ⟨by simp, by simp, List.nodup_nil⟩
    refine Unique.levels (c := { package := u.packageName, hasLanguagePackage
                                 imports := Imports.ofList u.imports }) hempty hds u.height ?_ ?_ honce
    · intro p hp
      obtain ⟨d, hd, rfl⟩ := List.mem_map.mp hp
      exact hds.closed _ List.mem_cons_self d hd
    · intro p hp
      obtain ⟨d, hd, rfl⟩ := List.mem_map.mp hp
      exact .top hd
  | @inBody c _ d hd enclosing simple henclosing hsimple ih =>
    have hfirst : Once ([(d.id, _)] ++ c.names) := honce
    have hbefore : Once c.names := hfirst.of_append
    exact (ih hbefore).nameLocal hds d henclosing hsimple
  | @members c _ d hd ih =>
    unfold nameNested at honce ⊢
    cases hname : c.binaryName? d with
    | none =>
      rw [hname] at honce
      exact ih honce
    | some b =>
      rw [hname] at honce
      have hentries := (nameNestedIn_names (Node.decl d).height c b d.nestedTypes).1
      have hbefore : Once c.names := (hentries ▸ honce).of_append
      exact (ih hbefore).nameNestedIn hds _ hd ((lookup_eq_some_iff_mem hbefore).mp hname) (fun _ hm => hm) honce

/-- If each class is registered once, no two classes get the same binary name. -/
theorem binary_names_unique (env : ClassEnv) (hasLanguagePackage : Bool) (u : SourceUnit)
    (ds : List Decl) (hds : PlainlyNamed u ds) (c : Catalog)
    (h : Registered env hasLanguagePackage u ds c) (honce : (c.names.map Prod.fst).Nodup) :
    (c.names.map Prod.snd).Nodup ∧
      ∀ d ∈ ds, ∀ e ∈ ds, ∀ b, c.binaryName? d = some b → c.binaryName? e = some b → d = e := by
  have hunique := h.unique hds honce
  refine ⟨hunique.nodup, ?_⟩
  intro d hd e he b hdb heb
  have hsame := List.inj_on_of_nodup_map hunique.nodup ((lookup_eq_some_iff_mem honce).mp hdb)
    ((lookup_eq_some_iff_mem honce).mp heb) rfl
  exact hds.numbered d hd e he (congrArg Prod.fst hsame)

/-- A class with member classes. -/
def nesting (id : NodeId) (name : String) (members : List Decl) : Decl :=
  { id, name, kind := .ordinary, modifiers := {}, typeParams := [], parent := none, interfaces := []
    constants := [], members := members.map .type, span := default }

/-- The class `A` with the member class `B`, in the package `p`. -/
def nestedUnit : SourceUnit :=
  { package := some ⟨⟨["p"]⟩⟩, types := [nesting 0 "A" [nesting 1 "B" []]] }

/-- The catalog of the unit, after a local class `B` of `A`, its member class and an anonymous class of
`A`. -/
def nestedCatalog : Catalog :=
  let c := ofUnit (ClassTable.toEnv {}) true nestedUnit
  let c := (c.nameLocal (nesting 2 "B" [nesting 3 "C" []]) "p.A" "B").2
  ((c.nameNested (nesting 2 "B" [nesting 3 "C" []])).nameLocal (nesting 4 "" []) "p.A" "").2

/-- The names of a member class, a local class and an anonymous class. -/
theorem nestedCatalog_names :
    ∃ ds, PlainlyNamed nestedUnit ds ∧
      Registered (ClassTable.toEnv {}) true nestedUnit ds nestedCatalog ∧
      nestedCatalog.names
        = [(4, "p.A$2"), (3, "p.A$1B$C"), (2, "p.A$1B"), (1, "p.A$B"), (0, "p.A")] ∧
      (nestedCatalog.names.map Prod.snd).Nodup := by
  let ds := [nesting 0 "A" [nesting 1 "B" []], nesting 1 "B" [], nesting 2 "B" [nesting 3 "C" []],
    nesting 3 "C" [], nesting 4 "" []]
  have hname : ∀ c : Char, c.isDigit = false → c ≠ '$' → IsTypeName (String.singleton c) := by
    intro c hdigit hdollar
    refine ⟨⟨c, by simp, hdigit⟩, ?_⟩
    simpa using hdollar.symm
  have hds : PlainlyNamed nestedUnit ds := by
    refine ⟨?_, ?_, ?_, ?_⟩
    · simp [nestedUnit, ds, nesting, Decl.nestedTypes]
    · simp [ds, nesting]
    · have hA := hname 'A' (by decide) (by decide)
      have hB := hname 'B' (by decide) (by decide)
      have hC := hname 'C' (by decide) (by decide)
      simp [nestedUnit, ds, nesting, Decl.nestedTypes]
      exact ⟨hA, hB, hC⟩
    · simp [nestedUnit, ds, nesting, Decl.nestedTypes]
  have hnames : nestedCatalog.names
      = [(4, "p.A$2"), (3, "p.A$1B$C"), (2, "p.A$1B"), (1, "p.A$B"), (0, "p.A")] := by
    decide +kernel
  have hregistered : Registered (ClassTable.toEnv {}) true nestedUnit ds nestedCatalog := by
    refine .inBody (.members (.inBody .unit (by simp [ds]) ?_ (.inr ?_)) (by simp [ds]))
      (by simp [ds]) ?_ (.inl rfl)
    · decide +kernel
    · exact hname 'B' (by decide) (by decide)
    · decide +kernel
  refine ⟨ds, hds, hregistered, hnames, ?_⟩
  refine (binary_names_unique _ _ _ ds hds _ hregistered ?_).1
  rw [hnames]
  decide

end Catalog

end JavaSema
