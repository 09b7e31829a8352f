import JavaSema.Catalog.Canonical
import JavaSema.Proofs.Text
import Mathlib.Data.List.Forall2

/-!
# Canonical names of the classes of a table

A canonical name writes dots where the binary name has dollar signs.  Loading one finds, among the
classes of a table that can be written so, the one with the fewest dollar signs.

There are three groups.

* Names.  `nestFrom` turns the dots of a dotted name into dollar signs from some dot on, and a binary
  name in which packages come first is written as the dotted name exactly if it comes out so.
* Splits.  `toList_binaryOfSplit` says that loading tries just these names, and
  `ClassTable.loadSplit_eq_some_iff` which of them it finds.
* The result is `ClassTable.loadCanonical_fewest`.
-/

namespace JavaSema

namespace BinaryName

/-! ## Names -/

/-- No dollar sign stands before a dot: the packages come first, then the classes. -/
def PackagesFirst (name : String) : Prop :=
  name.toList.Pairwise fun c e => c = '$' → e ≠ '.'

instance (name : String) : Decidable (PackagesFirst name) :=
  inferInstanceAs (Decidable (List.Pairwise _ _))

/-- The dotted name comes out when some dollar signs of the binary name are replaced by dots. -/
def WrittenAs (name dotted : String) : Prop :=
  List.Forall₂ (fun c e => e = c ∨ c = '$' ∧ e = '.') name.toList dotted.toList

instance (name dotted : String) : Decidable (WrittenAs name dotted) :=
  inferInstanceAs (Decidable (List.Forall₂ _ _ _))

/-- The number of dollar signs. -/
def dollars (name : String) : Nat := name.toList.count '$'

/-- A dotted name without a dollar sign comes out when all dollar signs are replaced. -/
theorem writtenAs_iff_replaceChar {name dotted : String} (h : '$' ∉ dotted.toList) :
    WrittenAs name dotted ↔ Text.replaceChar '$' '.' name = dotted := by
  have hchars : List.Forall₂ (fun c e => e = c ∨ c = '$' ∧ e = '.') name.toList dotted.toList ↔
      name.toList.map (fun c => if c = '$' then '.' else c) = dotted.toList := by
    generalize name.toList = cs
    generalize dotted.toList = es at h
    induction cs generalizing es with
    | nil => simp [eq_comm]
    | cons c cs ih =>
      cases es with
      | nil => simp
      | cons e es =>
        obtain ⟨he, hes⟩ := not_or.mp (List.mem_cons.not.mp h)
        rw [List.forall₂_cons, List.map_cons, List.cons.injEq, ih es hes]
        refine and_congr_left fun _ => ?_
        by_cases hc : c = '$'
        · subst hc
          simp [Ne.symm he, eq_comm]
        · simp [hc, eq_comm]
  rw [WrittenAs, hchars, Text.replaceChar, ← String.toList_inj, String.toList_ofList]

/-- The characters with the first dots kept and the others turned into dollar signs. -/
def nestFrom : Nat → List Char → List Char
  | _, [] => []
  | kept, c :: cs =>
    if c = '.' then (if kept = 0 then '$' else '.') :: nestFrom (kept - 1) cs
    else c :: nestFrom kept cs

@[simp] theorem nestFrom_nil (kept : Nat) : nestFrom kept [] = [] := rfl

@[simp] theorem nestFrom_zero (cs : List Char) : nestFrom 0 ('.' :: cs) = '$' :: nestFrom 0 cs := rfl

@[simp] theorem nestFrom_succ (kept : Nat) (cs : List Char) :
    nestFrom (kept + 1) ('.' :: cs) = '.' :: nestFrom kept cs := rfl

theorem nestFrom_of_ne {c : Char} (h : c ≠ '.') (kept : Nat) (cs : List Char) :
    nestFrom kept (c :: cs) = c :: nestFrom kept cs := by
  rw [nestFrom, if_neg h]

theorem nestFrom_append {s : List Char} (h : '.' ∉ s) (kept : Nat) (cs : List Char) :
    nestFrom kept (s ++ cs) = s ++ nestFrom kept cs := by
  induction s with
  | nil => rfl
  | cons c s ih =>
    obtain ⟨hc, hs⟩ := not_or.mp (List.mem_cons.not.mp h)
    rw [List.cons_append, nestFrom_of_ne (Ne.symm hc), ih hs, List.cons_append]

/-- Each dot that is not kept gives a dollar sign. -/
theorem count_nestFrom (kept : Nat) (cs : List Char) :
    (nestFrom kept cs).count '$' = cs.count '$' + (cs.count '.' - kept) := by
  induction cs generalizing kept with
  | nil => simp
  | cons c cs ih =>
    by_cases hc : c = '.'
    · subst hc
      cases kept with
      | zero => simp [ih]; omega
      | succ kept => simp [ih]
    · rw [nestFrom_of_ne hc, List.count_cons, List.count_cons, List.count_cons_of_ne hc, ih]
      omega

theorem writtenAs_nestFrom (kept : Nat) (cs : List Char) :
    List.Forall₂ (fun c e => e = c ∨ c = '$' ∧ e = '.') (nestFrom kept cs) cs := by
  induction cs generalizing kept with
  | nil => exact .nil
  | cons c cs ih =>
    by_cases hc : c = '.'
    · subst hc
      cases kept with
      | zero => exact .cons (.inr ⟨rfl, rfl⟩) (ih 0)
      | succ kept => exact .cons (.inl rfl) (ih kept)
    · rw [nestFrom_of_ne hc]
      exact .cons (.inl rfl) (ih kept)

/-- In a name whose packages come first, the dots that are left are the first ones. -/
theorem eq_nestFrom {ns cs : List Char} (hfirst : ns.Pairwise fun c e => c = '$' → e ≠ '.')
    (h : List.Forall₂ (fun c e => e = c ∨ c = '$' ∧ e = '.') ns cs) :
    ns = nestFrom (ns.count '.') cs ∧ ns.count '.' ≤ cs.count '.' := by
  induction h with
  | nil => exact ⟨rfl, Nat.le_refl _⟩
  | @cons n c ns cs hhead _ ih =>
    obtain ⟨hdots, hrest⟩ := List.pairwise_cons.mp hfirst
    obtain ⟨heq, hle⟩ := ih hrest
    have hnone : n = '$' → ns.count '.' = 0 := fun hn =>
      List.count_eq_zero.mpr fun hmem => hdots '.' hmem hn rfl
    rcases hhead with rfl | ⟨rfl, rfl⟩
    · by_cases hc : c = '.'
      · subst hc
        rw [List.count_cons_self, List.count_cons_self]
        exact ⟨by rw [nestFrom_succ, ← heq], by omega⟩
      · rw [List.count_cons_of_ne hc, List.count_cons_of_ne hc]
        exact ⟨by rw [nestFrom_of_ne hc, ← heq], hle⟩
    · rw [hnone rfl] at heq
      rw [List.count_cons_of_ne (by decide), hnone rfl, List.count_cons_self]
      exact ⟨by rw [nestFrom_zero, ← heq], Nat.zero_le _⟩

end BinaryName

/-! ## Splits -/

open BinaryName

theorem foldl_nested_append (s t : String) (rest : List String) :
    rest.foldl nested (s ++ t) = s ++ rest.foldl nested t := by
  induction rest generalizing t with
  | nil => rfl
  | cons r rest ih =>
    rw [List.foldl_cons, List.foldl_cons, nested, String.append_assoc, String.append_assoc, ih,
      nested, String.append_assoc]

/-- The name for a split keeps the dots of the packages. -/
theorem toList_binaryOfSplit {first : String} {rest : List String}
    (hdots : ∀ s ∈ first :: rest, '.' ∉ s.toList) (kept : Nat) :
    (binaryOfSplit (first :: rest) (kept + 1)).toList
      = nestFrom kept (Text.join "." (first :: rest)).toList := by
  induction rest generalizing first kept with
  | nil =>
    have hfirst := nestFrom_append (hdots first List.mem_cons_self) kept []
    simpa [binaryOfSplit, nestFrom] using hfirst.symm
  | cons s rest ih =>
    obtain ⟨hfirst, hrest⟩ := List.forall_mem_cons.mp hdots
    have hjoin : (Text.join "." (first :: s :: rest)).toList
        = first.toList ++ '.' :: (Text.join "." (s :: rest)).toList := by
      simp
    rw [hjoin, nestFrom_append hfirst]
    cases kept with
    | zero =>
      have hsplit : binaryOfSplit (first :: s :: rest) 1
          = first ++ ("$" ++ binaryOfSplit (s :: rest) 1) := by
        simp only [binaryOfSplit, List.drop_succ_cons, List.drop_zero, List.take_succ_cons,
          List.take_zero, Text.join_singleton, List.foldl_cons]
        rw [nested, String.append_assoc, foldl_nested_append, foldl_nested_append]
      rw [hsplit, String.toList_append, String.toList_append, ih hrest 0]
      rfl
    | succ kept =>
      have hsplit : binaryOfSplit (first :: s :: rest) (kept + 2)
          = first ++ ("." ++ binaryOfSplit (s :: rest) (kept + 1)) := by
        simp only [binaryOfSplit, List.drop_succ_cons, List.take_succ_cons, Text.join_cons_cons]
        rw [String.append_assoc, foldl_nested_append, foldl_nested_append]
      rw [hsplit, String.toList_append, String.toList_append, ih hrest kept]
      rfl

/-- The splits of a dotted name keep its first dots. -/
theorem toList_binaryOfSplit_split (dotted : String) (kept : Nat) :
    (binaryOfSplit (Text.split '.' dotted) (kept + 1)).toList = nestFrom kept dotted.toList := by
  obtain ⟨first, rest, hpieces⟩ :=
    List.exists_cons_of_ne_nil (Text.splitChars_ne_nil '.' dotted.toList)
  have hsplit : Text.split '.' dotted = String.ofList first :: rest.map String.ofList := by
    rw [Text.split, hpieces, List.map_cons]
  have hdots : ∀ s ∈ Text.split '.' dotted, '.' ∉ s.toList := by
    intro s hs
    obtain ⟨piece, hpiece, rfl⟩ := List.mem_map.mp hs
    rw [String.toList_ofList]
    exact Text.notMem_of_mem_splitChars hpiece
  have hjoin : (Text.join "." (Text.split '.' dotted)).toList = dotted.toList :=
    Text.toList_join_split '.' dotted
  rw [hsplit] at hdots hjoin ⊢
  rw [toList_binaryOfSplit hdots, hjoin]

theorem length_split (dotted : String) :
    (Text.split '.' dotted).length = dotted.toList.count '.' + 1 := by
  rw [Text.split, List.length_map, Text.length_splitChars]

/-- The name for a split is written as the dotted name, and has a dollar sign for each dot that is not
kept. -/
theorem binaryOfSplit_writtenAs (dotted : String) (kept : Nat) :
    WrittenAs (binaryOfSplit (Text.split '.' dotted) (kept + 1)) dotted ∧
      dollars (binaryOfSplit (Text.split '.' dotted) (kept + 1))
        = dollars dotted + (dotted.toList.count '.' - kept) := by
  rw [WrittenAs, dollars, toList_binaryOfSplit_split]
  exact ⟨writtenAs_nestFrom _ _, count_nestFrom _ _⟩

/-- A name with packages first is written as the dotted name exactly if it is the one for a split. -/
theorem writtenAs_iff_exists_split {name dotted : String} (hfirst : PackagesFirst name) :
    WrittenAs name dotted ↔
      ∃ kept ≤ dotted.toList.count '.',
        binaryOfSplit (Text.split '.' dotted) (kept + 1) = name := by
  constructor
  · intro h
    obtain ⟨heq, hle⟩ := eq_nestFrom hfirst h
    refine ⟨_, hle, ?_⟩
    rw [← String.toList_inj, toList_binaryOfSplit_split, ← heq]
  · rintro ⟨kept, -, rfl⟩
    exact (binaryOfSplit_writtenAs dotted kept).1

/-- Of a dotted name whose segments are not empty, all splits are tried. -/
theorem ClassEnv.loadCanonical_eq_loadSplit (env : ClassEnv) {dotted : String}
    (hsegments : ∀ s ∈ Text.split '.' dotted, s ≠ "") :
    env.loadCanonical dotted
      = env.loadSplit (Text.split '.' dotted) (dotted.toList.count '.' + 1) := by
  have hall : (Text.split '.' dotted).filter (fun s => !s.isEmpty) = Text.split '.' dotted := by
    rw [List.filter_eq_self]
    intro s hs
    simpa using hsegments s hs
  rw [loadCanonical, hall, length_split]

namespace ClassTable

theorem loadSplit_succ (table : ClassTable) (segments : List String) (split : Nat) :
    table.toEnv.loadSplit segments (split + 1) =
      if table.contains (binaryOfSplit segments (split + 1)) = true then
        some (binaryOfSplit segments (split + 1))
      else table.toEnv.loadSplit segments split := by
  have hload : table.toEnv.load (binaryOfSplit segments (split + 1))
      = table.load (binaryOfSplit segments (split + 1)) := rfl
  rw [ClassEnv.loadSplit, hload, load, contains]
  cases hget : table.get? (binaryOfSplit segments (split + 1)) with
  | some d => exact congrArg some (name_of_get? hget)
  | none => rfl

/-- The names are tried from the one that keeps the most dots on, up to one that the table holds. -/
theorem loadSplit_eq_some_iff (table : ClassTable) (segments : List String) (split : Nat)
    {name : String} :
    table.toEnv.loadSplit segments split = some name ↔
      ∃ k < split, binaryOfSplit segments (k + 1) = name ∧ table.contains name = true ∧
        ∀ j < split, k < j → table.contains (binaryOfSplit segments (j + 1)) = false := by
  induction split with
  | zero => simp [ClassEnv.loadSplit]
  | succ split ih =>
    rw [loadSplit_succ]
    split
    · rename_i hheld
      constructor
      · rintro ⟨rfl⟩
        exact ⟨split, Nat.lt_succ_self _, rfl, hheld, fun j hj hlt => by omega⟩
      · rintro ⟨k, hk, rfl, -, hnone⟩
        obtain hlt | rfl := Nat.lt_succ_iff_lt_or_eq.mp hk
        · rw [hnone split (Nat.lt_succ_self _) hlt] at hheld
          cases hheld
        · rfl
    · rename_i habsent
      rw [Bool.not_eq_true] at habsent
      rw [ih]
      constructor
      · rintro ⟨k, hk, hname, hheld, hnone⟩
        refine ⟨k, Nat.lt_succ_of_lt hk, hname, hheld, fun j hj hlt => ?_⟩
        obtain hj | rfl := Nat.lt_succ_iff_lt_or_eq.mp hj
        · exact hnone j hj hlt
        · exact habsent
      · rintro ⟨k, hk, rfl, hheld, hnone⟩
        obtain hk | rfl := Nat.lt_succ_iff_lt_or_eq.mp hk
        · exact ⟨k, hk, rfl, hheld, fun j hj => hnone j (Nat.lt_succ_of_lt hj)⟩
        · rw [habsent] at hheld
          cases hheld

/-- Nothing is found if the table holds none of the names. -/
theorem loadSplit_eq_none_iff (table : ClassTable) (segments : List String) (split : Nat) :
    table.toEnv.loadSplit segments split = none ↔
      ∀ k < split, table.contains (binaryOfSplit segments (k + 1)) = false := by
  induction split with
  | zero => simp [ClassEnv.loadSplit]
  | succ split ih =>
    rw [loadSplit_succ, Nat.forall_lt_succ_right, ← ih]
    split
    · rename_i hheld
      simp [hheld]
    · rename_i habsent
      simp [Bool.eq_false_iff.mpr habsent]

/-! ## The result -/

theorem contains_iff {table : ClassTable} {name : String} :
    table.contains name = true ↔ name ∈ table.classes.map ClassDef.name := by
  rw [contains, get?, List.find?_isSome, List.mem_map]
  simp only [beq_iff_eq]

section

variable {table : ClassTable} (hfirst : ∀ d ∈ table.classes, PackagesFirst d.name) {dotted : String}

include hfirst

theorem loadSplit_fewest {name : String} :
    table.toEnv.loadSplit (Text.split '.' dotted) (dotted.toList.count '.' + 1) = some name ↔
      name ∈ table.classes.map ClassDef.name ∧ WrittenAs name dotted ∧
        ∀ d ∈ table.classes, WrittenAs d.name dotted → dollars name ≤ dollars d.name := by
  rw [loadSplit_eq_some_iff]
  constructor
  · rintro ⟨k, hk, rfl, hheld, hnone⟩
    obtain ⟨hwritten, hdollars⟩ := binaryOfSplit_writtenAs dotted k
    refine ⟨contains_iff.mp hheld, hwritten, fun d hd hw => ?_⟩
    -- a class with fewer dollar signs keeps more dots, and would have been found before
    obtain ⟨j, hj, hname⟩ := (writtenAs_iff_exists_split (hfirst d hd)).mp hw
    have hle : j ≤ k := by
      by_contra hlt
      have hfalse := hnone j (Nat.lt_succ_of_le hj) (Nat.not_le.mp hlt)
      rw [hname, contains_iff.mpr (List.mem_map_of_mem hd)] at hfalse
      cases hfalse
    rw [← hname, hdollars, (binaryOfSplit_writtenAs dotted j).2]
    omega
  · rintro ⟨hmem, hwritten, hfewest⟩
    obtain ⟨d, hd, rfl⟩ := List.mem_map.mp hmem
    obtain ⟨k, hk, hname⟩ := (writtenAs_iff_exists_split (hfirst d hd)).mp hwritten
    refine ⟨k, Nat.lt_succ_of_le hk, hname, contains_iff.mpr hmem, fun j hj hlt => ?_⟩
    rw [Bool.eq_false_iff]
    intro hheld
    obtain ⟨e, he, hname'⟩ := List.mem_map.mp (contains_iff.mp hheld)
    obtain ⟨hw, hdollars⟩ := binaryOfSplit_writtenAs dotted j
    have hle := hfewest e he (hname' ▸ hw)
    rw [hname', hdollars, ← hname, (binaryOfSplit_writtenAs dotted k).2] at hle
    omega

theorem loadSplit_eq_none_iff_unwritten :
    table.toEnv.loadSplit (Text.split '.' dotted) (dotted.toList.count '.' + 1) = none ↔
      ∀ d ∈ table.classes, ¬ WrittenAs d.name dotted := by
  rw [loadSplit_eq_none_iff]
  constructor
  · intro hnone d hd hwritten
    obtain ⟨k, hk, hname⟩ := (writtenAs_iff_exists_split (hfirst d hd)).mp hwritten
    have hfalse := hnone k (Nat.lt_succ_of_le hk)
    rw [hname, contains_iff.mpr (List.mem_map_of_mem hd)] at hfalse
    cases hfalse
  · intro hnone k _
    rw [Bool.eq_false_iff]
    intro hheld
    obtain ⟨d, hd, hname⟩ := List.mem_map.mp (contains_iff.mp hheld)
    exact hnone d hd (hname ▸ (binaryOfSplit_writtenAs dotted k).1)

end

/-- In a table of classes whose names put packages first, a dotted name with segments that are not empty
denotes the class with the fewest dollar signs among those that are written as the name, and nothing if
no class is written so.  A name without dollar signs is that of the classes whose binary names it is once
all dollar signs are replaced by dots. -/
theorem loadCanonical_fewest (table : ClassTable)
    (hfirst : ∀ d ∈ table.classes, PackagesFirst d.name) (dotted : String)
    (hsegments : ∀ s ∈ Text.split '.' dotted, s ≠ "") :
    (∀ name, table.toEnv.loadCanonical dotted = some name ↔
        name ∈ table.classes.map ClassDef.name ∧ WrittenAs name dotted ∧
          ∀ d ∈ table.classes, WrittenAs d.name dotted → dollars name ≤ dollars d.name) ∧
      (table.toEnv.loadCanonical dotted = none ↔ ∀ d ∈ table.classes, ¬ WrittenAs d.name dotted) ∧
      ('$' ∉ dotted.toList → ∀ d ∈ table.classes,
        (WrittenAs d.name dotted ↔ Text.replaceChar '$' '.' d.name = dotted)) := by
  rw [ClassEnv.loadCanonical_eq_loadSplit _ hsegments]
  refine ⟨fun name => loadSplit_fewest hfirst, loadSplit_eq_none_iff_unwritten hfirst, ?_⟩
  exact fun hdollar d _ => writtenAs_iff_replaceChar hdollar

/-- A member class, a class of the unnamed package that can be written like it, and the class around the
first. -/
def twoReadings : ClassTable :=
  ⟨[.empty "p$Map$Entry" .ordinary, .empty "p.Map$Entry" .ordinary, .empty "p.Map" .ordinary]⟩

/-- Of two classes that can be written alike, the one with fewer dollar signs is found. -/
theorem twoReadings_fewest :
    (∀ d ∈ twoReadings.classes, PackagesFirst d.name) ∧
      (∀ s ∈ Text.split '.' "p.Map.Entry", s ≠ "") ∧
      twoReadings.toEnv.loadCanonical "p.Map.Entry" = some "p.Map$Entry" ∧
      (∀ s ∈ Text.split '.' "p.Map.Key", s ≠ "") ∧
      twoReadings.toEnv.loadCanonical "p.Map.Key" = none := by
  have hfirst : ∀ d ∈ twoReadings.classes, PackagesFirst d.name := by decide
  have hentry : ∀ s ∈ Text.split '.' "p.Map.Entry", s ≠ "" := by decide
  have hkey : ∀ s ∈ Text.split '.' "p.Map.Key", s ≠ "" := by decide
  obtain ⟨hsome, -, -⟩ := loadCanonical_fewest twoReadings hfirst "p.Map.Entry" hentry
  obtain ⟨-, hnone, -⟩ := loadCanonical_fewest twoReadings hfirst "p.Map.Key" hkey
  exact ⟨hfirst, hentry, (hsome _).mpr ⟨by decide, by decide, by decide⟩, hkey,
    hnone.mpr (by decide)⟩

/-- A class whose name has a dollar sign. -/
def dollarClass : ClassTable := ⟨[.empty "p.A$B" .ordinary]⟩

/-- A name with a dollar sign denotes the class with just that binary name, although no class is written
so once all its dollar signs are replaced. -/
theorem dollarClass_found :
    (∀ d ∈ dollarClass.classes, PackagesFirst d.name ∧
        ∀ s ∈ Text.split '.' (Text.replaceChar '$' '.' d.name), s ≠ "") ∧
      (∀ s ∈ Text.split '.' "p.A$B", s ≠ "") ∧
      (∀ d ∈ dollarClass.classes, Text.replaceChar '$' '.' d.name ≠ "p.A$B") ∧
      dollarClass.toEnv.loadCanonical "p.A$B" = some "p.A$B" := by
  decide

end ClassTable

end JavaSema
