import JavaSema.Proofs.ClassPath.Lazy
import JavaSema.Proofs.ClassPath.Paths
import Mathlib.Data.List.Nodup

/-!
# Names and listings of a class path

A class is asked for by its name, a package is listed, and a package is asked for by its name.  The
three questions scan the entries as far as each of them needs, and combine the indexes of a chain in
different ways.  They tell the same story.

There are three groups.

* Resources.  `Listed` says that some entry lists a resource, and each question is answered by it.
* Classes among the files of a package.
* Packages within each other, and the result: `lookup_agrees_with_listing`.
-/

namespace JavaSema.ClassPath

open PathTrie

/-! ## Resources -/

/-- Some entry lists a resource with the segments. -/
def Listed (files : FileTree) (chain : List (List Entry)) (q : List String) : Prop :=
  ∃ entries ∈ chain, ∃ entry ∈ entries, entry.lists files q = true

theorem listed_cons {files : FileTree} {entries : List Entry} {chain : List (List Entry)}
    {q : List String} :
    Listed files (entries :: chain) q ↔
      (∃ entry ∈ entries, entry.lists files q = true) ∨ Listed files chain q := by
  simp [Listed]

theorem findSome?_firstOwner_isSome {files : FileTree} {chain : List (List Entry)} {path : String} :
    (chain.findSome? (Index.firstOwner files path)).isSome = true ↔
      Listed files chain (segments (normalize path)) := by
  rw [List.findSome?_isSome_iff]
  simp [Index.firstOwner, Index.answers, Listed]

/-- A class is there if its class file is found. -/
theorem hasClass_iff_find {files : FileTree} {cp : ClassPath} {name : String} :
    (cp.hasClass files name).1 = true ↔
      ∃ location, (cp.find files (BinaryName.classFilePath name)).1 = .ok (some location) := by
  show (cp.find files (BinaryName.classFilePath name)).1.toOption.join.isSome = true ↔ _
  cases (cp.find files (BinaryName.classFilePath name)).1 with
  | error e => simp [Except.toOption]
  | ok found => cases found <;> simp [Except.toOption]

/-- A class is there if its class file is listed. -/
theorem hasClass_iff {files : FileTree} {cp : ClassPath} (h : AllFaithful files cp.indexes)
    (name : String) :
    (cp.hasClass files name).1 = true ↔
      Listed files (cp.indexes.map Index.entries)
        (segments (normalize (BinaryName.classFilePath name))) := by
  obtain ⟨after, hafter, -⟩ := findFirst_spec h (BinaryName.classFilePath name)
  rw [← findSome?_firstOwner_isSome, hasClass, ClassPath.find, hafter]
  rfl

namespace Index

variable {files : FileTree} {index last : Index}

/-- An index that was scanned to its end knows all that is listed. -/
theorem Faithful.ownerAt_isSome (h : last.Faithful files) (hend : last.scanned = last.entries.length)
    (q : List String) :
    (last.trie.ownerAt q).isSome = true ↔ ∃ entry ∈ last.entries, entry.lists files q = true := by
  rw [h.known, ownerAt_trieOf, hend, List.take_length, List.findIdx?_isSome, List.any_eq_true]

/-- The listing of an index has the resources of its entries that lie directly in the package. -/
theorem Faithful.contents (h : index.Faithful files) (package : String) :
    ∃ names last, index.contents files package = (.ok names, last) ∧
      ∀ name, name ∈ names ↔
        ∃ entry ∈ index.entries,
          entry.lists files (segments (packageDirectory package) ++ [name]) = true := by
  obtain ⟨last, hlast, hstops⟩ := h.scanUntil fun _ => false
  have hend : last.scanned = last.entries.length := by simpa using hstops.stops
  have hascending : last.trie.Ascending := by
    rw [hstops.faithful.known]
    exact ascending_trieOf files last.entries last.scanned
  refine ⟨last.trie.filesIn (packageDirectory package), last, ?_, fun name => ?_⟩
  · rw [Index.contents, hlast]
    rfl
  · rw [mem_filesIn hascending, hstops.faithful.ownerAt_isSome hend, hstops.entries]

/-- A package with a resource of the entries in it or below it is there. -/
theorem Faithful.hasPackage (h : index.Faithful files) {package : String} {rest : List String}
    (hrest : rest ≠ [])
    (hlisted : ∃ entry ∈ index.entries,
      entry.lists files (segments (packageDirectory package) ++ rest) = true) :
    (index.hasPackage files package).1 = true := by
  have hstops := h.scanPast fun t => t.hasBelow (packageDirectory package)
  simp only [Index.hasPackage]
  rcases hstops.stops with hfound | hend
  · exact hfound
  · rw [← hstops.entries, ← hstops.faithful.ownerAt_isSome hend] at hlisted
    exact hasBelow_of_ownerAt hrest hlisted

end Index

theorem contentsAll_spec {files : FileTree} {indexes : List Index} (h : AllFaithful files indexes)
    (package : String) :
    ∃ names, (contentsAll files package indexes).1 = .ok names ∧
      ∀ name, name ∈ names ↔
        Listed files (indexes.map Index.entries)
          (segments (packageDirectory package) ++ [name]) := by
  induction indexes with
  | nil => exact ⟨[], rfl, by simp [Listed]⟩
  | cons index rest ih =>
    obtain ⟨more, hmore, hmem⟩ := ih fun i hi => h i (List.mem_cons_of_mem _ hi)
    obtain ⟨names, last, hnames, hfirst⟩ := (h index List.mem_cons_self).contents package
    refine ⟨names ++ more, ?_, fun name => ?_⟩
    · simp only [contentsAll, hnames, hmore]
      rfl
    · rw [List.mem_append, hfirst, hmem, List.map_cons, listed_cons]

/-- A listing stands in ascending order, each name once, and has the resources directly in the
package. -/
theorem contents_spec {files : FileTree} {cp : ClassPath} (h : AllFaithful files cp.indexes)
    (package : String) :
    ∃ names, (cp.contents files package).1 = .ok names ∧ names.Pairwise (· < ·) ∧
      ∀ name, name ∈ names ↔
        Listed files (cp.indexes.map Index.entries)
          (segments (packageDirectory package) ++ [name]) := by
  obtain ⟨names, hnames, hmem⟩ := contentsAll_spec h package
  refine ⟨Text.dedupAdjacent (Text.sortTexts names), ?_, ?_, fun name => ?_⟩
  · show (contentsAll files package cp.indexes).1.map _ = _
    rw [hnames]
    rfl
  · exact Text.pairwise_dedupAdjacent (Text.pairwise_sortTexts names)
  · rw [Text.mem_dedupAdjacent, Text.mem_sortTexts, hmem]

theorem hasPackageFirst_of_listed {files : FileTree} {indexes : List Index}
    (h : AllFaithful files indexes) {package : String} {rest : List String} (hrest : rest ≠ [])
    (hlisted : Listed files (indexes.map Index.entries)
      (segments (packageDirectory package) ++ rest)) :
    (hasPackageFirst files package indexes).1 = true := by
  induction indexes with
  | nil => simp [Listed] at hlisted
  | cons index indexes ih =>
    rw [hasPackageFirst_cons]
    by_cases hfound : (index.hasPackage files package).1 = true
    · simp [hfound]
    · rcases listed_cons.mp hlisted with hfirst | hmore
      · exact absurd ((h index List.mem_cons_self).hasPackage hrest hfirst) hfound
      · have hafter := ih (fun i hi => h i (List.mem_cons_of_mem _ hi)) hmore
        simp [hfound, hafter]

/-! ## Classes among files -/

theorem mem_classNames {simple : String} {names : List String} :
    simple ∈ classNames names ↔ simple ++ ".class" ∈ names ∧ simple ∉ descriptions := by
  simp [classNames, Text.stripEnd?_eq_some]

/-- Different files are those of different classes. -/
theorem nodup_classNames {names : List String} (h : names.Nodup) : (classNames names).Nodup := by
  apply List.Nodup.filter
  refine h.filterMap fun name name' simple hname hname' => ?_
  rw [Option.mem_def, Text.stripEnd?_eq_some] at hname hname'
  rw [hname, hname']

theorem packageClasses_spec {files : FileTree} {cp : ClassPath} (h : AllFaithful files cp.indexes)
    (package : String) :
    (cp.packageClasses files package).1.Nodup ∧
      ∀ simple, simple ∈ (cp.packageClasses files package).1 ↔
        Listed files (cp.indexes.map Index.entries)
            (segments (packageDirectory package) ++ [simple ++ ".class"]) ∧
          simple ∉ descriptions := by
  obtain ⟨names, hnames, hsorted, hmem⟩ := contents_spec h package
  have hclasses : (cp.packageClasses files package).1 = classNames names := by
    show classNames ((cp.contents files package).1.toOption.getD []) = _
    rw [hnames]
    rfl
  have hnodup : names.Nodup := by
    refine hsorted.imp fun {a b} hlt heq => ?_
    exact String.lt_irrefl b (heq ▸ hlt)
  rw [hclasses]
  exact ⟨nodup_classNames hnodup, fun simple => by rw [mem_classNames, hmem]⟩

/-! ## Packages -/

/-- An index of a chain with those that it asks, after calls to whichever indexes of the chain. -/
def indexAfter (files : FileTree) (chain : List (List Entry)) (calls : List Call) (depth : Nat) :
    ClassPath :=
  ⟨(afterCalls files (ofChain chain) calls).indexes.take depth⟩

theorem indexAfter_spec {files : FileTree} {chain : List (List Entry)}
    (hlist : ∀ entries ∈ chain, ∀ entry ∈ entries, Entry.Listable files entry)
    (calls : List Call) (depth : Nat) :
    AllFaithful files (indexAfter files chain calls depth).indexes ∧
      (indexAfter files chain calls depth).indexes.map Index.entries = chain.take depth := by
  obtain ⟨hall, hentries⟩ := afterCalls_spec (allFaithful_ofChain hlist) calls
  refine ⟨fun index hindex => hall index (List.mem_of_mem_take hindex), ?_⟩
  rw [indexAfter, List.map_take, hentries, ofChain, List.map_map]
  exact congrArg _ (List.map_id chain)

/-- The package is the outer one or below it.  Each package is below the unnamed one. -/
def Within (inner outer : String) : Prop :=
  inner = outer ∨ outer = "" ∨ ∃ rest, inner = outer ++ "." ++ rest

/-- The directory of a package within another one lies within its directory. -/
theorem Within.segments_packageDirectory {inner outer : String} (h : Within inner outer) :
    ∃ rest, segments (packageDirectory inner) = segments (packageDirectory outer) ++ rest := by
  rcases h with rfl | rfl | ⟨rest, rfl⟩
  · exact ⟨[], (List.append_nil _).symm⟩
  · have hunnamed : segments (packageDirectory "") = [] := by decide
    exact ⟨segments (packageDirectory inner), by rw [hunnamed, List.nil_append]⟩
  · exact ⟨_, segments_packageDirectory_append outer rest⟩

/-- After any calls, to whichever indexes of the chain, each index answers the three questions alike: a
class is there if the listing of its package has it, and then that package and those around it are
there.  The listings have each name once. -/
theorem lookup_agrees_with_listing (files : FileTree) (chain : List (List Entry))
    (hlist : ∀ entries ∈ chain, ∀ entry ∈ entries, Entry.Listable files entry)
    (calls : List Call) (depth : Nat) (package : String) :
    let cp := indexAfter files chain calls depth
    (∀ simple, IsSimple simple → simple ∉ descriptions →
      ((cp.hasClass files (classIn package simple)).1 = true ↔
        simple ∈ (cp.packageClasses files package).1)) ∧
    (∃ names, (cp.contents files package).1 = .ok names ∧ names.Pairwise (· < ·)) ∧
    (cp.packageClasses files package).1.Nodup ∧
    ∀ inner simple, Within inner package → IsSimple simple →
      (cp.hasClass files (classIn inner simple)).1 = true →
        (cp.hasPackage files package).1 = true := by
  intro cp
  have hcp : AllFaithful files cp.indexes := (indexAfter_spec hlist calls depth).1
  obtain ⟨names, hnames, hsorted, -⟩ := contents_spec hcp package
  obtain ⟨hnodup, hclasses⟩ := packageClasses_spec hcp package
  refine ⟨?_, ⟨names, hnames, hsorted⟩, hnodup, ?_⟩
  · intro simple hsimple hclass
    rw [hasClass_iff hcp, segments_classFilePath hsimple, hclasses, and_iff_left hclass]
  · intro inner simple hinner hsimple hfound
    rw [hasClass_iff hcp, segments_classFilePath hsimple] at hfound
    obtain ⟨rest, hrest⟩ := hinner.segments_packageDirectory
    rw [hrest, List.append_assoc] at hfound
    exact hasPackageFirst_of_listed hcp (by simp) hfound

/-- A directory with one class, which is two packages deep. -/
def nestedPackages : FileTree :=
  { files := [(["a", "p", "q", "A.class"], .bytes [])]
    directories := [["a"], ["a", "p"], ["a", "p", "q"]] }

/-- The class is found by its name, so it is in the listing and the package around its own is there. -/
theorem nestedPackages_agree :
    (∀ entries ∈ [[Entry.directory "a"]], ∀ entry ∈ entries,
        Entry.Listable nestedPackages entry) ∧
      IsSimple "A" ∧ "A" ∉ descriptions ∧ Within "p.q" "p" ∧
      let cp := indexAfter nestedPackages [[.directory "a"]] [⟨1, .hasPackage "r"⟩] 1
      (cp.hasClass nestedPackages (classIn "p.q" "A")).1 = true ∧
        "A" ∈ (cp.packageClasses nestedPackages "p.q").1 ∧
        (cp.hasPackage nestedPackages "p").1 = true := by
  have hlist : ∀ entries ∈ [[Entry.directory "a"]], ∀ entry ∈ entries,
      Entry.Listable nestedPackages entry := by
    intro entries hentries entry hentry _
    obtain rfl := List.mem_singleton.mp hentries
    obtain rfl := List.mem_singleton.mp hentry
    exact ⟨["p/q/A.class"], by rfl⟩
  have hsimple : IsSimple "A" := ⟨by decide, by decide, by decide⟩
  have hclass : "A" ∉ descriptions := by decide
  have hwithin : Within "p.q" "p" := .inr (.inr ⟨"q", by decide⟩)
  refine ⟨hlist, hsimple, hclass, hwithin, ?_⟩
  intro cp
  have hfound : (cp.hasClass nestedPackages (classIn "p.q" "A")).1 = true := by decide +kernel
  obtain ⟨hlisted, -⟩ :=
    lookup_agrees_with_listing nestedPackages [[.directory "a"]] hlist [⟨1, .hasPackage "r"⟩] 1 "p.q"
  obtain ⟨-, -, -, haround⟩ :=
    lookup_agrees_with_listing nestedPackages [[.directory "a"]] hlist [⟨1, .hasPackage "r"⟩] 1 "p"
  exact ⟨hfound, (hlisted "A" hsimple hclass).mp hfound, haround "p.q" "A" hwithin hsimple hfound⟩

end JavaSema.ClassPath
