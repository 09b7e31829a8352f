import JavaSema.Proofs.ClassPath.Listing
import JavaSema.Proofs.Files.Tree

/-!
# Reading what a class path finds

A resource is looked for by its segments, and reported and read under its normal path.  An entry reads
the paths that it lists, and no others.  So a resource that was found can be read if its owner lists it
under the normal path itself.  That is the case if both paths are tidy, and need not be otherwise.

There are two groups.

* Reading.  `Entry.ReadsListed` says that an entry reads what it lists, which directories do
  (`Entry.readsListed_directory`), and `Entry.ReadsItsList` that it reads nothing else, which archives
  of files do (`Entry.readsItsList_archive`).
* The result.  `reads_found_iff` says which resources that were found can be read, and
  `slashedArchive_unread` that there are others.
-/

namespace JavaSema

/-! ## Reading -/

/-- If each member can be unpacked, those names can be read that some member has. -/
theorem ArchiveMember.read_eq_ok_iff {members : List ArchiveMember}
    (h : ∀ m ∈ members, ∃ data, m.content = .ok data) (name : String) :
    (∃ data, read members name = .ok data) ↔ name ∈ members.map ArchiveMember.name := by
  rw [read]
  cases hfound : members.reverse.find? fun m => m.name == name with
  | none =>
    rw [List.find?_eq_none] at hfound
    simp only [reduceCtorEq, exists_const, false_iff, List.mem_map, not_exists, not_and]
    intro m hm hname
    exact hfound m (List.mem_reverse.mpr hm) (by simp [hname])
  | some m =>
    have hm : m ∈ members := List.mem_reverse.mp (List.mem_of_find?_eq_some hfound)
    have hname : m.name = name := by simpa using List.find?_some hfound
    exact iff_of_true (h m hm) (List.mem_map.mpr ⟨m, hm, hname⟩)

namespace ClassPath

open PathTrie

namespace Entry

/-- The entry reads the paths that it lists.  It may read others: a directory has files in it under paths
with doubled separators as well. -/
def ReadsListed (files : FileTree) (entry : Entry) : Prop :=
  ∀ path ∈ entry.resources files, ∃ data, entry.read files path = .ok data

/-- The entry reads the paths that it lists and no others. -/
def ReadsItsList (files : FileTree) (entry : Entry) : Prop :=
  ∀ path, (∃ data, entry.read files path = .ok data) ↔ path ∈ entry.resources files

/-- All paths that the entry lists are tidy. -/
def ListsTidy (files : FileTree) (entry : Entry) : Prop :=
  ∀ path ∈ entry.resources files, IsTidy path

theorem resources_directory {files : FileTree} {base : String} {dir : List String}
    (hbase : files.find base = .ok (.directory dir)) :
    (Entry.directory base).resources files = (files.filesBelow dir).map (Text.join "/") := by
  have hexists : files.contains (Entry.directory base).path = true := by
    rw [Entry.path, FileTree.contains, hbase]
    rfl
  rw [resources, if_pos hexists, Entry.list, hbase]
  rfl

/-- A directory reads what it lists, under tidy paths, if its files are reached by names. -/
theorem readsListed_directory {files : FileTree} {base : String} {dir : List String}
    (hbase : files.find base = .ok (.directory dir))
    (hreaches : ∀ rest ∈ files.filesBelow dir, files.Reaches dir rest) :
    (Entry.directory base).ReadsListed files ∧ (Entry.directory base).ListsTidy files := by
  constructor
  all_goals
    intro path hpath
    rw [resources_directory hbase] at hpath
    obtain ⟨rest, hmem, rfl⟩ := List.mem_map.mp hpath
  · obtain ⟨content, hread⟩ := FileTree.exists_read_of_reaches hbase hmem (hreaches rest hmem)
    refine ⟨content.data, ?_⟩
    delta Entry.read
    simp only [hread]
  · exact isTidy_join fun name hname => ((hreaches rest hmem).names name hname).1

/-- An archive lists its members if they are files. -/
theorem resources_archive {files : FileTree} {path : String} {members : List ArchiveMember}
    (hexists : files.contains path = true) (hmembers : Entry.members files path = .ok members)
    (hfiles : ∀ m ∈ members, m.isDirectory = false) :
    (Entry.archive path).resources files = members.map ArchiveMember.name := by
  have hall : members.filter (fun m => !m.isDirectory) = members :=
    List.filter_eq_self.mpr fun m hm => by simp [hfiles m hm]
  have hlist : (Entry.archive path).list files = .ok (members.map ArchiveMember.name) := by
    rw [Entry.list, hmembers]
    exact congrArg (fun ms => Except.ok (ms.map ArchiveMember.name)) hall
  have hif : (Entry.archive path).resources files
      = ((Entry.archive path).list files).toOption.getD [] := if_pos hexists
  rw [hif, hlist]
  rfl

/-- An archive of files that can be unpacked reads what it lists. -/
theorem readsItsList_archive {files : FileTree} {path : String} {members : List ArchiveMember}
    (hexists : files.contains path = true) (hmembers : Entry.members files path = .ok members)
    (hfiles : ∀ m ∈ members, m.isDirectory = false ∧ ∃ data, m.content = .ok data) :
    (Entry.archive path).ReadsItsList files := by
  intro name
  have hread : (Entry.archive path).read files name
      = (ArchiveMember.read members name).mapError (.badArchive path) := by
    delta Entry.read
    simp only [hmembers]
  rw [resources_archive hexists hmembers fun m hm => (hfiles m hm).1, hread,
    ← ArchiveMember.read_eq_ok_iff (fun m hm => (hfiles m hm).2) name]
  cases ArchiveMember.read members name with
  | ok data => simp [mapError_ok]
  | error fault => simp [mapError_error]

end Entry

/-! ## The result -/

/-- A resource is found under its normal path, at an entry of the chain that lists its segments. -/
theorem find_eq_some {files : FileTree} {cp : ClassPath} (h : AllFaithful files cp.indexes)
    {path : String} {location : ResourceLocation}
    (hfound : (cp.find files path).1 = .ok (some location)) :
    location.path = normalize path ∧
      (∃ entries ∈ cp.indexes.map Index.entries, location.entry ∈ entries) ∧
      ∃ listed ∈ location.entry.resources files, segments listed = segments location.path := by
  obtain ⟨after, hafter, -⟩ := findFirst_spec h path
  rw [ClassPath.find, hafter] at hfound
  obtain ⟨entries, hentries, hlocation⟩ := List.exists_of_findSome?_eq_some (Except.ok.inj hfound)
  obtain ⟨entry, hentry, rfl⟩ := Option.map_eq_some_iff.mp hlocation
  refine ⟨rfl, ⟨entries, hentries, List.mem_of_find?_eq_some hentry⟩, ?_⟩
  have hlists := List.find?_some hentry
  simpa [Index.answers, Entry.lists] using hlists

theorem read_of_find {files : FileTree} {cp : ClassPath} {path : String}
    {location : ResourceLocation} (hfound : (cp.find files path).1 = .ok (some location)) :
    (cp.read files path).1 = (readResource files location).map some := by
  rw [ClassPath.read]
  generalize cp.find files path = found at hfound ⊢
  obtain ⟨answer, next⟩ := found
  obtain rfl : answer = .ok (some location) := hfound
  rfl

/-- A tidy path is listed under the segments of some path only if it is that path. -/
theorem mem_resources_iff_isTidy {files : FileTree} {entry : Entry} (h : entry.ListsTidy files)
    {path : String} (hlisted : ∃ listed ∈ entry.resources files, segments listed = segments path) :
    path ∈ entry.resources files ↔ IsTidy path := by
  constructor
  · exact h path
  · intro htidy
    obtain ⟨listed, hmem, hsame⟩ := hlisted
    rwa [← (h listed hmem).eq htidy hsame]

/-- After any calls, to whichever indexes of the chain, a resource that is found is reported under its
normal path, and can be read if its owner lists that very path.  An owner that lists tidy paths does so
if the path is tidy.  So a class can be read that is found under a name without empty parts, if all
entries read what they list and list tidy paths. -/
theorem reads_found_iff (files : FileTree) (chain : List (List Entry))
    (hlist : ∀ entries ∈ chain, ∀ entry ∈ entries, Entry.Listable files entry)
    (calls : List Call) (depth : Nat) :
    let cp := indexAfter files chain calls depth
    (∀ path location, (cp.find files path).1 = .ok (some location) →
      location.path = normalize path ∧
      (location.entry.ReadsListed files → location.path ∈ location.entry.resources files →
        ∃ data, (cp.read files path).1 = .ok (some data)) ∧
      (location.entry.ReadsItsList files →
        ((∃ data, (cp.read files path).1 = .ok (some data)) ↔
          location.path ∈ location.entry.resources files)) ∧
      (location.entry.ListsTidy files →
        (location.path ∈ location.entry.resources files ↔ IsTidy location.path))) ∧
    ((∀ entries ∈ chain, ∀ entry ∈ entries,
        entry.ReadsListed files ∧ entry.ListsTidy files) →
      ∀ names last, (∀ name ∈ names ++ [last], IsSimple name) → (∀ name ∈ names, name ≠ "") →
        (cp.hasClass files (Text.join "." (names ++ [last]))).1 = true →
          ∃ data, (cp.readClass files (Text.join "." (names ++ [last]))).1 = .ok (some data)) := by
  intro cp
  obtain ⟨hcp, hentries⟩ := indexAfter_spec hlist calls depth
  -- the class path reads what the owner reads under the reported path
  have hreads : ∀ {path location}, (cp.find files path).1 = .ok (some location) →
      ((∃ data, (cp.read files path).1 = .ok (some data)) ↔
        ∃ data, location.entry.read files location.path = .ok data) := by
    intro path location hfound
    rw [read_of_find hfound, readResource]
    cases location.entry.read files location.path <;> simp [Except.map]
  refine ⟨fun path location hfound => ?_, fun hchain names last hsimple hne hclass => ?_⟩
  · obtain ⟨hpath, -, hlisted⟩ := find_eq_some hcp hfound
    exact ⟨hpath, fun hread hmem => (hreads hfound).mpr (hread _ hmem),
      fun hexact => (hreads hfound).trans (hexact _),
      fun htidy => mem_resources_iff_isTidy htidy hlisted⟩
  · obtain ⟨location, hfound⟩ := hasClass_iff_find.mp hclass
    obtain ⟨hpath, ⟨entries, hmem, hentry⟩, hlisted⟩ := find_eq_some hcp hfound
    have hinChain : entries ∈ chain := List.mem_of_mem_take (hentries ▸ hmem)
    obtain ⟨hread, htidy⟩ := hchain entries hinChain location.entry hentry
    refine (hreads hfound).mpr (hread _ ((mem_resources_iff_isTidy htidy hlisted).mpr ?_))
    rw [hpath]
    exact isTidy_classFilePath hsimple hne

/-- A directory with one class. -/
def oneClass : FileTree :=
  { files := [(["a", "p", "A.class"], .bytes [1])]
    directories := [["a"], ["a", "p"]] }

/-- The class is found under its name and can be read, also after a package was asked for. -/
theorem oneClass_read :
    (∀ entries ∈ [[Entry.directory "a"]], ∀ entry ∈ entries, Entry.Listable oneClass entry) ∧
      (∀ entries ∈ [[Entry.directory "a"]], ∀ entry ∈ entries,
        entry.ReadsListed oneClass ∧ entry.ListsTidy oneClass) ∧
      let cp := indexAfter oneClass [[.directory "a"]] [⟨1, .hasPackage "q"⟩] 1
      (cp.hasClass oneClass "p.A").1 = true ∧
        ∃ data, (cp.readClass oneClass "p.A").1 = .ok (some data) := by
  have hlist : ∀ entries ∈ [[Entry.directory "a"]], ∀ entry ∈ entries,
      Entry.Listable oneClass entry := by
    intro entries hentries entry hentry _
    obtain rfl := List.mem_singleton.mp hentries
    obtain rfl := List.mem_singleton.mp hentry
    exact ⟨["p/A.class"], by rfl⟩
  have hchain : ∀ entries ∈ [[Entry.directory "a"]], ∀ entry ∈ entries,
      entry.ReadsListed oneClass ∧ entry.ListsTidy oneClass := by
    intro entries hentries entry hentry
    obtain rfl := List.mem_singleton.mp hentries
    obtain rfl := List.mem_singleton.mp hentry
    have hfind : oneClass.find "a" = .ok (.directory ["a"]) := by rfl
    refine Entry.readsListed_directory hfind fun rest hrest => ?_
    obtain rfl : rest = ["p", "A.class"] := List.mem_singleton.mp hrest
    refine ⟨fun name hname => ?_, by decide, by decide⟩
    rcases List.mem_cons.mp hname with rfl | hname
    · exact ⟨⟨by decide, by decide⟩, by decide, by decide⟩
    · obtain rfl := List.mem_singleton.mp hname
      exact ⟨⟨by decide, by decide⟩, by decide, by decide⟩
  refine ⟨hlist, hchain, ?_⟩
  intro cp
  have hclass : (cp.hasClass oneClass "p.A").1 = true := by decide +kernel
  obtain ⟨-, hreads⟩ :=
    reads_found_iff oneClass [[.directory "a"]] hlist [⟨1, .hasPackage "q"⟩] 1
  have hsimple : ∀ name ∈ ["p"] ++ ["A"], IsSimple name := by
    intro name hname
    rcases List.mem_cons.mp hname with rfl | hname
    · exact ⟨by decide, by decide, by decide⟩
    · obtain rfl := List.mem_singleton.mp hname
      exact ⟨by decide, by decide, by decide⟩
  exact ⟨hclass, hreads hchain ["p"] "A" hsimple (by decide) hclass⟩

/-- An archive whose one member has a slash at the start of its name. -/
def slashedArchive : FileTree :=
  { files := [(["a.jar"], .archive [{ name := "/p/A.class", packing := .stored, packed := [] }])] }

/-- A resource that is found need not be listed under the path that is reported: an archive may list
paths that are not tidy. -/
theorem slashedArchive_unread :
    ¬ ∀ (files : FileTree) (chain : List (List Entry)),
      (∀ entries ∈ chain, ∀ entry ∈ entries,
        Entry.Listable files entry ∧ entry.ReadsItsList files) →
      ∀ path location, ((ofChain chain).find files path).1 = .ok (some location) →
        location.path ∈ location.entry.resources files ∧
          ∃ data, readResource files location = .ok data := by
  intro hread
  have hchain : ∀ entries ∈ [[Entry.archive "a.jar"]], ∀ entry ∈ entries,
      Entry.Listable slashedArchive entry ∧ entry.ReadsItsList slashedArchive := by
    intro entries hentries entry hentry
    obtain rfl := List.mem_singleton.mp hentries
    obtain rfl := List.mem_singleton.mp hentry
    refine ⟨fun _ => ⟨["/p/A.class"], by rfl⟩,
      Entry.readsItsList_archive (by decide +kernel) (by rfl) fun m hm => ?_⟩
    obtain rfl := List.mem_singleton.mp hm
    exact ⟨by decide, [], rfl⟩
  have hfound : ((ofChain [[.archive "a.jar"]]).find slashedArchive "p/A.class").1
      = .ok (some { entry := .archive "a.jar", path := "p/A.class" }) := by decide +kernel
  have hresources : (Entry.archive "a.jar").resources slashedArchive = ["/p/A.class"] := by
    decide +kernel
  obtain ⟨hlisted, -⟩ := hread slashedArchive [[.archive "a.jar"]] hchain "p/A.class" _ hfound
  rw [hresources] at hlisted
  exact absurd hlisted (by decide)

end ClassPath

end JavaSema
