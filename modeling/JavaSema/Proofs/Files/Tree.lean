import JavaSema.Files.Path
import JavaSema.Proofs.ClassPath.Paths

/-!
# Files below a directory

A file is listed below a directory under the segments that lead to it from there.  Put together with
slashes and joined to the path of the directory, they lead to the file again, if they are names and only
directories are on the way.

There are two groups.

* Paths.  `foldlM_enter_join` follows a path that goes on below a directory, and `foldlM_enter` follows
  names.
* Files.  `Reaches` says that names lead to a file below a directory, and `exists_read_of_reaches` that
  it can be read.
-/

namespace JavaSema.FileTree

open PathTrie

variable {files : FileTree} {dir rest : List String}

/-! ## Paths -/

/-- The segment is the name of something in a directory. -/
def IsName (segment : String) : Prop := IsSegment segment ∧ segment ≠ "." ∧ segment ≠ ".."

theorem step_of_isName (place : List String) {name : String} (h : IsName name) :
    step place name = place ++ [name] := by
  simp [step, h.1.1, h.2.1, h.2.2]

/-- Names lead downwards, as long as there are directories to enter. -/
theorem foldlM_enter (hnames : ∀ name ∈ rest, IsName name)
    (hway : ∀ n < rest.length, files.isDirectory (dir ++ rest.take n) = true) :
    rest.foldlM files.enter dir = .ok (dir ++ rest) := by
  induction rest generalizing dir with
  | nil => simp [pure, Except.pure]
  | cons name rest ih =>
    have hdir : files.isDirectory dir = true := by simpa using hway 0 (Nat.succ_pos _)
    have hrest : rest.foldlM files.enter (dir ++ [name]) = .ok (dir ++ [name] ++ rest) :=
      ih (fun m hm => hnames m (List.mem_cons_of_mem _ hm)) fun n hn => by
        simpa using hway (n + 1) (Nat.succ_lt_succ hn)
    rw [List.foldlM_cons, enter, if_pos hdir, step_of_isName dir (hnames name List.mem_cons_self)]
    simpa [bind, Except.bind] using hrest

theorem find_eq_directory {path : String} (h : files.find path = .ok (.directory dir)) :
    path ≠ "" ∧ (Text.split '/' path).foldlM files.enter (origin path) = .ok dir ∧
      files.isDirectory dir = true := by
  rw [find] at h
  split at h
  · cases h
  rename_i hne
  obtain ⟨place, hwalk, hplace⟩ := Text.ok_of_bind h
  split at hplace
  · rename_i hdir
    cases hplace
    exact ⟨by simpa using hne, hwalk, hdir⟩
  · split at hplace <;> cases hplace

theorem find_of_file {path : String} {place : List String} {content : FileContent} (hne : path ≠ "")
    (hwalk : (Text.split '/' path).foldlM files.enter (origin path) = .ok place)
    (hdir : files.isDirectory place = false) (hfile : files.file? place = some content) :
    files.find path = .ok (.file content) := by
  rw [find, if_neg (by simpa using hne)]
  show (_ >>= _) = _
  rw [Text.bind_of_ok hwalk, hdir, hfile]
  rfl

/-- A path that goes on below a directory is followed from there. -/
theorem foldlM_enter_join {base child : String} (hbase : files.find base = .ok (.directory dir))
    (hchild : Path.isAbsolute child = false) :
    (Text.split '/' (Path.join base child)).foldlM files.enter (origin (Path.join base child))
      = (Text.split '/' child).foldlM files.enter dir := by
  obtain ⟨hne, hwalk, -⟩ := find_eq_directory hbase
  have horigin : ∀ t, origin (base ++ t) = origin base := fun t => by
    rw [origin, origin, Text.startsWith_slash_append hne]
  rw [Path.join, hchild, Bool.false_or, if_neg (by simpa using hne)]
  split
  · rename_i hslash
    obtain ⟨front, hfront⟩ := Option.isSome_iff_exists.mp hslash
    obtain rfl := Text.stripEnd?_eq_some.mp hfront
    -- The piece behind the last slash is empty and leads nowhere.
    have hends : Text.split '/' (front ++ "/") = Text.split '/' front ++ [""] := by
      simpa [Text.split] using Text.split_slash_append front ""
    rw [hends, List.foldlM_append] at hwalk
    obtain ⟨place, hplace, hlast⟩ := Text.ok_of_bind hwalk
    have hstays : place = dir := by
      simp only [List.foldlM_cons, List.foldlM_nil, enter] at hlast
      split at hlast
      · simpa [step, bind, Except.bind, pure, Except.pure] using hlast
      · split at hlast <;> cases hlast
    rw [horigin, Text.split_slash_append, List.foldlM_append, Text.bind_of_ok hplace, hstays]
  · rw [String.append_assoc, horigin, ← String.append_assoc, Text.split_slash_append,
      List.foldlM_append, Text.bind_of_ok hwalk]

/-! ## Files -/

/-- The names lead from the directory to a file, by directories only. -/
structure Reaches (files : FileTree) (dir rest : List String) : Prop where
  names : ∀ name ∈ rest, IsName name
  way : ∀ n < rest.length, files.isDirectory (dir ++ rest.take n) = true
  isFile : files.isDirectory (dir ++ rest) = false

theorem below?_eq_some {segments : List String} (h : below? dir segments = some rest) :
    segments = dir ++ rest := by
  fun_induction below? dir segments with
  | case1 segments hup => cases h
  | case2 segments hdown => exact Option.some.inj h
  | case3 d ds => cases h
  | case4 d ds s segments hsame ih =>
    obtain rfl := beq_iff_eq.mp hsame
    rw [ih h]
    rfl
  | case5 d ds s segments hother => cases h

theorem file?_isSome_of_mem_filesBelow (h : rest ∈ files.filesBelow dir) :
    (files.file? (dir ++ rest)).isSome = true := by
  obtain ⟨f, hf, hbelow⟩ := List.mem_filterMap.mp h
  rw [file?, Option.isSome_map, List.find?_isSome]
  exact ⟨f, hf, by simp [below?_eq_some hbelow]⟩

/-- A file that is listed below a directory and reached by names can be read from there. -/
theorem exists_read_of_reaches {base : String} (hbase : files.find base = .ok (.directory dir))
    (hmem : rest ∈ files.filesBelow dir) (hreaches : files.Reaches dir rest) :
    ∃ content, files.read (Path.join base (Text.join "/" rest)) = .ok content := by
  obtain ⟨content, hfile⟩ := Option.isSome_iff_exists.mp (file?_isSome_of_mem_filesBelow hmem)
  have hne : rest ≠ [] := by
    rintro rfl
    have hdir := (find_eq_directory hbase).2.2
    rw [← List.append_nil dir, hreaches.isFile] at hdir
    cases hdir
  have hrelative : Path.isAbsolute (Text.join "/" rest) = false := by
    obtain ⟨first, names, rfl⟩ := List.exists_cons_of_ne_nil hne
    obtain ⟨⟨hfirst, hslash⟩, -⟩ := hreaches.names first List.mem_cons_self
    obtain ⟨behind, hchars⟩ := Text.exists_toList_join_cons "/" first names
    have hjoin : Text.join "/" (first :: names) = first ++ String.ofList behind :=
      String.toList_injective (by simp [hchars])
    rw [hjoin, Path.isAbsolute, Text.startsWith_slash_append hfirst,
      Text.startsWith_slash_of_notMem hslash]
  have hwalk := foldlM_enter_join hbase hrelative
  rw [Text.split_slash_join hne fun name hname => (hreaches.names name hname).1.2,
    foldlM_enter hreaches.names hreaches.way] at hwalk
  have hpath : Path.join base (Text.join "/" rest) ≠ "" := fun hempty => by
    rw [hempty] at hwalk
    have hroot : ([] : List String) = dir ++ rest := Except.ok.inj hwalk
    exact hne (List.append_eq_nil_iff.mp hroot.symm).2
  exact ⟨content, by rw [read, find_of_file hpath hwalk hreaches.isFile hfile]⟩

end JavaSema.FileTree
