import JavaSema.ClassPath.Index
import JavaSema.Proofs.Text

/-!
# Paths of resources

A resource is known under three notions of its path: the text that is asked for, that text once it is
normalized, and its segments.  This module says how they hang together.

There are four groups.

* Segments.  Those of a path that is put together are those of its parts.
* Tidy paths, which are nothing but their segments.  Two of them with the same segments are the same.
* Normal paths.  `segments_normalize` says which segments a normal path has, and a path that is put
  together from segments is normal.  A normal path need not be tidy.
* Paths of classes.  The class file of a class lies in the directory of its package, and its path is
  tidy if no part of the name is empty.
-/

namespace JavaSema

namespace PathTrie

/-! ## Segments -/

theorem segments_ofList_append (before after : List Char) :
    segments (String.ofList (before ++ '/' :: after))
      = segments (String.ofList before) ++ segments (String.ofList after) := by
  simp [segments, Text.split, Text.splitChars_append]

theorem segments_append (before after : String) :
    segments (before ++ "/" ++ after) = segments before ++ segments after := by
  simp [segments, Text.split_slash_append]

theorem segments_empty : segments "" = [] := rfl

/-- The name can stand between slashes. -/
def IsSegment (name : String) : Prop := name ≠ "" ∧ '/' ∉ name.toList

theorem segments_of_isSegment {name : String} (h : IsSegment name) : segments name = [name] := by
  simp [segments, Text.split, Text.splitChars_of_notMem h.2, h.1]

theorem segments_ofList_dropWhile (path : List Char) :
    segments (String.ofList (path.dropWhile fun c => c == '/')) = segments (String.ofList path) := by
  induction path with
  | nil => rfl
  | cons c path ih =>
    by_cases hc : c = '/'
    · subst hc
      have hslash := segments_ofList_append [] path
      simpa [segments_empty, ih] using hslash.symm
    · simp [hc]

theorem segments_ofList_dropLastWhile (path : List Char) :
    segments (String.ofList (path.dropWhile fun c => c == '/').reverse)
      = segments (String.ofList path.reverse) := by
  induction path with
  | nil => rfl
  | cons c path ih =>
    by_cases hc : c = '/'
    · subst hc
      have hslash := segments_ofList_append path.reverse []
      simpa [segments_empty, ih] using hslash.symm
    · simp [hc]

theorem segments_join {names : List String} (h : ∀ name ∈ names, IsSegment name) :
    segments (Text.join "/" names) = names := by
  induction names with
  | nil => rfl
  | cons n names ih =>
    have hfirst := segments_of_isSegment (h n List.mem_cons_self)
    have hrest := ih fun m hm => h m (List.mem_cons_of_mem _ hm)
    cases names with
    | nil => exact hfirst
    | cons m names =>
      rw [Text.join_cons_cons, segments_append, hfirst, hrest]
      rfl

/-! ## Tidy paths -/

/-- The path is its segments, with a slash between neighbours. -/
def IsTidy (path : String) : Prop := Text.join "/" (segments path) = path

instance (path : String) : Decidable (IsTidy path) := decEq _ _

theorem IsTidy.eq {path path' : String} (h : IsTidy path) (h' : IsTidy path')
    (hsame : segments path = segments path') : path = path' := by
  rw [← h, ← h', hsame]

theorem isTidy_join {names : List String} (h : ∀ name ∈ names, IsSegment name) :
    IsTidy (Text.join "/" names) := by
  rw [IsTidy, segments_join h]

end PathTrie

namespace ClassPath

open PathTrie

/-! ## Normal paths -/

/-- Nothing is dropped from a text that does not start with a slash. -/
theorem dropWhile_slash_append {chars : List Char} (rest : List Char) (hne : chars ≠ [])
    (h : '/' ∉ chars) : (chars ++ rest).dropWhile (fun c => c == '/') = chars ++ rest := by
  obtain ⟨c, chars, rfl⟩ := List.exists_cons_of_ne_nil hne
  have hc : c ≠ '/' := fun hc => h (hc ▸ List.mem_cons_self)
  rw [List.cons_append, List.dropWhile_cons_of_neg (by simp [hc])]

/-- A path that is put together from segments stays as it is. -/
theorem normalize_join {names : List String} (h : ∀ name ∈ names, IsSegment name)
    (hbackslash : ∀ name ∈ names, '\\' ∉ name.toList) :
    normalize (Text.join "/" names) = Text.join "/" names := by
  have hchars : ∀ name, IsSegment name → name.toList ≠ [] := by
    intro name hname hnil
    exact hname.1 (String.toList_eq_nil_iff.mp hnil)
  rw [normalize, Text.replaceChar_of_notMem '/' (Text.notMem_join (by decide) hbackslash)]
  cases names with
  | nil => rfl
  | cons first names =>
    -- Neither end is a slash: the one belongs to the first segment, the other to the last one.
    have hstart : (Text.join "/" (first :: names)).toList.dropWhile (fun c => c == '/')
        = (Text.join "/" (first :: names)).toList := by
      obtain ⟨rest, hrest⟩ := Text.exists_toList_join_cons "/" first names
      have hfirst := h first List.mem_cons_self
      rw [hrest, dropWhile_slash_append rest (hchars first hfirst) hfirst.2]
    have hend : (Text.join "/" (first :: names)).toList.reverse.dropWhile (fun c => c == '/')
        = (Text.join "/" (first :: names)).toList.reverse := by
      have hne : first :: names ≠ [] := List.cons_ne_nil first names
      obtain ⟨start, hconcat⟩ := Text.exists_toList_join_concat "/" ((first :: names).getLast hne)
        (first :: names).dropLast
      rw [List.dropLast_concat_getLast hne] at hconcat
      have hlast := h _ (List.getLast_mem hne)
      rw [hconcat, List.reverse_append,
        dropWhile_slash_append start.reverse (by simpa using hchars _ hlast) (by simpa using hlast.2)]
    rw [hstart, hend, List.reverse_reverse, String.ofList_toList]

/-- Slashes at the ends of a path say nothing, and a backslash is a slash. -/
theorem segments_normalize (path : String) :
    segments (normalize path) = segments (Text.replaceChar '\\' '/' path) := by
  rw [normalize, segments_ofList_dropLastWhile, List.reverse_reverse, segments_ofList_dropWhile,
    String.ofList_toList]

/-! ## Paths of classes -/

/-- The binary name of a class in a package. -/
def classIn (package simple : String) : String :=
  if package.isEmpty then simple else package ++ "." ++ simple

/-- A name that is not put together from others. -/
structure IsSimple (name : String) : Prop where
  dot : '.' ∉ name.toList
  slash : '/' ∉ name.toList
  backslash : '\\' ∉ name.toList

theorem isSegment_classFile {simple : String} (h : IsSimple simple) :
    IsSegment (simple ++ ".class") := by
  constructor
  · intro hempty
    have hlength := congrArg String.length hempty
    simp at hlength
  · simp [h.slash]

/-- The directory of a package within another one lies within its directory. -/
theorem segments_packageDirectory_append (outer inner : String) :
    segments (packageDirectory (outer ++ "." ++ inner))
      = segments (packageDirectory outer) ++ segments (packageDirectory inner) := by
  have hslash : Text.replaceChar '\\' '/' (Text.replaceChar '.' '/' ".") = "/" := by decide
  simp only [packageDirectory, segments_normalize, Text.replaceChar_append, hslash, segments_append]

/-- The class file of a class lies in the directory of its package. -/
theorem segments_classFilePath {package simple : String} (h : IsSimple simple) :
    segments (normalize (BinaryName.classFilePath (classIn package simple)))
      = segments (packageDirectory package) ++ [simple ++ ".class"] := by
  have hsegment : segments (simple ++ ".class") = [simple ++ ".class"] :=
    segments_of_isSegment (isSegment_classFile h)
  have hbackslash : '\\' ∉ (simple ++ ".class").toList := by simp [h.backslash]
  have hsimple : Text.replaceChar '\\' '/' (simple ++ ".class") = simple ++ ".class" :=
    Text.replaceChar_of_notMem '/' hbackslash
  rw [segments_normalize, BinaryName.classFilePath, classIn]
  split
  · next hpackage =>
    rw [String.isEmpty_iff.mp hpackage, Text.replaceChar_of_notMem '/' h.dot, hsimple, hsegment]
    rfl
  · have hslash : Text.replaceChar '\\' '/' (Text.replaceChar '.' '/' ".") = "/" := by decide
    have hname : Text.replaceChar '.' '/' (package ++ "." ++ simple) ++ ".class"
        = Text.replaceChar '.' '/' package ++ Text.replaceChar '.' '/' "." ++ (simple ++ ".class") := by
      rw [Text.replaceChar_append, Text.replaceChar_append, Text.replaceChar_of_notMem '/' h.dot,
        String.append_assoc]
    rw [hname, Text.replaceChar_append, Text.replaceChar_append, hsimple, hslash, segments_append,
      hsegment, packageDirectory, segments_normalize]

theorem classFilePath_join {names : List String} {last : String}
    (h : ∀ name ∈ names ++ [last], IsSimple name) :
    BinaryName.classFilePath (Text.join "." (names ++ [last]))
      = Text.join "/" (names ++ [last ++ ".class"]) := by
  have hsame : (names ++ [last]).map (Text.replaceChar '.' '/') = names ++ [last] :=
    (List.map_congr_left fun name hname => Text.replaceChar_of_notMem '/' (h name hname).dot).trans
      (List.map_id _)
  have hslash : Text.replaceChar '.' '/' "." = "/" := by decide
  rw [BinaryName.classFilePath, Text.replaceChar_join, hslash, hsame, Text.join_concat_append]

/-- The path of a class file is normal and tidy if the name of the class has no empty parts. -/
theorem isTidy_classFilePath {names : List String} {last : String}
    (h : ∀ name ∈ names ++ [last], IsSimple name) (hne : ∀ name ∈ names, name ≠ "") :
    IsTidy (normalize (BinaryName.classFilePath (Text.join "." (names ++ [last])))) := by
  have hlast := h last (by simp)
  have hsegments : ∀ name ∈ names ++ [last ++ ".class"], IsSegment name := by
    intro name hname
    rcases List.mem_append.mp hname with hname | hname
    · exact ⟨hne name hname, (h name (List.mem_append_left _ hname)).slash⟩
    · obtain rfl := List.mem_singleton.mp hname
      exact isSegment_classFile hlast
  have hbackslash : ∀ name ∈ names ++ [last ++ ".class"], '\\' ∉ name.toList := by
    intro name hname
    rcases List.mem_append.mp hname with hname | hname
    · exact (h name (List.mem_append_left _ hname)).backslash
    · obtain rfl := List.mem_singleton.mp hname
      simp [hlast.backslash]
  rw [classFilePath_join h, normalize_join hsegments hbackslash]
  exact isTidy_join hsegments

end ClassPath

end JavaSema
