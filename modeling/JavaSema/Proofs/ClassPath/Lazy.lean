import JavaSema.ClassPath.Index
import JavaSema.Proofs.ClassPath.Trie
import Mathlib.Data.List.Forall2

/-!
# A class path answers as if all entries were known

An index scans its entries one at a time and only as far as a question needs, so what it knows depends
on what was asked before.  Its answers do not: they are those of the entries themselves.

There are five groups.

* Entries.  `resources` is what a scan of an entry finds, and `lists` whether a resource is among it.
* What a scan knows.  `trieOf` is the trie after so many entries, and `ownerAt_trieOf` reads it as the
  first of these entries that lists a resource.
* Scans.  `Faithful` says that an index knows what its scanned entries list, and has listed each of them
  once.  Scans keep it, and stop at the first entry at which they may.
* Calls.  A `Call` is a question to one index of a chain, which asks those before it as well.  After
  any calls all indexes are faithful.
* Files.  An entry that was scanned is not looked at again: what became of it does not matter.

## Implementation notes

Nothing is assumed of how directories and archives are listed, except that what exists can be listed.
-/

namespace JavaSema.ClassPath

/-! ## Entries -/

namespace Entry

/-- The paths that a scan of the entry finds.  An entry that does not exist has none. -/
def resources (files : FileTree) (entry : Entry) : List String :=
  if files.contains entry.path then (entry.list files).toOption.getD [] else []

/-- Whether the entry lists a file with the segments. -/
def lists (files : FileTree) (segments : List String) (entry : Entry) : Bool :=
  ((entry.resources files).map PathTrie.segments).contains segments

/-- If the entry exists, it can be listed. -/
def Listable (files : FileTree) (entry : Entry) : Prop :=
  files.contains entry.path = true → ∃ paths, entry.list files = .ok paths

end Entry

/-! ## What a scan knows -/

namespace Index

/-- The trie after so many of the entries were scanned. -/
def trieOf (files : FileTree) (entries : List Entry) : Nat → PathTrie
  | 0 => {}
  | n + 1 =>
    match entries[n]? with
    | some entry => (trieOf files entries n).insertAll (entry.resources files) n
    | none => trieOf files entries n

theorem ascending_trieOf (files : FileTree) (entries : List Entry) (n : Nat) :
    (trieOf files entries n).Ascending := by
  induction n with
  | zero => exact PathTrie.ascending_empty
  | succ n ih =>
    simp only [trieOf]
    split
    · exact ih.insertAll _ n
    · exact ih

/-- A resource is owned by the first scanned entry that lists it. -/
theorem ownerAt_trieOf (files : FileTree) (entries : List Entry) (n : Nat) (q : List String) :
    (trieOf files entries n).ownerAt q = (entries.take n).findIdx? (Entry.lists files q) := by
  induction n with
  | zero => exact PathTrie.ownerAt_empty q
  | succ n ih =>
    simp only [trieOf, List.take_add_one, List.findIdx?_append]
    cases hentry : entries[n]? with
    | none => simp [ih]
    | some entry =>
      have hlength : (entries.take n).length = n := by
        have hlt := (List.getElem?_eq_some_iff.mp hentry).1
        simp; omega
      have hone : [entry].findIdx? (Entry.lists files q)
          = if q ∈ (entry.resources files).map PathTrie.segments then some 0 else none := by
        simp [List.findIdx?_cons, Entry.lists]
      simp only [PathTrie.ownerAt_insertAll (ascending_trieOf files entries n), ih,
        Option.toList_some, hone, hlength]
      split <;> simp

/-- A resource is known if the first entry of all that lists it was scanned, and is owned by that
entry. -/
theorem ownerAt_trieOf_eq_some {files : FileTree} {entries : List Entry} {n i : Nat}
    {q : List String} :
    (trieOf files entries n).ownerAt q = some i ↔
      entries.findIdx? (Entry.lists files q) = some i ∧ i < n := by
  rw [ownerAt_trieOf, List.findIdx?_take]
  cases entries.findIdx? (Entry.lists files q) with
  | none => simp
  | some j =>
    by_cases hj : j < n
    · simp [Option.guard, hj]
      omega
    · simp [Option.guard, hj]
      omega

/-! ## Scans -/

/-- Whether there is an entry at the position, and it exists. -/
def existsAt (files : FileTree) (entries : List Entry) (position : Nat) : Bool :=
  entries[position]?.any fun entry => files.contains entry.path

/-- The index knows what the entries that it has scanned list, and all its entries can be listed. -/
structure Faithful (files : FileTree) (index : Index) : Prop where
  /-- Entries that exist can be listed. -/
  listable : ∀ entry ∈ index.entries, entry.Listable files
  /-- No more entries were scanned than there are. -/
  bound : index.scanned ≤ index.entries.length
  /-- The trie is that of the scanned entries. -/
  known : index.trie = trieOf files index.entries index.scanned
  /-- The scanned entries that exist were listed, each once and in order. -/
  listings : index.listings = (List.range index.scanned).filter (existsAt files index.entries)

theorem faithful_unscanned {files : FileTree} {entries : List Entry}
    (h : ∀ entry ∈ entries, entry.Listable files) : Faithful files { entries } :=
  ⟨h, Nat.zero_le _, rfl, rfl⟩

/-- No entry was listed twice. -/
theorem Faithful.nodup_listings {files : FileTree} {index : Index} (h : index.Faithful files) :
    index.listings.Nodup := by
  rw [h.listings]
  exact List.nodup_range.filter _

theorem Faithful.mem_listings_iff {files : FileTree} {index : Index} (h : index.Faithful files)
    {i : Nat} : i ∈ index.listings ↔ i < index.scanned ∧
      ∃ entry, index.entries[i]? = some entry ∧ files.contains entry.path = true := by
  rw [h.listings, List.mem_filter, List.mem_range, existsAt, Option.any_eq_true]

/-- A scan of the next entry succeeds and adds what the entry lists. -/
theorem Faithful.scanNext {files : FileTree} {index : Index} (h : index.Faithful files)
    (hlt : index.scanned < index.entries.length) :
    ∃ next, index.scanNext files = (.ok true, next) ∧ next.Faithful files ∧
      next.entries = index.entries ∧ next.scanned = index.scanned + 1 := by
  obtain ⟨entry, hentry⟩ : ∃ entry, index.entries[index.scanned]? = some entry :=
    ⟨_, List.getElem?_eq_getElem hlt⟩
  have hmem : entry ∈ index.entries := List.mem_of_getElem? hentry
  have hexistsAt : existsAt files index.entries index.scanned = files.contains entry.path := by
    simp [existsAt, hentry]
  have hfaithful : ∀ trie listings,
      trie = index.trie.insertAll (entry.resources files) index.scanned →
      listings = index.listings ++ (if files.contains entry.path then [index.scanned] else []) →
        Faithful files { index with scanned := index.scanned + 1, trie, listings } := by
    intro trie listings htrie hlistings
    refine ⟨h.listable, hlt, ?_, ?_⟩
    · simp only [htrie, trieOf, hentry, h.known]
    · simp only [hlistings, h.listings, List.range_succ, List.filter_append, List.filter_cons,
        List.filter_nil, hexistsAt]
  by_cases hexists : files.contains entry.path = true
  · obtain ⟨paths, hpaths⟩ := h.listable entry hmem hexists
    have hresources : entry.resources files = paths := by
      simp [Entry.resources, hexists, hpaths, Except.toOption]
    have hnext : index.scanNext files = (.ok true, { index with
        scanned := index.scanned + 1
        listings := index.listings ++ [index.scanned]
        trie := index.trie.insertAll paths index.scanned }) := by
      simp [Index.scanNext, listEntry, hentry, hexists, hpaths]
    exact ⟨_, hnext, hfaithful _ _ (by rw [hresources]) (by rw [if_pos hexists]), rfl, rfl⟩
  · have hresources : entry.resources files = [] := by simp [Entry.resources, hexists]
    have hnext : index.scanNext files = (.ok true, { index with scanned := index.scanned + 1 }) := by
      simp [Index.scanNext, hentry, hexists]
    exact ⟨_, hnext, hfaithful _ _ (by rw [hresources]; rfl)
      (by rw [if_neg hexists, List.append_nil]), rfl, rfl⟩

/-- The end of a scan that stops as soon as `done` holds of what is known. -/
structure StopsAt (files : FileTree) (done : PathTrie → Bool) (index last : Index) : Prop where
  faithful : last.Faithful files
  entries : last.entries = index.entries
  le : index.scanned ≤ last.scanned
  /-- The scan may stop here. -/
  stops : done last.trie = true ∨ last.scanned = last.entries.length
  /-- It may not stop before. -/
  goesOn : ∀ n, index.scanned ≤ n → n < last.scanned →
    done (trieOf files index.entries n) = false

theorem StopsAt.of_next {files : FileTree} {done : PathTrie → Bool} {index next last : Index}
    (h : index.Faithful files) (hdone : done index.trie = false)
    (hentries : next.entries = index.entries) (hscanned : next.scanned = index.scanned + 1)
    (hlast : StopsAt files done next last) : StopsAt files done index last := by
  refine ⟨hlast.faithful, hlast.entries.trans hentries, ?_, hlast.stops, ?_⟩
  · have hle := hlast.le
    omega
  · intro n hle hlt
    by_cases hn : n = index.scanned
    · rw [hn, ← h.known]
      exact hdone
    · rw [← hentries]
      exact hlast.goesOn n (by omega) hlt

theorem Faithful.scanUntil {files : FileTree} {index : Index} (h : index.Faithful files)
    (done : PathTrie → Bool) :
    ∃ last, index.scanUntil files done = (.ok (), last) ∧ StopsAt files done index last := by
  -- On the number of entries that are left.
  induction hleft : index.entries.length - index.scanned generalizing index with
  | zero =>
    have hbound := h.bound
    have hend : index.scanned = index.entries.length := by omega
    have hnext : index.scanNext files = (.ok false, index) := by
      simp [Index.scanNext, hend]
    refine ⟨index, ?_, h, rfl, Nat.le_refl _, .inr hend, fun n hle hlt => by omega⟩
    rw [Index.scanUntil]
    split
    · rfl
    · split <;> simp_all
  | succ left ih =>
    by_cases hdone : done index.trie = true
    · refine ⟨index, ?_, h, rfl, Nat.le_refl _, .inl hdone, fun n hle hlt => by omega⟩
      rw [Index.scanUntil, if_pos hdone]
    · obtain ⟨next, hnext, hfaithful, hentries, hscanned⟩ := h.scanNext (by omega)
      obtain ⟨last, hlast, hstops⟩ := ih hfaithful (by rw [hentries, hscanned]; omega)
      refine ⟨last, ?_, hstops.of_next h (by simpa using hdone) hentries hscanned⟩
      rw [Index.scanUntil, if_neg hdone]
      split <;> simp_all

theorem Faithful.scanPast {files : FileTree} {index : Index} (h : index.Faithful files)
    (done : PathTrie → Bool) : StopsAt files done index (index.scanPast files done) := by
  induction hleft : index.entries.length - index.scanned generalizing index with
  | zero =>
    have hbound := h.bound
    have hend : index.scanned = index.entries.length := by omega
    have hnext : index.scanNext files = (.ok false, index) := by
      simp [Index.scanNext, hend]
    have hsame : index.scanPast files done = index := by
      rw [Index.scanPast]
      split
      · rfl
      · split <;> simp_all
    rw [hsame]
    exact ⟨h, rfl, Nat.le_refl _, .inr hend, fun n hle hlt => by omega⟩
  | succ left ih =>
    by_cases hdone : done index.trie = true
    · rw [Index.scanPast, if_pos hdone]
      exact ⟨h, rfl, Nat.le_refl _, .inl hdone, fun n hle hlt => by omega⟩
    · obtain ⟨next, hnext, hfaithful, hentries, hscanned⟩ := h.scanNext (by omega)
      have hlast := ih hfaithful (by rw [hentries, hscanned]; omega)
      have hsame : index.scanPast files done = next.scanPast files done := by
        rw [Index.scanPast, if_neg hdone]
        split <;> simp_all
      rw [hsame]
      exact hlast.of_next h (by simpa using hdone) hentries hscanned

/-- Whether the entry lists the resource that a path asks for. -/
def answers (files : FileTree) (path : String) (entry : Entry) : Bool :=
  entry.lists files (PathTrie.segments (normalize path))

/-- What is found if all entries are looked at in order. -/
def firstOwner (files : FileTree) (path : String) (entries : List Entry) :
    Option ResourceLocation :=
  (entries.find? (answers files path)).map fun entry => { entry, path := normalize path }

/-- The number of entries that are scanned once the resource was looked for: those up to its owner,
and all of them if there is none. -/
def scannedFor (files : FileTree) (path : String) (index : Index) : Nat :=
  match index.entries.findIdx? (answers files path) with
  | some owner => max index.scanned (owner + 1)
  | none => index.entries.length

theorem Faithful.owner? {files : FileTree} {index : Index} (h : index.Faithful files)
    (path : String) (i : Nat) :
    index.trie.owner? (normalize path) = some i ↔
      index.entries.findIdx? (answers files path) = some i ∧ i < index.scanned := by
  rw [PathTrie.owner?_eq_ownerAt, h.known]
  exact ownerAt_trieOf_eq_some

theorem StopsAt.scanned {files : FileTree} {index last : Index} {path : String}
    (h : StopsAt files (fun t => (t.owner? (normalize path)).isSome) index last) :
    last.scanned = scannedFor files path index := by
  have hbound := h.faithful.bound
  have hle := h.le
  rw [scannedFor]
  cases howner : index.entries.findIdx? (answers files path) with
  | none =>
    rcases h.stops with hdone | hend
    · obtain ⟨i, hi⟩ := Option.isSome_iff_exists.mp hdone
      rw [h.faithful.owner?, h.entries, howner] at hi
      cases hi.1
    · rw [hend, h.entries]
  | some owner =>
    have hlt : owner < index.entries.length := (List.findIdx?_eq_some_iff_getElem.mp howner).1
    -- The owner is scanned when the scan ends, and it is the last one that was scanned for it.
    have hscanned : owner < last.scanned := by
      rcases h.stops with hdone | hend
      · obtain ⟨i, hi⟩ := Option.isSome_iff_exists.mp hdone
        rw [h.faithful.owner?, h.entries, howner] at hi
        have hsame : owner = i := Option.some.inj hi.1
        omega
      · rw [hend, h.entries]
        exact hlt
    by_cases hbefore : last.scanned ≤ max index.scanned (owner + 1)
    · simp only
      omega
    · have hon := h.goesOn (max index.scanned (owner + 1)) (by omega) (by omega)
      have hknown : (trieOf files index.entries (max index.scanned (owner + 1))).ownerAt
          (PathTrie.segments (normalize path)) = some owner :=
        ownerAt_trieOf_eq_some.mpr ⟨howner, by omega⟩
      rw [PathTrie.owner?_eq_ownerAt, hknown] at hon
      cases hon

/-- A resource is found at the first entry that lists it, and no entry after that one is scanned for
it. -/
theorem Faithful.find {files : FileTree} {index : Index} (h : index.Faithful files)
    (path : String) :
    ∃ next, index.find files path = (.ok (firstOwner files path index.entries), next) ∧
      next.Faithful files ∧ next.entries = index.entries ∧ index.scanned ≤ next.scanned ∧
      next.scanned = scannedFor files path index := by
  obtain ⟨last, hlast, hstops⟩ := h.scanUntil fun t => (t.owner? (normalize path)).isSome
  have hscanned := hstops.scanned
  refine ⟨last, ?_, hstops.faithful, hstops.entries, hstops.le, hscanned⟩
  have hknown : last.known? (normalize path) = firstOwner files path index.entries := by
    rw [known?, firstOwner, List.find?_eq_bind_findIdx?_getElem?, hstops.entries]
    cases howner : index.entries.findIdx? (answers files path) with
    | none =>
      have hunknown : last.trie.owner? (normalize path) = none := by
        cases hi : last.trie.owner? (normalize path) with
        | none => rfl
        | some i =>
          rw [hstops.faithful.owner?, hstops.entries, howner] at hi
          cases hi.1
      simp [hunknown]
    | some owner =>
      have hlt : owner < last.scanned := by
        rw [hscanned, scannedFor, howner]
        simp only
        omega
      have hfound : last.trie.owner? (normalize path) = some owner := by
        rw [hstops.faithful.owner?, hstops.entries]
        exact ⟨howner, hlt⟩
      cases hentry : index.entries[owner]? <;> simp [hfound, hentry]
  simp only [Index.find, hlast, hknown]
  rfl

end Index

/-! ## Calls -/

/-- A question to a class path. -/
inductive Query where
  /-- Where is the resource? -/
  | find (path : String)
  /-- Which resources are directly in the package? -/
  | contents (package : String)
  /-- Is there a class of that name? -/
  | hasClass (name : String)
  /-- Which classes are in the package? -/
  | packageClasses (package : String)
  /-- Is there something in or below the package? -/
  | hasPackage (package : String)

/-- The answer to a question. -/
inductive Answer where
  /-- Where a resource is. -/
  | location (found : Except Error (Option ResourceLocation))
  /-- The names of resources. -/
  | names (found : Except Error (List String))
  /-- The names of classes. -/
  | classes (found : List String)
  /-- Whether there is something. -/
  | truth (found : Bool)

/-- The answer of a class path, and what it knows afterwards. -/
def Query.run (files : FileTree) (cp : ClassPath) : Query → Answer × ClassPath
  | .find path => ((.location (cp.find files path).1), (cp.find files path).2)
  | .contents package => ((.names (cp.contents files package).1), (cp.contents files package).2)
  | .hasClass name => ((.truth (cp.hasClass files name).1), (cp.hasClass files name).2)
  | .packageClasses package =>
    ((.classes (cp.packageClasses files package).1), (cp.packageClasses files package).2)
  | .hasPackage package => ((.truth (cp.hasPackage files package).1), (cp.hasPackage files package).2)

/-- A question to one of the indexes, which asks those before it as well. -/
structure Call where
  /-- The number of indexes that take part: the one that is asked and those before it. -/
  depth : Nat
  /-- The question. -/
  query : Query

/-- The answer to a call, and what the class path knows afterwards. -/
def Call.run (files : FileTree) (cp : ClassPath) (call : Call) : Answer × ClassPath :=
  let asked := call.query.run files ⟨cp.indexes.take call.depth⟩
  (asked.1, ⟨asked.2.indexes ++ cp.indexes.drop call.depth⟩)

/-- What a class path knows after calls. -/
def afterCalls (files : FileTree) (cp : ClassPath) (calls : List Call) : ClassPath :=
  calls.foldl (fun cp call => (call.run files cp).2) cp

/-- The class path of indexes over these entries, of which nothing is known. -/
def ofChain (chain : List (List Entry)) : ClassPath := ⟨chain.map fun entries => { entries }⟩

/-- The indexes after a question are those before it, scanned further, and know what their scanned
entries list. -/
def Kept (files : FileTree) (before after : List Index) : Prop :=
  List.Forall₂ (fun i j => j.Faithful files ∧ j.entries = i.entries ∧ i.scanned ≤ j.scanned)
    before after

/-- All indexes know what their scanned entries list. -/
def AllFaithful (files : FileTree) (indexes : List Index) : Prop :=
  ∀ index ∈ indexes, index.Faithful files

theorem kept_refl {files : FileTree} {indexes : List Index} (h : AllFaithful files indexes) :
    Kept files indexes indexes := by
  induction indexes with
  | nil => exact .nil
  | cons index rest ih =>
    exact .cons ⟨h index List.mem_cons_self, rfl, Nat.le_refl _⟩
      (ih fun i hi => h i (List.mem_cons_of_mem _ hi))

theorem Kept.allFaithful {files : FileTree} {before after : List Index}
    (h : Kept files before after) : AllFaithful files after := by
  induction h with
  | nil => simp [AllFaithful]
  | cons hfirst hrest ih =>
    intro index hmem
    rcases List.mem_cons.mp hmem with rfl | hmem
    · exact hfirst.1
    · exact ih index hmem

theorem Kept.entries {files : FileTree} {before after : List Index}
    (h : Kept files before after) : after.map Index.entries = before.map Index.entries := by
  induction h with
  | nil => rfl
  | cons hfirst hrest ih => simp [hfirst.2.1, ih]

theorem Kept.append {files : FileTree} {before after before' after' : List Index}
    (h : Kept files before after) (h' : Kept files before' after') :
    Kept files (before ++ before') (after ++ after') := by
  induction h with
  | nil => exact h'
  | cons hfirst hrest ih => exact .cons hfirst ih

/-- The resource is found where it is found if all entries of all indexes are looked at in order. -/
theorem findFirst_spec {files : FileTree} {indexes : List Index} (h : AllFaithful files indexes)
    (path : String) :
    ∃ after, findFirst files path indexes =
        (.ok ((indexes.map Index.entries).findSome? (Index.firstOwner files path)), after) ∧
      Kept files indexes after := by
  induction indexes with
  | nil => exact ⟨[], rfl, .nil⟩
  | cons index rest ih =>
    have hrest : AllFaithful files rest := fun i hi => h i (List.mem_cons_of_mem _ hi)
    obtain ⟨next, hnext, hfaithful, hentries, hle, -⟩ := (h index List.mem_cons_self).find path
    obtain ⟨after, hafter, hkept⟩ := ih hrest
    cases howner : Index.firstOwner files path index.entries with
    | none =>
      refine ⟨next :: after, ?_, .cons ⟨hfaithful, hentries, hle⟩ hkept⟩
      simp [findFirst, hnext, howner, hafter]
    | some location =>
      refine ⟨next :: rest, ?_, .cons ⟨hfaithful, hentries, hle⟩ (kept_refl hrest)⟩
      simp [findFirst, hnext, howner]

/-- How far the indexes are scanned once the resource was looked for: an index that finds it is scanned
up to its owner, one that does not is scanned to its end, and those after the owner are left alone. -/
def scannedFor (files : FileTree) (path : String) : List Index → List Nat
  | [] => []
  | index :: rest =>
    index.scannedFor files path ::
      if (Index.firstOwner files path index.entries).isSome then rest.map Index.scanned
      else scannedFor files path rest

theorem findFirst_scanned {files : FileTree} {indexes : List Index}
    (h : AllFaithful files indexes) (path : String) :
    (findFirst files path indexes).2.map Index.scanned = scannedFor files path indexes := by
  induction indexes with
  | nil => rfl
  | cons index rest ih =>
    have hrest := ih fun i hi => h i (List.mem_cons_of_mem _ hi)
    obtain ⟨next, hnext, -, -, -, hscanned⟩ := (h index List.mem_cons_self).find path
    cases howner : Index.firstOwner files path index.entries with
    | none => simp [findFirst, hnext, howner, scannedFor, hscanned, hrest]
    | some location => simp [findFirst, hnext, howner, scannedFor, hscanned]

theorem contentsAll_kept {files : FileTree} {indexes : List Index}
    (h : AllFaithful files indexes) (package : String) :
    Kept files indexes (contentsAll files package indexes).2 := by
  induction indexes with
  | nil => exact .nil
  | cons index rest ih =>
    have hrest := ih fun i hi => h i (List.mem_cons_of_mem _ hi)
    obtain ⟨last, hlast, hstops⟩ := (h index List.mem_cons_self).scanUntil fun _ => false
    simp only [contentsAll, Index.contents, hlast]
    exact .cons ⟨hstops.faithful, hstops.entries, hstops.le⟩ hrest

theorem hasPackageFirst_cons (files : FileTree) (package : String) (index : Index)
    (rest : List Index) :
    hasPackageFirst files package (index :: rest) =
      let asked := index.hasPackage files package
      if asked.1 then (true, asked.2 :: rest)
      else
        ((hasPackageFirst files package rest).1, asked.2 :: (hasPackageFirst files package rest).2) := by
  conv => lhs; unfold hasPackageFirst
  generalize index.hasPackage files package = asked
  obtain ⟨found, next⟩ := asked
  cases found <;> rfl

theorem hasPackageFirst_kept {files : FileTree} {indexes : List Index}
    (h : AllFaithful files indexes) (package : String) :
    Kept files indexes (hasPackageFirst files package indexes).2 := by
  induction indexes with
  | nil => exact .nil
  | cons index rest ih =>
    have hfaithful : AllFaithful files rest := fun i hi => h i (List.mem_cons_of_mem _ hi)
    have hstops := (h index List.mem_cons_self).scanPast fun t =>
      t.hasBelow (packageDirectory package)
    have hasked : (index.hasPackage files package).2.Faithful files ∧
        (index.hasPackage files package).2.entries = index.entries ∧
        index.scanned ≤ (index.hasPackage files package).2.scanned :=
      ⟨hstops.faithful, hstops.entries, hstops.le⟩
    rw [hasPackageFirst_cons]
    generalize index.hasPackage files package = asked at hasked ⊢
    by_cases hfound : asked.1 = true
    · simpa [hfound] using .cons hasked (kept_refl hfaithful)
    · simpa [hfound] using .cons hasked (ih hfaithful)

theorem Query.kept {files : FileTree} {cp : ClassPath} (h : AllFaithful files cp.indexes)
    (query : Query) : Kept files cp.indexes (query.run files cp).2.indexes := by
  have hfind : ∀ path, Kept files cp.indexes (cp.find files path).2.indexes := by
    intro path
    obtain ⟨after, hafter, hkept⟩ := findFirst_spec h path
    simpa [ClassPath.find, hafter] using hkept
  have hcontents : ∀ package, Kept files cp.indexes (cp.contents files package).2.indexes :=
    fun package => contentsAll_kept h package
  cases query with
  | find path => exact hfind path
  | contents package => exact hcontents package
  | hasClass name => exact hfind _
  | packageClasses package => exact hcontents package
  | hasPackage package => exact hasPackageFirst_kept h package

theorem Call.kept {files : FileTree} {cp : ClassPath} (h : AllFaithful files cp.indexes)
    (call : Call) : Kept files cp.indexes (call.run files cp).2.indexes := by
  have htake : AllFaithful files (ClassPath.indexes ⟨cp.indexes.take call.depth⟩) :=
    fun i hi => h i (List.mem_of_mem_take hi)
  have hdrop : AllFaithful files (cp.indexes.drop call.depth) :=
    fun i hi => h i (List.mem_of_mem_drop hi)
  have hasked := call.query.kept htake
  have hboth := hasked.append (kept_refl hdrop)
  rw [List.take_append_drop] at hboth
  exact hboth

/-- After any calls the indexes have the entries that they had, and know what the scanned ones list. -/
theorem afterCalls_spec {files : FileTree} {cp : ClassPath} (h : AllFaithful files cp.indexes)
    (calls : List Call) :
    AllFaithful files (afterCalls files cp calls).indexes ∧
      (afterCalls files cp calls).indexes.map Index.entries = cp.indexes.map Index.entries := by
  induction calls generalizing cp with
  | nil => exact ⟨h, rfl⟩
  | cons call calls ih =>
    have hkept := call.kept h
    obtain ⟨hfaithful, hentries⟩ := ih hkept.allFaithful
    exact ⟨hfaithful, hentries.trans hkept.entries⟩

theorem allFaithful_ofChain {files : FileTree} {chain : List (List Entry)}
    (h : ∀ entries ∈ chain, ∀ entry ∈ entries, Entry.Listable files entry) :
    AllFaithful files (ofChain chain).indexes := by
  intro index hindex
  obtain ⟨entries, hmem, rfl⟩ := List.mem_map.mp hindex
  exact Index.faithful_unscanned (h entries hmem)

/-! ## Files -/

/-- The file trees agree on the entry: whether it exists, and what it lists. -/
def Entry.Same (files files' : FileTree) (entry : Entry) : Prop :=
  files'.contains entry.path = files.contains entry.path ∧ entry.list files' = entry.list files

namespace Index

variable {files files' : FileTree}

/-- The entries that are scanned on the way from an index to a later state of it. -/
def newlyScanned (before after : Index) : List Entry :=
  (before.entries.take after.scanned).drop before.scanned

theorem mem_newlyScanned_of_next {index next last : Index} {entry : Entry}
    (hentries : next.entries = index.entries) (hle : index.scanned ≤ next.scanned)
    (h : entry ∈ next.newlyScanned last) : entry ∈ index.newlyScanned last := by
  rw [newlyScanned, hentries] at h
  rw [newlyScanned]
  exact List.Sublist.mem h (List.drop_sublist_drop_left _ hle)

theorem scanned_le_scanNext (files : FileTree) (index : Index) :
    index.scanned ≤ (index.scanNext files).2.scanned := by
  rw [Index.scanNext]
  split
  · exact Nat.le_refl _
  · dsimp only [listEntry]
    split
    · exact Nat.le_succ _
    · split <;> exact Nat.le_succ _

theorem scanned_le_scanUntil (files : FileTree) (done : PathTrie → Bool) (index : Index) :
    index.scanned ≤ (index.scanUntil files done).2.scanned := by
  fun_induction Index.scanUntil files done index with
  | case1 index hdone => exact Nat.le_refl _
  | case2 index hdone next hnext ih =>
    have hle := scanned_le_scanNext files index
    rw [hnext] at hle
    exact Nat.le_trans hle ih
  | case3 index hdone next hnext =>
    have hle := scanned_le_scanNext files index
    rwa [hnext] at hle
  | case4 index hdone e next hnext =>
    have hle := scanned_le_scanNext files index
    rwa [hnext] at hle

theorem scanned_le_scanPast (files : FileTree) (done : PathTrie → Bool) (index : Index) :
    index.scanned ≤ (index.scanPast files done).scanned := by
  fun_induction Index.scanPast files done index with
  | case1 index hdone => exact Nat.le_refl _
  | case2 index hdone next hnext =>
    have hle := scanned_le_scanNext files index
    rwa [hnext] at hle
  | case3 index hdone next hnext ih | case4 index hdone e next hnext ih =>
    have hle := scanned_le_scanNext files index
    rw [hnext] at hle
    exact Nat.le_trans hle ih

/-- A scan of the next entry looks at that entry only. -/
theorem scanNext_same {index last : Index} (hle : (index.scanNext files).2.scanned ≤ last.scanned)
    (h : ∀ entry ∈ index.newlyScanned last, entry.Same files files') :
    index.scanNext files' = index.scanNext files := by
  cases hentry : index.entries[index.scanned]? with
  | none => simp [Index.scanNext, hentry]
  | some entry =>
    obtain ⟨hlt, rfl⟩ := List.getElem?_eq_some_iff.mp hentry
    have hscanned : (index.scanNext files).2.scanned = index.scanned + 1 := by
      apply scanned_scanNext
      simp only [Index.scanNext, listEntry, hentry]
      split
      · simp
      · split <;> simp
    have hmem : index.entries[index.scanned] ∈ index.newlyScanned last := by
      rw [newlyScanned, List.mem_drop_iff_getElem]
      exact ⟨0, by simp; omega, by simp⟩
    obtain ⟨hexists, hlist⟩ := h _ hmem
    simp only [Index.scanNext, listEntry, hentry, hexists, hlist]

/-- A scan looks at no other entries than those that count as scanned after it. -/
theorem scanUntil_same {index : Index} {done : PathTrie → Bool}
    (h : ∀ entry ∈ index.newlyScanned (index.scanUntil files done).2, entry.Same files files') :
    index.scanUntil files' done = index.scanUntil files done := by
  fun_induction Index.scanUntil files done index with
  | case1 index hdone => rw [Index.scanUntil, if_pos hdone]
  | case2 index hdone next hnext ih =>
    have hle := scanned_le_scanUntil files done next
    have hsame := scanNext_same (by rw [hnext]; exact hle) h
    have hentries := entries_scanNext files index
    have hstep := scanned_le_scanNext files index
    rw [hnext] at hsame hentries hstep
    have hrest := ih fun entry hentry => h entry (mem_newlyScanned_of_next hentries hstep hentry)
    rw [Index.scanUntil, if_neg hdone]
    split <;> simp_all
  | case3 index hdone next hnext | case4 index hdone e next hnext =>
    have hsame := scanNext_same (Nat.le_of_eq (by rw [hnext])) h
    rw [hnext] at hsame
    rw [Index.scanUntil, if_neg hdone]
    split <;> simp_all

theorem scanPast_same {index : Index} {done : PathTrie → Bool}
    (h : ∀ entry ∈ index.newlyScanned (index.scanPast files done), entry.Same files files') :
    index.scanPast files' done = index.scanPast files done := by
  fun_induction Index.scanPast files done index with
  | case1 index hdone => rw [Index.scanPast, if_pos hdone]
  | case2 index hdone next hnext =>
    have hsame := scanNext_same (Nat.le_of_eq (by rw [hnext])) h
    rw [hnext] at hsame
    rw [Index.scanPast, if_neg hdone]
    split <;> simp_all
  | case3 index hdone next hnext ih | case4 index hdone e next hnext ih =>
    have hle := scanned_le_scanPast files done next
    have hsame := scanNext_same (by rw [hnext]; exact hle) h
    have hentries := entries_scanNext files index
    have hstep := scanned_le_scanNext files index
    rw [hnext] at hsame hentries hstep
    have hrest := ih fun entry hentry => h entry (mem_newlyScanned_of_next hentries hstep hentry)
    rw [Index.scanPast, if_neg hdone]
    split <;> simp_all

end Index

/-- The file trees agree on the entries that are scanned on the way. -/
def SameOn (files files' : FileTree) (before after : List Index) : Prop :=
  ∀ p ∈ before.zip after, ∀ entry ∈ p.1.newlyScanned p.2, entry.Same files files'

variable {files files' : FileTree}

theorem SameOn.cons {index next : Index} {before after : List Index}
    (h : SameOn files files' (index :: before) (next :: after)) :
    (∀ entry ∈ index.newlyScanned next, entry.Same files files') ∧ SameOn files files' before after :=
  ⟨fun entry hentry => h (index, next) (by simp) entry hentry,
    fun p hp entry hentry => h p (by simp [hp]) entry hentry⟩

theorem findFirst_same {indexes : List Index} (hindexes : AllFaithful files indexes)
    {path : String} (h : SameOn files files' indexes (findFirst files path indexes).2) :
    findFirst files' path indexes = findFirst files path indexes := by
  induction indexes with
  | nil => rfl
  | cons index rest ih =>
    obtain ⟨next, hnext, -⟩ := (hindexes index List.mem_cons_self).find path
    have hasked : (∀ entry ∈ index.newlyScanned next, entry.Same files files') →
        index.find files' path = index.find files path := by
      intro hsame
      have hlast : (index.scanUntil files fun t => (t.owner? (normalize path)).isSome).2 = next :=
        congrArg Prod.snd hnext
      have hscan := Index.scanUntil_same (hlast ▸ hsame)
      simp only [Index.find, hscan]
    cases howner : Index.firstOwner files path index.entries with
    | none =>
      simp only [findFirst, hnext, howner] at h ⊢
      obtain ⟨hfirst, hrest⟩ := h.cons
      have hrest' := ih (fun i hi => hindexes i (List.mem_cons_of_mem _ hi)) hrest
      rw [hasked hfirst, hnext, howner, hrest']
    | some location =>
      simp only [findFirst, hnext, howner] at h ⊢
      rw [hasked h.cons.1, hnext, howner]

theorem contentsAll_same {indexes : List Index} (hindexes : AllFaithful files indexes)
    {package : String} (h : SameOn files files' indexes (contentsAll files package indexes).2) :
    contentsAll files' package indexes = contentsAll files package indexes := by
  induction indexes with
  | nil => rfl
  | cons index rest ih =>
    obtain ⟨last, hlast, -⟩ := (hindexes index List.mem_cons_self).scanUntil fun _ => false
    simp only [contentsAll, Index.contents, hlast] at h ⊢
    obtain ⟨hfirst, hrest⟩ := h.cons
    have hrest' := ih (fun i hi => hindexes i (List.mem_cons_of_mem _ hi)) hrest
    have hscan : index.scanUntil files' (fun _ => false) = index.scanUntil files fun _ => false :=
      Index.scanUntil_same (by rwa [hlast])
    rw [hscan, hlast, hrest']

theorem hasPackageFirst_same {indexes : List Index} {package : String}
    (h : SameOn files files' indexes (hasPackageFirst files package indexes).2) :
    hasPackageFirst files' package indexes = hasPackageFirst files package indexes := by
  induction indexes with
  | nil => rfl
  | cons index rest ih =>
    have hasked : (∀ entry ∈ index.newlyScanned (index.hasPackage files package).2,
        entry.Same files files') →
          index.hasPackage files' package = index.hasPackage files package := by
      intro hsame
      have hscan := Index.scanPast_same hsame
      rw [Index.hasPackage, hscan, Index.hasPackage]
    rw [hasPackageFirst_cons] at h
    rw [hasPackageFirst_cons, hasPackageFirst_cons]
    generalize index.hasPackage files package = asked at hasked h ⊢
    by_cases hfound : asked.1 = true
    · simp only [hfound, if_true] at h ⊢
      rw [hasked h.cons.1]
      simp [hfound]
    · simp only [hfound] at h ⊢
      obtain ⟨hfirst, hrest⟩ := h.cons
      rw [hasked hfirst, ih hrest]
      simp [hfound]

theorem Query.run_same {cp : ClassPath} (hcp : AllFaithful files cp.indexes) (query : Query)
    (h : SameOn files files' cp.indexes (query.run files cp).2.indexes) :
    query.run files' cp = query.run files cp := by
  cases query with
  | find path => simp only [Query.run, ClassPath.find, findFirst_same hcp h]
  | contents package => simp only [Query.run, ClassPath.contents, contentsAll_same hcp h]
  | hasClass name =>
    simp only [Query.run, ClassPath.hasClass, ClassPath.find, findFirst_same hcp h]
  | packageClasses package =>
    simp only [Query.run, ClassPath.packageClasses, ClassPath.contents, contentsAll_same hcp h]
  | hasPackage package => simp only [Query.run, ClassPath.hasPackage, hasPackageFirst_same h]

/-- A call depends on the files only through the entries that it scans. -/
theorem Call.run_same {cp : ClassPath} (hcp : AllFaithful files cp.indexes) (call : Call)
    (h : SameOn files files' cp.indexes (call.run files cp).2.indexes) :
    call.run files' cp = call.run files cp := by
  have htake : AllFaithful files (ClassPath.indexes ⟨cp.indexes.take call.depth⟩) :=
    fun i hi => hcp i (List.mem_of_mem_take hi)
  have hlength := (call.query.kept htake).length_eq
  have hasked : call.query.run files' ⟨cp.indexes.take call.depth⟩
      = call.query.run files ⟨cp.indexes.take call.depth⟩ := by
    apply Query.run_same htake
    intro p hp
    apply h p
    have hsplit : cp.indexes.zip (call.run files cp).2.indexes
        = (cp.indexes.take call.depth ++ cp.indexes.drop call.depth).zip
            ((call.query.run files ⟨cp.indexes.take call.depth⟩).2.indexes
              ++ cp.indexes.drop call.depth) := by
      rw [List.take_append_drop]
      rfl
    rw [hsplit, List.zip_append hlength]
    exact List.mem_append_left _ hp
  simp only [Call.run, hasked]

/-! ## Answers after calls -/

/-- After any calls, to whichever indexes of the chain, a resource is found where it is found if all
entries are looked at in order, those of the first index first.  An index is scanned for it up to the
owner only, to its end if it has none, and not at all if one before it has the resource.

No entry was listed twice, and those listed are the scanned entries that exist.  A call depends on the
files only through the entries that it scans, and what is scanned stays scanned. -/
theorem find_after_calls (files : FileTree) (chain : List (List Entry))
    (hlist : ∀ entries ∈ chain, ∀ entry ∈ entries, Entry.Listable files entry)
    (calls : List Call) :
    let cp := afterCalls files (ofChain chain) calls
    cp.indexes.map Index.entries = chain ∧
    (∀ path,
      (cp.find files path).1 = .ok (chain.findSome? (Index.firstOwner files path)) ∧
        (cp.find files path).2.indexes.map Index.scanned = scannedFor files path cp.indexes) ∧
    (∀ index ∈ cp.indexes, index.listings.Nodup ∧ ∀ i, i ∈ index.listings ↔
      i < index.scanned ∧
        ∃ entry, index.entries[i]? = some entry ∧ files.contains entry.path = true) ∧
    ∀ call : Call,
      List.Forall₂ (fun before after => before.scanned ≤ after.scanned) cp.indexes
          (call.run files cp).2.indexes ∧
        ∀ files', SameOn files files' cp.indexes (call.run files cp).2.indexes →
          call.run files' cp = call.run files cp := by
  intro cp
  obtain ⟨hfaithful, hentries⟩ := afterCalls_spec (allFaithful_ofChain hlist) calls
  have hchain : cp.indexes.map Index.entries = chain := by
    rw [hentries, ofChain, List.map_map]
    exact List.map_id chain
  refine ⟨hchain, ?_, ?_, ?_⟩
  · intro path
    obtain ⟨after, hafter, -⟩ := findFirst_spec hfaithful path
    have hscanned := findFirst_scanned hfaithful path
    rw [hchain] at hafter
    simp only [ClassPath.find]
    exact ⟨by rw [hafter], hscanned⟩
  · intro index hindex
    exact ⟨(hfaithful index hindex).nodup_listings, fun i => (hfaithful index hindex).mem_listings_iff⟩
  · intro call
    refine ⟨(call.kept hfaithful).imp fun _ _ h => h.2.2, ?_⟩
    intro files' hsame
    exact call.run_same hfaithful hsame

/-- Two directories that both have a file `x/y`, and no others. -/
def twoDirectories : FileTree :=
  { files := [(["a", "x", "y"], .bytes []), (["b", "x", "y"], .bytes []), (["b", "z"], .bytes [])]
    directories := [["a"], ["a", "x"], ["b"], ["b", "x"]] }

/-- The directories, after one that does not exist. -/
def bootedDirectories : List (List Entry) := [[.directory "boot"], [.directory "a", .directory "b"]]

/-- A file of two directories is found in the first one, also if the second one was scanned before, and
each index has listed every directory of its own at most once. -/
theorem bootedDirectories_find :
    (∀ entries ∈ bootedDirectories, ∀ entry ∈ entries, Entry.Listable twoDirectories entry) ∧
      ((afterCalls twoDirectories (ofChain bootedDirectories)
          [⟨2, .find "z"⟩, ⟨1, .contents "x"⟩]).find twoDirectories "x/y").1
        = .ok (some { entry := .directory "a", path := "x/y" }) ∧
      ∀ index ∈ (afterCalls twoDirectories (ofChain bootedDirectories)
        [⟨2, .find "z"⟩, ⟨1, .contents "x"⟩]).indexes, index.listings.Nodup := by
  have hlist : ∀ entries ∈ bootedDirectories, ∀ entry ∈ entries,
      Entry.Listable twoDirectories entry := by
    have hlisted : ∀ entries ∈ bootedDirectories, ∀ entry ∈ entries,
        twoDirectories.contains entry.path = true →
          (entry.list twoDirectories).toOption.isSome = true := by decide +kernel
    intro entries hentries entry hentry hexists
    cases hpaths : entry.list twoDirectories with
    | error e =>
      have hnone := hlisted entries hentries entry hentry hexists
      rw [hpaths] at hnone
      cases hnone
    | ok paths => exact ⟨paths, rfl⟩
  have heager : bootedDirectories.findSome? (Index.firstOwner twoDirectories "x/y")
      = some { entry := .directory "a", path := "x/y" } := by decide +kernel
  obtain ⟨-, hfind, honce, -⟩ := find_after_calls twoDirectories bootedDirectories hlist
    [⟨2, .find "z"⟩, ⟨1, .contents "x"⟩]
  exact ⟨hlist, heager ▸ (hfind "x/y").1, fun index hindex => (honce index hindex).1⟩

/-- A directory with one file, whose name has a backslash in it. -/
def backslashInName : FileTree :=
  { files := [(["a", "x\\y"], .bytes [])], directories := [["a"]] }

/-- A backslash in the path that is asked for stands for a slash, one in the name of a file does not:
the path of a file need not lead to it. -/
theorem backslashInName_find :
    ¬ ∀ (files : FileTree) (chain : List (List Entry)),
      (∀ entries ∈ chain, ∀ entry ∈ entries, Entry.Listable files entry) → ∀ path,
        ((ofChain chain).find files path).1.toOption.join.map ResourceLocation.entry
          = chain.findSome? fun entries =>
              entries.find? (Entry.lists files (PathTrie.segments path)) := by
  intro hfind
  have hlist : ∀ entries ∈ [[Entry.directory "a"]], ∀ entry ∈ entries,
      Entry.Listable backslashInName entry := by
    intro entries hentries entry hentry _
    obtain rfl := List.mem_singleton.mp hentries
    obtain rfl := List.mem_singleton.mp hentry
    exact ⟨["x\\y"], by rfl⟩
  have hfound := hfind backslashInName [[.directory "a"]] hlist "x\\y"
  have hmissed : ((ofChain [[.directory "a"]]).find backslashInName "x\\y").1.toOption.join.map
      ResourceLocation.entry = none := by decide +kernel
  have hlisted : ([[Entry.directory "a"]].findSome? fun entries =>
      entries.find? (Entry.lists backslashInName (PathTrie.segments "x\\y")))
        = some (.directory "a") := by decide +kernel
  rw [hmissed, hlisted] at hfound
  cases hfound

end JavaSema.ClassPath
