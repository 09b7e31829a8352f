import JavaSema.Proofs.ClassPath.Trie
import Mathlib.Data.Finset.Card
import Mathlib.Data.Finset.Lattice.Lemmas

/-!
# A path trie is a finite map

Whatever was recorded in a trie, in whatever order and spelling, its questions are answered as by the
list of the records: the first record of a resource counts, and later ones change nothing.

There are three groups.

* Nodes.  Recording makes inner nodes without owners, but none in vain: `Pruned` says that below each
  child lies a resource, and an insertion keeps it.
* Listings.  With that, a directory has children exactly if a resource lies below it.
* Records.  `Remembers` says what a trie knows of a list of records.  One more record keeps it, and
  `insertEach_answers` reads the answers off it.
-/

namespace JavaSema

namespace TrieNode

/-! ## Nodes -/

/-- A resource lies at the place or below it. -/
def Occupied (n : TrieNode) : Prop := ∃ q, (ownerAt q n).isSome

/-- All children are occupied, at the node and below it. -/
inductive Pruned : TrieNode → Prop where
  | node {o : Option Nat} {cs : List (String × TrieNode)} (occupied : ∀ p ∈ cs, p.2.Occupied)
      (below : ∀ p ∈ cs, Pruned p.2) : Pruned (.node o cs)

theorem pruned_blank : Pruned blank := .node (by simp) (by simp)

theorem occupied_insert {n : TrieNode} (h : Ascending n) (entry : Nat) (segments : List String) :
    (n.insert entry segments).Occupied := by
  refine ⟨segments, ?_⟩
  rw [ownerAt_insert h, if_pos rfl]
  cases ownerAt segments n <;> rfl

theorem Pruned.insert {n : TrieNode} (h : Pruned n) (hasc : Ascending n) (entry : Nat)
    (segments : List String) : Pruned (n.insert entry segments) := by
  induction segments generalizing n with
  | nil =>
    cases h with
    | node occupied below => exact .node occupied below
  | cons s rest ih =>
    cases h with
    | node occupied below =>
      cases hasc with
      | node names ascending =>
        -- a child is an old one, or an insertion was made in an old or a blank one
        refine .node (fun p hp => ?_) (fun p hp => ?_)
        · rcases mem_adjust hp with hp | ⟨-, c, hc, rfl | hmem⟩
          · exact occupied p hp
          · exact hc ▸ occupied_insert ascending_blank entry rest
          · exact hc ▸ occupied_insert (ascending _ hmem) entry rest
        · rcases mem_adjust hp with hp | ⟨-, c, hc, rfl | hmem⟩
          · exact below p hp
          · exact hc ▸ ih pruned_blank ascending_blank
          · exact hc ▸ ih (below _ hmem) (ascending _ hmem)

/-- What lies below a pruned node is pruned. -/
theorem Pruned.descend? {n n' : TrieNode} (h : Pruned n) (hasc : Ascending n)
    {segments : List String} (hdescend : n.descend? segments = some n') : Pruned n' := by
  induction segments generalizing n with
  | nil =>
    obtain rfl := Option.some.inj hdescend
    exact h
  | cons s segments ih =>
    cases h with
    | node occupied below =>
      cases hasc with
      | node names ascending =>
        obtain ⟨c, hc, hrest⟩ := Option.bind_eq_some_iff.mp hdescend
        have hmem := (lookup_eq_some_iff names).mp hc
        exact ih (below _ hmem) (ascending _ hmem) hrest

/-- A pruned node has children exactly if a resource lies below it. -/
theorem Pruned.children_ne_nil_iff {n : TrieNode} (h : Pruned n) :
    n.children ≠ [] ↔ ∃ q, q ≠ [] ∧ (ownerAt q n).isSome := by
  cases h with
  | @node o cs occupied below =>
    cases cs with
    | nil =>
      refine iff_of_false (fun h => h rfl) ?_
      rintro ⟨_ | ⟨s, q⟩, hq, hsome⟩
      · exact hq rfl
      · simp [ownerAt_cons, children, ownerAt_blank] at hsome
    | cons p cs =>
      obtain ⟨q, hq⟩ := occupied p List.mem_cons_self
      refine iff_of_true (List.cons_ne_nil _ _) ⟨p.1 :: q, List.cons_ne_nil _ _, ?_⟩
      rwa [ownerAt_cons, children, lookup_child, if_pos rfl, Option.getD_some]

end TrieNode

namespace PathTrie

/-! ## Listings -/

/-- Below each child lies a resource. -/
def Pruned (trie : PathTrie) : Prop := trie.root.Pruned

theorem Pruned.insert {trie : PathTrie} (h : trie.Pruned) (hasc : trie.Ascending) (path : String)
    (entry : Nat) : (trie.insert path entry).1.Pruned := by
  unfold PathTrie.insert
  split
  · exact h
  · exact TrieNode.Pruned.insert h hasc entry _

/-- A directory is not empty exactly if a resource lies below it. -/
theorem hasBelow_iff {trie : PathTrie} (h : trie.Pruned) (hasc : trie.Ascending)
    {directory : String} :
    trie.hasBelow directory = true ↔
      ∃ q, q ≠ [] ∧ (trie.ownerAt (segments directory ++ q)).isSome := by
  have hownerAt : ∀ q, trie.ownerAt (segments directory ++ q)
      = (trie.descend? directory).bind (TrieNode.ownerAt q) :=
    fun q => TrieNode.ownerAt_append (segments directory) q trie.root
  simp only [hasBelow, hownerAt]
  cases hdescend : trie.descend? directory with
  | none => simp
  | some n => simpa using (h.descend? hasc hdescend).children_ne_nil_iff

/-- The names in a listing stand in ascending order, so that none is there twice. -/
theorem pairwise_filesIn {trie : PathTrie} (h : trie.Ascending) (directory : String) :
    (trie.filesIn directory).Pairwise (· < ·) := by
  rw [filesIn]
  cases hdescend : trie.descend? directory with
  | none => exact .nil
  | some n =>
    cases TrieNode.Ascending.descend? h hdescend with
    | node names below => exact names.sublist (List.filter_sublist.map Prod.fst)

/-! ## Records -/

/-- The trie after recording each path with its entry, in turn. -/
def insertEach (records : List (String × Nat)) : PathTrie :=
  records.foldl (fun trie r => (trie.insert r.1 r.2).1) {}

/-- What a trie knows of the records made in it. -/
structure Remembers (records : List (String × Nat)) (trie : PathTrie) : Prop where
  /-- The children stand in ascending order everywhere. -/
  ascending : trie.Ascending
  /-- Below each child lies a resource. -/
  pruned : trie.Pruned
  /-- The first record of a resource tells its owner. -/
  ownerAt : ∀ q, trie.ownerAt q = (records.find? fun r => segments r.1 = q).map Prod.snd
  /-- Each resource is counted once. -/
  size : trie.size = (records.map fun r => segments r.1).toFinset.card

theorem remembers_nil : Remembers [] {} :=
  ⟨ascending_empty, TrieNode.pruned_blank, ownerAt_empty, rfl⟩

namespace Remembers

variable {records : List (String × Nat)} {trie : PathTrie}

/-- A resource is known exactly if a record names it. -/
theorem isSome_ownerAt_iff (h : Remembers records trie) {q : List String} :
    (trie.ownerAt q).isSome ↔ ∃ r ∈ records, segments r.1 = q := by
  simp [h.ownerAt]

/-- A record is of a new resource exactly if none before it names the resource. -/
theorem insert_isNew_iff (h : Remembers records trie) (path : String) (entry : Nat) :
    (trie.insert path entry).2 = true ↔ ∀ r ∈ records, segments r.1 ≠ segments path := by
  have hknown := h.isSome_ownerAt_iff (q := segments path)
  rw [PathTrie.insert, owner?_eq_ownerAt]
  split
  · next hsome =>
    obtain ⟨r, hr, hpath⟩ := hknown.mp hsome
    exact iff_of_false (by simp) fun hnew => hnew r hr hpath
  · next hnone => exact iff_of_true rfl fun r hr hpath => hnone (hknown.mpr ⟨r, hr, hpath⟩)

theorem insert (h : Remembers records trie) (path : String) (entry : Nat) :
    Remembers (records ++ [(path, entry)]) (trie.insert path entry).1 where
  ascending := h.ascending.insert path entry
  pruned := h.pruned.insert h.ascending path entry
  ownerAt q := by
    rw [ownerAt_insert h.ascending, h.ownerAt, List.find?_append]
    by_cases hq : q = segments path
    · subst hq
      cases records.find? fun r => segments r.1 = segments path <;> simp
    · simp [hq, Ne.symm hq]
  size := by
    have hknown := h.isSome_ownerAt_iff (q := segments path)
    have hmem : segments path ∈ (records.map fun r => segments r.1).toFinset ↔
        (trie.ownerAt (segments path)).isSome := by
      simp [hknown]
    have hnew : ((records ++ [(path, entry)]).map fun r => segments r.1).toFinset =
        Insert.insert (segments path) (records.map fun r => segments r.1).toFinset := by
      simp
    rw [hnew, PathTrie.insert, owner?_eq_ownerAt]
    split
    · next hsome => rw [Finset.insert_eq_of_mem (hmem.mpr hsome), h.size]
    · next hnone => rw [Finset.card_insert_of_notMem (mt hmem.mp hnone), h.size]

/-- More records keep what is known. -/
theorem foldl (h : Remembers records trie) (more : List (String × Nat)) :
    Remembers (records ++ more) (more.foldl (fun trie r => (trie.insert r.1 r.2).1) trie) := by
  induction more generalizing records trie with
  | nil => simpa using h
  | cons r more ih => simpa using ih (h.insert r.1 r.2)

end Remembers

theorem remembers_insertEach (records : List (String × Nat)) :
    Remembers records (insertEach records) :=
  remembers_nil.foldl records

/-- After any records, a trie gives the answers of the finite map that binds each resource to the entry
of its first record. -/
theorem insertEach_answers (records : List (String × Nat)) :
    (∀ path, (insertEach records).owner? path =
        (records.find? fun r => segments r.1 = segments path).map Prod.snd) ∧
      (∀ path entry, ((insertEach records).insert path entry).2 = true ↔
        ∀ r ∈ records, segments r.1 ≠ segments path) ∧
      (insertEach records).size = (records.map fun r => segments r.1).toFinset.card ∧
      (∀ directory, ((insertEach records).filesIn directory).Pairwise (· < ·) ∧
        ∀ name, name ∈ (insertEach records).filesIn directory ↔
          ∃ r ∈ records, segments r.1 = segments directory ++ [name]) ∧
      ∀ directory, (insertEach records).hasBelow directory = true ↔
        ∃ r ∈ records, ∃ q, q ≠ [] ∧ segments r.1 = segments directory ++ q := by
  have h := remembers_insertEach records
  refine ⟨fun path => h.ownerAt _, h.insert_isNew_iff, h.size, fun directory => ⟨?_, fun name => ?_⟩,
    fun directory => ?_⟩
  · exact pairwise_filesIn h.ascending directory
  · rw [mem_filesIn h.ascending, h.isSome_ownerAt_iff]
  · rw [hasBelow_iff h.pruned h.ascending]
    simp only [h.isSome_ownerAt_iff]
    constructor
    · rintro ⟨q, hq, r, hr, hpath⟩
      exact ⟨r, hr, q, hq, hpath⟩
    · rintro ⟨r, hr, q, hq, hpath⟩
      exact ⟨q, hq, r, hr, hpath⟩

end PathTrie

end JavaSema
