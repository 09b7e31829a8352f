import JavaSema.ClassPath.Trie

/-!
# What a path trie remembers

A trie is read through one view: which entry owns the resource at a list of segments.  Recording a
resource changes that view at its own segments only, and there only if nobody owns it yet.

There are three groups.

* Children.  `adjust` changes one child of an ascending list and leaves the others.
* Nodes.  `Ascending` says that the children stand in ascending order everywhere, which insertion
  keeps, and `ownerAt_insert` says what an insertion changes.
* Tries.  `ownerAt_insertAll` says who owns a resource once an entry has listed its paths, and
  `mem_filesIn` and `hasBelow_of_ownerAt` read listings off the owners.
-/

namespace JavaSema

namespace TrieNode

/-! ## Children -/

/-- The names of the children stand in ascending order. -/
def NamesAscend (cs : List (String × TrieNode)) : Prop := (cs.map Prod.fst).Pairwise (· < ·)

theorem namesAscend_cons {name : String} {c : TrieNode} {cs : List (String × TrieNode)} :
    NamesAscend ((name, c) :: cs) ↔ (∀ p ∈ cs, name < p.1) ∧ NamesAscend cs := by
  simp [NamesAscend]

theorem lookup_child (q n : String) (c : TrieNode) (cs : List (String × TrieNode)) :
    ((n, c) :: cs).lookup q = if q = n then some c else cs.lookup q := by
  by_cases hq : q = n <;> simp [List.lookup_cons, hq, beq_eq_false_iff_ne.mpr]

/-- A name below all names of the children is none of them. -/
theorem lookup_of_lt {name : String} {cs : List (String × TrieNode)} (h : ∀ p ∈ cs, name < p.1) :
    cs.lookup name = none := by
  induction cs with
  | nil => rfl
  | cons p cs ih =>
    obtain ⟨n, c⟩ := p
    have hlt : name < n := h (n, c) List.mem_cons_self
    have hne : name ≠ n := fun he => String.lt_irrefl n (he ▸ hlt)
    have hrest : cs.lookup name = none := ih fun q hq => h q (List.mem_cons_of_mem _ hq)
    rw [lookup_child, if_neg hne, hrest]

/-- Each child is found under its name. -/
theorem lookup_eq_some_iff {name : String} {c : TrieNode} {cs : List (String × TrieNode)}
    (h : NamesAscend cs) : cs.lookup name = some c ↔ (name, c) ∈ cs := by
  induction cs with
  | nil => simp
  | cons p cs ih =>
    obtain ⟨n, d⟩ := p
    obtain ⟨hfirst, hrest⟩ := namesAscend_cons.mp h
    rw [lookup_child, List.mem_cons, Prod.mk.injEq]
    by_cases hname : name = n
    · subst hname
      have hout : (name, c) ∉ cs := fun hmem => String.lt_irrefl name (hfirst _ hmem)
      simp [hout, eq_comm]
    · simp [hname, ih hrest]

/-- A name that is neither below nor equal to another one is above it. -/
theorem lt_of_not_lt {a b : String} (hlt : ¬ a < b) (hne : b ≠ a) : b < a := by
  by_cases h : b < a
  · exact h
  · exact absurd (String.le_antisymm (String.not_lt.mp hlt) (String.not_lt.mp h)) hne

theorem mem_adjust {name : String} {f : TrieNode → TrieNode} {cs : List (String × TrieNode)}
    {p : String × TrieNode} (h : p ∈ adjust name f cs) :
    p ∈ cs ∨ (p.1 = name ∧ ∃ c, p.2 = f c ∧ (c = blank ∨ (name, c) ∈ cs)) := by
  induction cs with
  | nil =>
    simp only [adjust, List.mem_singleton] at h
    exact .inr ⟨by rw [h], blank, by rw [h], .inl rfl⟩
  | cons q cs ih =>
    obtain ⟨n, c⟩ := q
    simp only [adjust] at h
    split at h
    · rcases List.mem_cons.mp h with rfl | h
      · exact .inr ⟨rfl, blank, rfl, .inl rfl⟩
      · exact .inl h
    · split at h
      · next heq =>
        rcases List.mem_cons.mp h with rfl | h
        · exact .inr ⟨heq, c, rfl, .inr (by simp [heq])⟩
        · exact .inl (List.mem_cons_of_mem _ h)
      · rcases List.mem_cons.mp h with rfl | h
        · exact .inl List.mem_cons_self
        · rcases ih h with hcs | ⟨hname, d, hd, hd'⟩
          · exact .inl (List.mem_cons_of_mem _ hcs)
          · exact .inr ⟨hname, d, hd, hd'.imp_right (List.mem_cons_of_mem _)⟩

theorem namesAscend_adjust (name : String) (f : TrieNode → TrieNode)
    {cs : List (String × TrieNode)} (h : NamesAscend cs) : NamesAscend (adjust name f cs) := by
  induction cs with
  | nil => simp [adjust, NamesAscend]
  | cons q cs ih =>
    obtain ⟨n, c⟩ := q
    obtain ⟨hfirst, hrest⟩ := namesAscend_cons.mp h
    simp only [adjust]
    split
    · next hlt =>
      rw [namesAscend_cons]
      refine ⟨fun p hp => ?_, h⟩
      rcases List.mem_cons.mp hp with rfl | hp
      · exact hlt
      · exact String.lt_trans hlt (hfirst p hp)
    · next hnlt =>
      split
      · exact namesAscend_cons.mpr ⟨hfirst, hrest⟩
      · next hne =>
        rw [namesAscend_cons]
        refine ⟨fun p hp => ?_, ih hrest⟩
        rcases mem_adjust hp with hp | ⟨hname, -⟩
        · exact hfirst p hp
        · rw [hname]
          exact lt_of_not_lt hnlt hne

theorem lookup_adjust (name : String) (f : TrieNode → TrieNode) {cs : List (String × TrieNode)}
    (h : NamesAscend cs) (q : String) :
    (adjust name f cs).lookup q =
      if q = name then some (f ((cs.lookup name).getD blank)) else cs.lookup q := by
  induction cs with
  | nil => simp [adjust, lookup_child]
  | cons p cs ih =>
    obtain ⟨n, c⟩ := p
    obtain ⟨hfirst, hrest⟩ := namesAscend_cons.mp h
    simp only [adjust]
    split
    · next hlt =>
      have hnone : ((n, c) :: cs).lookup name = none := by
        apply lookup_of_lt
        intro p hp
        rcases List.mem_cons.mp hp with rfl | hp
        · exact hlt
        · exact String.lt_trans hlt (hfirst p hp)
      rw [lookup_child, hnone, Option.getD_none]
    · split
      · next heq =>
        subst heq
        by_cases hq : q = n <;> simp [lookup_child, hq]
      · next hne =>
        have hname : name ≠ n := fun he => hne he.symm
        by_cases hq : q = n
        · subst hq
          simp [hne]
        · simp [lookup_child, hq, hname, ih hrest]

/-! ## Nodes -/

/-- The children stand in ascending order, at the node and below it. -/
inductive Ascending : TrieNode → Prop where
  | node {o : Option Nat} {cs : List (String × TrieNode)} (names : NamesAscend cs)
      (below : ∀ p ∈ cs, Ascending p.2) : Ascending (.node o cs)

theorem ascending_blank : Ascending blank := .node .nil (by simp)

theorem Ascending.insert {n : TrieNode} (h : Ascending n) (entry : Nat) (segments : List String) :
    Ascending (n.insert entry segments) := by
  induction segments generalizing n with
  | nil =>
    cases h with
    | node names below => exact .node names below
  | cons s rest ih =>
    cases h with
    | node names below =>
      refine .node (namesAscend_adjust s _ names) fun p hp => ?_
      rcases mem_adjust hp with hp | ⟨-, c, hc, hblank | hmem⟩
      · exact below p hp
      · rw [hc, hblank]
        exact ih ascending_blank
      · rw [hc]
        exact ih (below _ hmem)

/-- The entry that owns the resource at the segments. -/
def ownerAt (segments : List String) (n : TrieNode) : Option Nat :=
  (n.descend? segments).bind owner

theorem ownerAt_blank (segments : List String) : ownerAt segments blank = none := by
  cases segments <;> rfl

theorem ownerAt_cons (s : String) (rest : List String) (n : TrieNode) :
    ownerAt (s :: rest) n = ownerAt rest ((n.children.lookup s).getD blank) := by
  have hcons : ownerAt (s :: rest) n = ((n.children.lookup s).bind (descend? rest)).bind owner := rfl
  rw [hcons]
  cases n.children.lookup s with
  | none => exact (ownerAt_blank rest).symm
  | some c => rfl

theorem descend?_append (before after : List String) (n : TrieNode) :
    n.descend? (before ++ after) = (n.descend? before).bind (descend? after) := by
  induction before generalizing n with
  | nil => rfl
  | cons s before ih =>
    simp only [List.cons_append, descend?]
    cases n.children.lookup s with
    | none => rfl
    | some c => exact ih c

theorem ownerAt_append (before after : List String) (n : TrieNode) :
    ownerAt (before ++ after) n = (n.descend? before).bind (ownerAt after) := by
  rw [ownerAt, descend?_append, Option.bind_assoc]
  rfl

/-- What lies below an ascending node is ascending. -/
theorem Ascending.descend? {n below : TrieNode} (h : Ascending n) {segments : List String}
    (hbelow : n.descend? segments = some below) : Ascending below := by
  induction segments generalizing n with
  | nil =>
    obtain rfl := Option.some.inj hbelow
    exact h
  | cons s segments ih =>
    cases h with
    | node names children =>
      obtain ⟨c, hc, hrest⟩ := Option.bind_eq_some_iff.mp hbelow
      exact ih (children (s, c) ((lookup_eq_some_iff names).mp hc)) hrest

/-- An insertion gives the resource at its segments an owner, unless it has one. -/
theorem ownerAt_insert {n : TrieNode} (h : Ascending n) (entry : Nat) (segments q : List String) :
    ownerAt q (n.insert entry segments) =
      if q = segments then (ownerAt q n).or (some entry) else ownerAt q n := by
  induction segments generalizing n q with
  | nil =>
    obtain ⟨o, cs⟩ := n
    cases q with
    | nil => rfl
    | cons s q => rfl
  | cons s rest ih =>
    cases h with
    | @node o cs names below =>
      cases q with
      | nil => rfl
      | cons t q =>
        have hinsert : (TrieNode.insert entry (s :: rest) (.node o cs)).children
            = adjust s (TrieNode.insert entry rest) cs := rfl
        have hchildren : (TrieNode.node o cs).children = cs := rfl
        rw [ownerAt_cons, ownerAt_cons, hinsert, hchildren, lookup_adjust s _ names]
        by_cases ht : t = s
        · subst ht
          have hchild : Ascending ((cs.lookup t).getD blank) := by
            cases hl : cs.lookup t with
            | none => exact ascending_blank
            | some c =>
              obtain ⟨before, after, hcs, -⟩ := List.lookup_eq_some_iff.mp hl
              exact below (t, c) (by simp [hcs])
          simp [ih hchild q]
        · simp [ht]

end TrieNode

/-! ## Tries -/

namespace PathTrie

/-- The children stand in ascending order everywhere. -/
def Ascending (trie : PathTrie) : Prop := trie.root.Ascending

theorem ascending_empty : Ascending {} := TrieNode.ascending_blank

/-- The entry that owns the resource at the segments. -/
def ownerAt (trie : PathTrie) (segments : List String) : Option Nat := trie.root.ownerAt segments

theorem owner?_eq_ownerAt (trie : PathTrie) (path : String) :
    trie.owner? path = trie.ownerAt (segments path) := rfl

/-- A name stands in the listing of a directory if a resource in the directory has it. -/
theorem mem_filesIn {trie : PathTrie} (h : trie.Ascending) {directory name : String} :
    name ∈ trie.filesIn directory ↔ (trie.ownerAt (segments directory ++ [name])).isSome := by
  have hownerAt : trie.ownerAt (segments directory ++ [name])
      = (trie.descend? directory).bind (TrieNode.ownerAt [name]) :=
    TrieNode.ownerAt_append (segments directory) [name] trie.root
  rw [filesIn, hownerAt]
  cases hdescend : trie.descend? directory with
  | none => simp
  | some n =>
    cases TrieNode.Ascending.descend? h hdescend with
    | @node o cs names below =>
      have howner : TrieNode.ownerAt [name] (.node o cs) = (cs.lookup name).bind TrieNode.owner := by
        simp only [TrieNode.ownerAt, TrieNode.descend?, Option.bind_assoc]
        rfl
      simp only [TrieNode.children, List.mem_map, List.mem_filter, Option.bind_some, howner]
      constructor
      · rintro ⟨⟨n, c⟩, ⟨hmem, hc⟩, rfl⟩
        simpa [(TrieNode.lookup_eq_some_iff names).mpr hmem] using hc
      · intro hsome
        obtain ⟨i, hi⟩ := Option.isSome_iff_exists.mp hsome
        obtain ⟨c, hc, hi⟩ := Option.bind_eq_some_iff.mp hi
        exact ⟨(name, c), ⟨(TrieNode.lookup_eq_some_iff names).mp hc, by simp [hi]⟩, rfl⟩

/-- A directory with a resource somewhere below it is not empty. -/
theorem hasBelow_of_ownerAt {trie : PathTrie} {directory : String} {rest : List String}
    (hrest : rest ≠ []) (h : (trie.ownerAt (segments directory ++ rest)).isSome) :
    trie.hasBelow directory = true := by
  have hownerAt : trie.ownerAt (segments directory ++ rest)
      = (trie.descend? directory).bind (TrieNode.ownerAt rest) :=
    TrieNode.ownerAt_append (segments directory) rest trie.root
  rw [hownerAt] at h
  rw [hasBelow]
  cases hdescend : trie.descend? directory with
  | none => simp [hdescend] at h
  | some n =>
    cases rest with
    | nil => exact absurd rfl hrest
    | cons s rest =>
      obtain ⟨o, cs⟩ := n
      cases cs with
      | nil => simp [hdescend, TrieNode.ownerAt_cons, TrieNode.children, TrieNode.ownerAt_blank] at h
      | cons c cs => rfl

theorem ownerAt_empty (q : List String) : ownerAt {} q = none := TrieNode.ownerAt_blank q

theorem Ascending.insert {trie : PathTrie} (h : trie.Ascending) (path : String) (entry : Nat) :
    (trie.insert path entry).1.Ascending := by
  unfold PathTrie.insert
  split
  · exact h
  · exact TrieNode.Ascending.insert h entry _

theorem ownerAt_insert {trie : PathTrie} (h : trie.Ascending) (path : String) (entry : Nat)
    (q : List String) :
    (trie.insert path entry).1.ownerAt q =
      if q = segments path then (trie.ownerAt q).or (some entry) else trie.ownerAt q := by
  unfold PathTrie.insert
  split
  · next howned =>
    rw [owner?_eq_ownerAt] at howned
    by_cases hq : q = segments path
    · subst hq
      obtain ⟨owner, howner⟩ := Option.isSome_iff_exists.mp howned
      simp [howner]
    · simp [hq]
  · exact TrieNode.ownerAt_insert h entry _ q

theorem Ascending.insertAll {trie : PathTrie} (h : trie.Ascending) (paths : List String)
    (entry : Nat) : (trie.insertAll paths entry).Ascending := by
  induction paths generalizing trie with
  | nil => exact h
  | cons path paths ih => exact ih (h.insert path entry)

/-- An entry becomes the owner of the resources that it lists and nobody owned before. -/
theorem ownerAt_insertAll {trie : PathTrie} (h : trie.Ascending) (paths : List String)
    (entry : Nat) (q : List String) :
    (trie.insertAll paths entry).ownerAt q =
      if q ∈ paths.map segments then (trie.ownerAt q).or (some entry) else trie.ownerAt q := by
  induction paths generalizing trie with
  | nil => simp [PathTrie.insertAll]
  | cons path paths ih =>
    have hstep : trie.insertAll (path :: paths) entry
        = (trie.insert path entry).1.insertAll paths entry := rfl
    rw [hstep, ih (h.insert path entry), ownerAt_insert h]
    by_cases hq : q = segments path
    · subst hq
      by_cases hmem : segments path ∈ paths.map segments <;> simp [hmem]
    · simp [hq]

end PathTrie

end JavaSema
