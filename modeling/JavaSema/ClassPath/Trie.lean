import JavaSema.Text.Split

/-!
# Path tries

A `PathTrie` remembers for each resource path which entry of a class path was the first to list it.
Paths are compared by their segments: empty segments say nothing.

## Implementation notes

The children of a node are kept in ascending order of their names, so that what lies in a directory
comes out sorted.  An inner node that is no resource itself has no owner.
-/

namespace JavaSema

/-- A node of a path trie: the entry that owns the resource at this place, if there is one, and the
nodes one segment further. -/
inductive TrieNode where
  | node (owner : Option Nat) (children : List (String × TrieNode))

namespace TrieNode

/-- The node of a place below which nothing is known. -/
def blank : TrieNode := .node none []

/-- The entry that owns the resource at this place. -/
def owner : TrieNode → Option Nat
  | .node o _ => o

/-- The nodes one segment further, in ascending order of their names. -/
def children : TrieNode → List (String × TrieNode)
  | .node _ cs => cs

/-- Changes the child of that name.  A child that is not there yet starts out blank. -/
def adjust (name : String) (f : TrieNode → TrieNode) :
    List (String × TrieNode) → List (String × TrieNode)
  | [] => [(name, f blank)]
  | (n, c) :: rest =>
    if name < n then (name, f blank) :: (n, c) :: rest
    else if n = name then (n, f c) :: rest
    else (n, c) :: adjust name f rest

/-- Makes the entry the owner of the resource at the segments, unless it has an owner. -/
def insert (entry : Nat) : List String → TrieNode → TrieNode
  | [], .node o cs => .node (o.or (some entry)) cs
  | s :: rest, .node o cs => .node o (adjust s (insert entry rest) cs)

/-- The node at the segments. -/
def descend? : List String → TrieNode → Option TrieNode
  | [], n => some n
  | s :: rest, n => (n.children.lookup s).bind (descend? rest)

end TrieNode

/-- The resources listed so far, each with the first entry that listed it. -/
structure PathTrie where
  /-- The place at which all paths start. -/
  root : TrieNode := .blank
  /-- The number of resources. -/
  size : Nat := 0

namespace PathTrie

/-- The segments of a path that say something. -/
def segments (path : String) : List String :=
  (Text.split '/' path).filter fun s => !s.isEmpty

/-- The node at the path. -/
def descend? (trie : PathTrie) (path : String) : Option TrieNode :=
  trie.root.descend? (segments path)

/-- The entry that owns the resource. -/
def owner? (trie : PathTrie) (path : String) : Option Nat :=
  (trie.descend? path).bind TrieNode.owner

/-- Records that the entry lists the resource, and says whether the resource is new.  The first
entry stays the owner. -/
def insert (trie : PathTrie) (path : String) (entry : Nat) : PathTrie × Bool :=
  if (trie.owner? path).isSome then (trie, false)
  else (⟨trie.root.insert entry (segments path), trie.size + 1⟩, true)

/-- Records all resources that an entry lists. -/
def insertAll (trie : PathTrie) (paths : List String) (entry : Nat) : PathTrie :=
  paths.foldl (fun t path => (t.insert path entry).1) trie

/-- The names of the resources that lie directly in the directory, in ascending order. -/
def filesIn (trie : PathTrie) (directory : String) : List String :=
  match trie.descend? directory with
  | none => []
  | some n => (n.children.filter fun c => c.2.owner.isSome).map Prod.fst

/-- Whether a resource lies below the directory. -/
def hasBelow (trie : PathTrie) (directory : String) : Bool :=
  match trie.descend? directory with
  | none => false
  | some n => !n.children.isEmpty

end PathTrie

end JavaSema
