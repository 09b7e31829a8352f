import JavaSema.ClassEnv.Basic

/-!
# Canonical names

A canonical name writes a dot between a class and its member.  Loading one tries every way to split
it into a package and nested classes, the fewest nested classes first.
-/

namespace JavaSema

/-- The binary name whose first `split` segments are joined by dots, the others by dollar signs. -/
def binaryOfSplit (segments : List String) (split : Nat) : String :=
  (segments.drop split).foldl BinaryName.nested (Text.join "." (segments.take split))

namespace ClassEnv

/-- Tries the splits from `split` segments down to one.  A class that cannot be read ends the
search. -/
def loadSplit (env : ClassEnv) (segments : List String) : Nat → Option String
  | 0 => none
  | split + 1 =>
    match env.load (binaryOfSplit segments (split + 1)) with
    | .ok d => some d.name
    | .error (.malformed _ _) => none
    | .error _ => loadSplit env segments split

/-- The binary name of the class with that canonical name. -/
def loadCanonical (env : ClassEnv) (dotted : String) : Option String :=
  let segments := (Text.split '.' dotted).filter fun s => !s.isEmpty
  env.loadSplit segments segments.length

end ClassEnv

end JavaSema
