import JavaSema.Text.Blank
import JavaSema.Text.Split

/-!
# Names and spans

Dotted names as written in source, packages, binary class names and byte spans.  A binary name puts
a dot between packages and a dollar sign between nesting levels: `java.util.Map$Entry`.
-/

namespace JavaSema

/-- A dotted name as written in source.  Whether a segment denotes a package or a type is open
until the name is resolved. -/
structure QualifiedName where
  /-- The identifiers, outermost first. -/
  segments : List String := []
deriving DecidableEq, Inhabited

namespace QualifiedName

/-- Reads a dotted name.  Segments are trimmed and empty ones are dropped. -/
def ofDotted (text : String) : QualifiedName :=
  ⟨((Text.split '.' text).map Text.trim).filter fun s => !s.isEmpty⟩

/-- The segments joined by dots. -/
def toDotted (q : QualifiedName) : String :=
  Text.join "." q.segments

/-- The name with one more segment at the end. -/
def push (q : QualifiedName) (segment : String) : QualifiedName :=
  ⟨q.segments ++ [segment]⟩

/-- Everything but the last segment, or `none` for the empty name. -/
def parent? (q : QualifiedName) : Option QualifiedName :=
  match q.segments with
  | [] => none
  | s :: rest => some ⟨(s :: rest).dropLast⟩

end QualifiedName

/-- A package name.  The unnamed package has no segment. -/
structure PackageName where
  /-- The dotted name of the package. -/
  path : QualifiedName := {}
deriving DecidableEq, Inhabited

namespace PackageName

/-- Reads a dotted package name. -/
def ofDotted (text : String) : PackageName :=
  ⟨.ofDotted text⟩

/-- Whether this is the unnamed package. -/
def isUnnamed (p : PackageName) : Bool :=
  p.path.segments.isEmpty

/-- The package name with dots. -/
def toDotted (p : PackageName) : String :=
  p.path.toDotted

/-- The binary name of a class declared in this package. -/
def qualify (p : PackageName) (simple : String) : String :=
  if p.isUnnamed then simple else p.toDotted ++ "." ++ simple

end PackageName

namespace BinaryName

/-- The package part of a binary name, empty for the unnamed package. -/
def package (name : String) : String :=
  match Text.splitLast? '.' name with
  | some (pkg, _) => pkg
  | none => ""

/-- The simple name of the innermost class. -/
def simple (name : String) : String :=
  Text.afterLast '$' (Text.afterLast '.' name)

/-- The binary name of a member class nested directly in `name`. -/
def nested (name member : String) : String :=
  name ++ "$" ++ member

/-- The path of the class file below a class path root. -/
def classFilePath (name : String) : String :=
  Text.replaceChar '.' '/' name ++ ".class"

end BinaryName

/-- The text that stands for an identifier in diagnostics. -/
def describeName (name : String) : String :=
  "Name(" ++ name ++ ")"

/-- A span of bytes of a source text, from `start` up to but not including `stop`. -/
structure Span where
  /-- The offset of the first byte. -/
  start : Nat := 0
  /-- The offset just past the last byte. -/
  stop : Nat := 0
deriving DecidableEq, Inhabited

namespace Span

/-- The number of bytes.  A reversed span has none. -/
def length (s : Span) : Nat := s.stop - s.start

/-- Whether the span holds no byte. -/
def isEmpty (s : Span) : Bool := s.stop ≤ s.start

/-- The smallest span that covers both. -/
def cover (s t : Span) : Span := ⟨min s.start t.start, max s.stop t.stop⟩

/-- Whether `s` comes before `t`: by start, then by end. -/
def before (s t : Span) : Bool :=
  s.start < t.start || (s.start == t.start && s.stop < t.stop)

/-- The text of a span in diagnostics. -/
def describe (s : Span) : String :=
  "Span(" ++ toString s.start ++ ".." ++ toString s.stop ++ ")"

end Span

end JavaSema
