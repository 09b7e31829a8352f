import JavaSema.Text.Split

/-!
# Paths

Paths are texts whose segments are divided by slashes.  A path that starts with a slash is absolute.
Empty segments and segments `.` other than a leading one say nothing.
-/

namespace JavaSema.Path

/-- Whether the path is given from the root. -/
def isAbsolute (path : String) : Bool := Text.startsWith "/" path

/-- The path of `child` as seen from `base`.  An absolute child stays as it is. -/
def join (base child : String) : String :=
  if isAbsolute child || base.isEmpty then child
  else if Text.endsWith "/" base then base ++ child
  else base ++ "/" ++ child

/-- A reversed path without the segments at its end that say nothing. -/
def trimTail : List Char → List Char
  | '/' :: rest => trimTail rest
  | '.' :: '/' :: rest => trimTail rest
  | s => s

/-- The last segment, unless it leads upwards or stays. -/
def fileName? (path : String) : Option String :=
  let name := String.ofList ((trimTail path.toList.reverse).takeWhile (· ≠ '/')).reverse
  if name.isEmpty || name == "." || name == ".." then none else some name

/-- What follows the last dot of the last segment, if something stands before that dot. -/
def extension? (path : String) : Option String := do
  let (stem, ext) ← Text.splitLast? '.' (← fileName? path)
  if stem.isEmpty then none else some ext

/-- The path without its last segment.  The empty path and the root have no parent. -/
def parent? (path : String) : Option String :=
  match trimTail path.toList.reverse with
  | [] => none
  | s =>
    let rest := trimTail (s.dropWhile (· ≠ '/'))
    some (if rest.isEmpty && isAbsolute path then "/" else String.ofList rest.reverse)

end JavaSema.Path
