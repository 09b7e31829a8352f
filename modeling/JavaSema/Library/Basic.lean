import JavaSema.ClassEnv.Basic
import JavaSema.Library.Function
import JavaSema.Library.Lang
import JavaSema.Library.Util

/-!
# The built-in library

A small part of the standard library, for programs that are analysed without a class path.
-/

namespace JavaSema.Library

/-- The outlines of the built-in classes. -/
def outlines : List ClassOutline := langClasses ++ utilClasses ++ functionClasses

/-- The built-in classes. -/
def table : ClassTable :=
  .ofList (outlines.filterMap fun o => o.define.toOption)

end JavaSema.Library
