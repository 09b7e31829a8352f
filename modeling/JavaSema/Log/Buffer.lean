/-!
# Log buffers

A log buffer keeps the last lines that were pushed.
-/

namespace JavaSema

/-- The last lines of a log, at most as many as the capacity. -/
structure LogBuffer where
  /-- The number of lines that are kept. -/
  capacity : Nat
  /-- The lines, the oldest one first. -/
  lines : List String := []
deriving DecidableEq, Inhabited

namespace LogBuffer

/-- A buffer without lines.  It keeps at least one line. -/
def ofCapacity (capacity : Nat) : LogBuffer := { capacity := max capacity 1 }

/-- Adds a line, in place of the oldest one if the buffer is full. -/
def push (b : LogBuffer) (line : String) : LogBuffer :=
  { b with lines := (if b.lines.length = b.capacity then b.lines.drop 1 else b.lines) ++ [line] }

/-- The last `n` lines, or all if there are fewer. -/
def last (b : LogBuffer) (n : Nat) : List String := b.lines.drop (b.lines.length - n)

end LogBuffer

end JavaSema
