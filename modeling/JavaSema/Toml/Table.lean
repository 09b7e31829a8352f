import JavaSema.Toml.Value

/-!
# Tables under construction

Headers and dotted names add to tables step by step.  A table that was only passed through on the
way to another one may still get a header of its own; one that was defined by a header or by dotted
names may not be defined again the other way.
-/

namespace JavaSema.Toml

mutual

/-- What stands under a name of a table under construction. -/
inductive Item where
  /-- A value that is complete. -/
  | value (v : Value)
  /-- A table. -/
  | table (t : Table)
  /-- Tables that were given one by one. -/
  | tables (ts : List Table)

/-- A table under construction. -/
structure Table where
  /-- Whether the table was only passed through so far. -/
  isPassed : Bool
  /-- Whether the table was made by a dotted name. -/
  isDotted : Bool
  /-- What the table holds, in the order in which the names were first used. -/
  items : List (String × Item)

end

namespace Table

/-- A table with nothing in it. -/
def blank : Table := ⟨false, false, []⟩

/-- Puts an item under a name, in the place of the one that is there. -/
def put (name : String) (item : Item) (t : Table) : Table :=
  if (t.items.lookup name).isSome then
    { t with items := t.items.map fun p => if p.1 == name then (name, item) else p }
  else { t with items := t.items ++ [(name, item)] }

/-- Changes the table at the names, and makes the tables on the way that are not there.  A dotted
name may not enter a table that has a header. -/
def alter {β : Type} (dotted : Bool) (f : Table → Option (Table × β)) :
    List String → Table → Option (Table × β)
  | [], t => f t
  | name :: rest, t =>
    match t.items.lookup name with
    | none => do
      let (c, b) ← alter dotted f rest { isPassed := true, isDotted := dotted, items := [] }
      return (t.put name (.table c), b)
    | some (.value _) => none
    | some (.table c) => do
      if dotted && !c.isPassed then none
      let (c, b) ← alter dotted f rest c
      return (t.put name (.table c), b)
    | some (.tables ts) => do
      let (c, b) ← alter dotted f rest (← ts.getLast?)
      return (t.put name (.tables (ts.dropLast ++ [c])), b)

/-- Defines the value of a dotted name. -/
def define (path : List String) (name : String) (v : Value) (t : Table) : Option Table := do
  let add := fun (parent : Table) =>
    if parent.isDotted == path.isEmpty || (parent.items.lookup name).isSome then none
    else some (parent.put name (.value v), ())
  return (← alter true add path t).1

mutual

/-- The finished item. -/
def finishItem : Item → Value
  | .value v => v
  | .table t => finish t
  | .tables ts => .array (finishAll ts)

/-- The finished table. -/
def finish : Table → Value
  | ⟨_, _, items⟩ => .table (finishItems items)

/-- The finished tables. -/
def finishAll : List Table → List Value
  | [] => []
  | t :: ts => finish t :: finishAll ts

/-- The finished items of a table. -/
def finishItems : List (String × Item) → List (String × Value)
  | [] => []
  | (name, item) :: rest => (name, finishItem item) :: finishItems rest

end

end Table

/-- A document under construction: all tables but the one that is being filled, and that one with
the names that lead to it. -/
structure Draft where
  /-- The tables that are complete. -/
  root : Table := .blank
  /-- The table that is being filled. -/
  current : Table := .blank
  /-- The names that lead to it. -/
  path : List String := []
  /-- Whether it is one of several tables under its name. -/
  isElement : Bool := false

namespace Draft

/-- All tables, with the one that was being filled in its place. -/
def close (d : Draft) : Option Table :=
  match d.path.getLast? with
  | none => some d.current
  | some name => do
    let place := fun (parent : Table) =>
      if d.isElement then
        match parent.items.lookup name with
        | none => some (parent.put name (.tables [d.current]), ())
        | some (.tables ts) => some (parent.put name (.tables (ts ++ [d.current])), ())
        | _ => none
      else some (parent.put name (.table d.current), ())
    return (← d.root.alter false place d.path.dropLast).1

/-- Starts to fill the table of a header.  A table that was only passed through is taken up. -/
def openTable (path : List String) (d : Draft) : Option Draft := do
  let name ← path.getLast?
  let take := fun (parent : Table) =>
    let rest : Table := { parent with items := parent.items.filter fun p => p.1 != name }
    match parent.items.lookup name with
    | none => some (rest, Table.blank)
    | some (.table t) =>
      if t.isPassed && !t.isDotted then some (rest, { t with isPassed := false }) else none
    | _ => none
  let (root, current) ← (← d.close).alter false take path.dropLast
  return { root, current, path }

/-- Starts to fill one more of the tables under a name. -/
def openElement (path : List String) (d : Draft) : Option Draft := do
  let name ← path.getLast?
  let look := fun (parent : Table) =>
    match parent.items.lookup name with
    | none => some (parent.put name (.tables []), ())
    | some (.tables _) => some (parent, ())
    | _ => none
  let (root, _) ← (← d.close).alter false look path.dropLast
  return { root, path, isElement := true }

/-- Defines the value of a dotted name in the table that is being filled. -/
def define (path : List String) (name : String) (v : Value) (d : Draft) : Option Draft := do
  return { d with current := ← d.current.define path name v }

end Draft

end JavaSema.Toml
