/-!
# Splitting texts at a separator

Every function works on `List Char`, by recursion on the text, and has a form on `String` beside it.
-/

namespace JavaSema.Text

/-- The pieces between the separators.  There is always at least one piece. -/
def splitChars (sep : Char) : List Char → List (List Char)
  | [] => [[]]
  | c :: s =>
    if c = sep then [] :: splitChars sep s
    else
      match splitChars sep s with
      | [] => [[c]]
      | piece :: rest => (c :: piece) :: rest

@[simp] theorem splitChars_nil (sep : Char) : splitChars sep [] = [[]] := rfl

theorem splitChars_cons (sep c : Char) (s : List Char) :
    splitChars sep (c :: s) = if c = sep then [] :: splitChars sep s
      else match splitChars sep s with
        | [] => [[c]]
        | piece :: rest => (c :: piece) :: rest := rfl

/-- The pieces between the separators.  There is always at least one piece. -/
def split (sep : Char) (s : String) : List String :=
  (splitChars sep s.toList).map String.ofList

/-- The text before and the text after the first separator. -/
def splitFirstChars? (sep : Char) : List Char → Option (List Char × List Char)
  | [] => none
  | c :: s =>
    if c = sep then some ([], s)
    else (splitFirstChars? sep s).map fun (a, b) => (c :: a, b)

/-- The text before and the text after the first separator. -/
def splitFirst? (sep : Char) (s : String) : Option (String × String) :=
  (splitFirstChars? sep s.toList).map fun (a, b) => (String.ofList a, String.ofList b)

/-- The text before and the text after the last separator. -/
def splitLastChars? (sep : Char) : List Char → Option (List Char × List Char)
  | [] => none
  | c :: s =>
    match splitLastChars? sep s with
    | some (a, b) => some (c :: a, b)
    | none => if c = sep then some ([], s) else none

/-- The text before and the text after the last separator. -/
def splitLast? (sep : Char) (s : String) : Option (String × String) :=
  (splitLastChars? sep s.toList).map fun (a, b) => (String.ofList a, String.ofList b)

/-- The text after the last separator, or the whole text if there is none. -/
def afterLast (sep : Char) (s : String) : String :=
  match splitLast? sep s with
  | some (_, tail) => tail
  | none => s

/-- The text with each occurrence of one character replaced by another. -/
def replaceChar (old new : Char) (s : String) : String :=
  String.ofList (s.toList.map fun c => if c = old then new else c)

/-- The texts joined, with `sep` between neighbours. -/
def join (sep : String) : List String → String
  | [] => ""
  | [s] => s
  | s :: t :: rest => s ++ sep ++ join sep (t :: rest)

@[simp] theorem join_nil (sep : String) : join sep [] = "" := rfl

@[simp] theorem join_singleton (sep s : String) : join sep [s] = s := rfl

@[simp] theorem join_cons_cons (sep s t : String) (rest : List String) :
    join sep (s :: t :: rest) = s ++ sep ++ join sep (t :: rest) := rfl

/-- The rest of the text after `start`, if the text starts with it. -/
def stripStartChars? : List Char → List Char → Option (List Char)
  | [], s => some s
  | _ :: _, [] => none
  | p :: ps, c :: s => if p = c then stripStartChars? ps s else none

/-- The rest of the text after `start`, if the text starts with it. -/
def stripStart? (start s : String) : Option String :=
  (stripStartChars? start.toList s.toList).map String.ofList

/-- The text before `stop`, if the text ends with it. -/
def stripEnd? (stop s : String) : Option String :=
  (stripStartChars? stop.toList.reverse s.toList.reverse).map fun r => String.ofList r.reverse

/-- Whether the text starts with `start`. -/
def startsWith (start s : String) : Bool := (stripStart? start s).isSome

/-- Whether the text ends with `stop`. -/
def endsWith (stop s : String) : Bool := (stripEnd? stop s).isSome

/-- The texts in ascending order of code points. -/
def sortTexts (l : List String) : List String :=
  l.mergeSort fun a b => decide (a ≤ b)

/-- Inserts a text before the first one that is not below it. -/
def insertText (s : String) : List String → List String
  | [] => [s]
  | t :: rest => if s ≤ t then s :: t :: rest else t :: insertText s rest

theorem mem_insertText {r s : String} {l : List String} : r ∈ insertText s l ↔ r = s ∨ r ∈ l := by
  induction l with
  | nil => simp [insertText]
  | cons t rest ih =>
    rw [insertText]
    split
    · simp
    · rw [List.mem_cons, ih, List.mem_cons, or_left_comm]

/-- The texts in ascending order of code points, each inserted on its own. -/
def arrange (l : List String) : List String := l.foldr insertText []

theorem mem_arrange {r : String} {l : List String} : r ∈ arrange l ↔ r ∈ l := by
  induction l with
  | nil => exact Iff.rfl
  | cons s rest ih =>
    show r ∈ insertText s (arrange rest) ↔ r ∈ s :: rest
    rw [mem_insertText, ih, List.mem_cons]

/-- Drops each element that equals its predecessor. -/
def dedupAdjacent : List String → List String
  | [] => []
  | [s] => [s]
  | s :: t :: rest => if s = t then dedupAdjacent (t :: rest) else s :: dedupAdjacent (t :: rest)

end JavaSema.Text
