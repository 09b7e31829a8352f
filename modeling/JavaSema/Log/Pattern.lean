import JavaSema.Text.Blank
import JavaSema.Text.Letter
import JavaSema.Text.Split

/-!
# Patterns of field values

A log filter may ask that a field of a span has a value of some form, which is given by a regular
expression.  Here only its syntax matters: `isValid` says whether a text is a regular expression
that can be matched by an automaton over valid texts.  So there are no references to groups, no
looking ahead or behind, and no boundaries of words other than those of ASCII.

A closing brace never stands in the text of a field, so whatever needs one cannot be complete.
-/

namespace JavaSema.Pattern

/-- What holds for a part of a pattern. -/
structure Options where
  /-- Whether classes hold characters of all scripts.  Otherwise they hold single bytes. -/
  isUnicode : Bool := true
  /-- Whether blanks and comments are passed over. -/
  isSpaced : Bool := false
deriving DecidableEq, Inhabited

/-! ### Escapes -/

/-- What an escape stands for. -/
inductive Atom where
  /-- A character or byte. -/
  | literal (code : Nat)
  /-- A class of characters. -/
  | set
  /-- A position. -/
  | position
deriving DecidableEq, Inhabited

/-- The value of a hexadecimal digit. -/
def hexDigit? (c : Char) : Option Nat :=
  if c.isDigit then some (c.toNat - '0'.toNat)
  else if 'a' ≤ c && c ≤ 'f' then some (c.toNat - 'a'.toNat + 10)
  else if 'A' ≤ c && c ≤ 'F' then some (c.toNat - 'A'.toNat + 10)
  else none

/-- The number in hexadecimal digits. -/
def hexNumber? (cs : List Char) : Option Nat :=
  (cs.mapM hexDigit?).map fun ds => ds.foldl (fun n d => n * 16 + d) 0

/-- A character given by so many hexadecimal digits, and the rest of the text. -/
def hexCode? (width : Nat) (s : List Char) : Option (Nat × List Char) := do
  if s.length < width then failure
  let n ← hexNumber? (s.take width)
  if n.isValidChar then return (n, s.drop width) else failure

/-- The letters of general categories. -/
def categories : List Char := ['c', 'l', 'm', 'n', 'p', 's', 'z']

/-- Reads what follows a backslash. -/
def escape? (o : Options) : List Char → Option (Atom × List Char)
  | [] => none
  | 'x' :: s => do
    let (n, rest) ← hexCode? 2 s
    if !o.isUnicode && 0x80 ≤ n then failure else return (.literal n, rest)
  | 'u' :: s => (hexCode? 4 s).map fun (n, rest) => (.literal n, rest)
  | 'U' :: s => (hexCode? 8 s).map fun (n, rest) => (.literal n, rest)
  | c :: s =>
    if c = 'p' ∨ c = 'P' then
      match s with
      | k :: rest =>
        if o.isUnicode && categories.contains k.toLower then some (.set, rest) else none
      | [] => none
    else if ['d', 's', 'w'].contains c then some (.set, s)
    else if ['D', 'S', 'W'].contains c then if o.isUnicode then some (.set, s) else none
    else if c = 'A' ∨ c = 'z' then some (.position, s)
    else if ['b', 'B', '<', '>'].contains c then if o.isUnicode then none else some (.position, s)
    else if c = 'a' then some (.literal 0x07, s)
    else if c = 'f' then some (.literal 0x0C, s)
    else if c = 't' then some (.literal 0x09, s)
    else if c = 'n' then some (.literal 0x0A, s)
    else if c = 'r' then some (.literal 0x0D, s)
    else if c = 'v' then some (.literal 0x0B, s)
    else if c.toNat < 128 && !c.isAlphanum then some (.literal c.toNat, s)
    else none

/-! ### Classes -/

/-- Passes over blanks, and comments up to the end of their lines, if the options say so. -/
def skipBlanks (o : Options) (s : List Char) : List Char := go o.isSpaced false s
where
  /-- Passes over a comment, or blanks. -/
  go : Bool → Bool → List Char → List Char
    | false, _, s => s
    | true, _, [] => []
    | true, true, c :: s => go true (c != '\n') s
    | true, false, c :: s =>
      if Text.isBlank c then go true false s else if c = '#' then go true true s else c :: s

/-- The names of classes of ASCII characters. -/
def asciiClasses : List String :=
  ["alnum", "alpha", "ascii", "blank", "cntrl", "digit", "graph", "lower", "print", "punct",
    "space", "upper", "word", "xdigit"]

/-- Reads a class of ASCII characters from after its bracket: whether it is a complement, and the
rest of the text. -/
def asciiClass? (s : List Char) : Option (Bool × List Char) := do
  let s ← Text.stripStartChars? [':'] s
  let (isComplement, s) :=
    match s with
    | '^' :: rest => (true, rest)
    | _ => (false, s)
  let (name, rest) ← Text.splitFirstChars? ':' s
  let rest ← Text.stripStartChars? [']'] rest
  if asciiClasses.contains (String.ofList name) then return (isComplement, rest) else failure

/-- One end of a range, or a single member of a class. -/
def member? (o : Options) : List Char → Option (Atom × List Char)
  | [] => none
  | '\\' :: s => escape? o s
  | c :: s => some (.literal c.toNat, s)

/-- Whether the member can stand in a class. -/
def Atom.isMember (o : Options) : Atom → Bool
  | .literal n => o.isUnicode || n < 0x80
  | .set => true
  | .position => false

/-- Reads a member of a class or a range of characters. -/
def memberOrRange? (o : Options) (s : List Char) : Option (List Char) := do
  let (low, rest) ← member? o s
  let single := if low.isMember o then some rest else none
  match skipBlanks o rest with
  | '-' :: after =>
    match skipBlanks o after with
    | [] => failure
    | ']' :: _ => single
    | '-' :: _ => single
    | after =>
      let (high, rest) ← member? o after
      match low, high with
      | .literal m, .literal n =>
        if low.isMember o && high.isMember o && m ≤ n then return rest else failure
      | _, _ => failure
  | _ => single

/-- Reads the start of a class from after its bracket.  Hyphens, or a closing bracket, that come
first are members. -/
def classStart? (o : Options) (s : List Char) : Option (List Char) := do
  let s := skipBlanks o s
  let s ←
    match s with
    | '^' :: rest => if o.isUnicode then some (skipBlanks o rest) else none
    | _ => some s
  match s with
  | ']' :: rest => return rest
  | _ => return s.dropWhile (· == '-')

/-- Reads a class from after its start, inside so many brackets. -/
def classEnd? (o : Options) : Nat → Nat → List Char → Option (List Char)
  | 0, _, _ => none
  | fuel + 1, depth, s =>
    match skipBlanks o s with
    | [] => none
    | '[' :: s =>
      match asciiClass? s with
      | some (isComplement, rest) =>
        if isComplement && !o.isUnicode then none else classEnd? o fuel depth rest
      | none => (classStart? o s).bind (classEnd? o fuel (depth + 1))
    | ']' :: s => if depth = 0 then some s else classEnd? o fuel (depth - 1) s
    | '&' :: '&' :: s => classEnd? o fuel depth s
    | '-' :: '-' :: s => classEnd? o fuel depth s
    | '~' :: '~' :: s => classEnd? o fuel depth s
    | s => (memberOrRange? o s).bind (classEnd? o fuel depth)

/-- Reads a class from after its bracket. -/
def class? (o : Options) (s : List Char) : Option (List Char) :=
  (classStart? o s).bind (classEnd? o (s.length + 1) 0)

/-! ### Groups -/

/-- How far a pattern is read. -/
structure Progress where
  /-- What holds here. -/
  options : Options := {}
  /-- What holds again after each open group. -/
  groups : List Options := []
  /-- The names of groups. -/
  names : List String := []
  /-- Whether there is something that can be repeated. -/
  isRepeatable : Bool := false
deriving DecidableEq, Inhabited

/-- Reads the letters of options up to a colon or a closing parenthesis.  Each may stand once, and
those after a hyphen are switched off. -/
def optionLetters? (o : Options) (seen : List Char) :
    List Char → Option (Options × List Char × List Char)
  | [] => none
  | c :: s =>
    if c = ':' ∨ c = ')' then if seen.head? = some '-' then none else some (o, seen, c :: s)
    else if seen.contains c then none
    else
      let isOn := !seen.contains '-'
      if c = '-' then optionLetters? o (c :: seen) s
      else if c = 'u' then optionLetters? { o with isUnicode := isOn } (c :: seen) s
      else if c = 'x' then optionLetters? { o with isSpaced := isOn } (c :: seen) s
      else if ['i', 'm', 's', 'U', 'R'].contains c then optionLetters? o (c :: seen) s
      else none

/-- Whether the text is a name for a group. -/
def isGroupName : List Char → Bool
  | [] => false
  | c :: s =>
    (c == '_' || Text.isLetterOrNumber c && !c.isDigit)
      && s.all fun c => ['_', '.', '[', ']'].contains c || Text.isLetterOrNumber c

/-- Opens a group. -/
def Progress.openGroup (p : Progress) (o : Options) : Progress :=
  { p with options := o, groups := p.options :: p.groups, isRepeatable := false }

/-- Opens a group with a name. -/
def openNamed? (p : Progress) (s : List Char) : Option (Progress × List Char) := do
  let (name, rest) ← Text.splitFirstChars? '>' s
  let text := String.ofList name
  if isGroupName name && !p.names.contains text then
    return ({ p with names := text :: p.names }.openGroup p.options, rest)
  else failure

/-- Reads the start of a group, or options for the rest of a group, from after the parenthesis. -/
def groupStart? (p : Progress) (s : List Char) : Option (Progress × List Char) :=
  match skipBlanks p.options s with
  | '?' :: 'P' :: '<' :: rest => openNamed? p rest
  | '?' :: '<' :: rest => openNamed? p rest
  | '?' :: rest => do
    match ← optionLetters? p.options [] rest with
    | (o, _, ':' :: rest) => return (p.openGroup o, rest)
    | (_, [], _) => failure
    | (o, _, rest) => return ({ p with options := o, isRepeatable := false }, rest.drop 1)
  | rest => some (p.openGroup p.options, rest)

/-! ### Patterns -/

/-- Reads the rest of a pattern. -/
def isRest : Nat → Progress → List Char → Bool
  | 0, _, _ => false
  | fuel + 1, p, s =>
    let item := { p with isRepeatable := true }
    match skipBlanks p.options s with
    | [] => p.groups.isEmpty
    | '(' :: s =>
      match groupStart? p s with
      | some (p, rest) => isRest fuel p rest
      | none => false
    | ')' :: s =>
      match p.groups with
      | o :: groups => isRest fuel { item with options := o, groups } s
      | [] => false
    | '|' :: s => isRest fuel { p with isRepeatable := false } s
    | '[' :: s =>
      match class? p.options s with
      | some rest => isRest fuel item rest
      | none => false
    | '\\' :: s =>
      match escape? p.options s with
      | some (_, rest) => isRest fuel item rest
      | none => false
    | '\x7b' :: _ => false
    | '.' :: s => p.options.isUnicode && isRest fuel item s
    | c :: s =>
      if c = '*' ∨ c = '+' ∨ c = '?' then
        p.isRepeatable && isRest fuel p (if s.head? = some '?' then s.drop 1 else s)
      else isRest fuel item s

/-- Whether the text is a pattern. -/
def isValid (s : String) : Bool := isRest (s.length + 1) {} s.toList

end JavaSema.Pattern
