/-!
# Scanners

A scanner takes a value off the front of a text and gives the rest of the text.  Any scanner may
refuse, and what it had read is then read anew by the next alternative.
-/

namespace JavaSema.Toml

/-- A reader of the front of a text. -/
abbrev Scan := StateT (List Char) Option

namespace Scan

/-- Refuses. -/
def refuse {α : Type} : Scan α := fun _ => none

/-- The next character, if it is as wanted. -/
def satisfy (p : Char → Bool) : Scan Char
  | c :: s => if p c then some (c, s) else none
  | [] => none

/-- That character. -/
def char (c : Char) : Scan Unit := do discard (satisfy (· == c))

/-- That text. -/
def word : List Char → Scan Unit
  | [] => pure ()
  | c :: cs => do char c; word cs

/-- The characters up to the first one that is not as wanted. -/
def span (p : Char → Bool) : Scan (List Char) := fun s => some (s.takeWhile p, s.dropWhile p)

/-- The characters up to the first one that is not as wanted, at least one. -/
def span1 (p : Char → Bool) : Scan (List Char) := do
  let cs ← span p
  if cs.isEmpty then refuse else return cs

/-- What is ahead, which stays there. -/
def ahead : Scan (List Char) := get

/-- Whether the scanner would succeed.  Nothing is read. -/
def sees {α : Type} (p : Scan α) : Scan Bool := fun s => some ((p s).isSome, s)

/-- What the scanner reads, or nothing if it refuses. -/
def optional {α : Type} (p : Scan α) : Scan (Option α) := (some <$> p) <|> pure none

/-- What the scanner reads again and again, as often as the budget allows. -/
def manyUpTo {α : Type} (p : Scan α) : Nat → Scan (List α)
  | 0 => pure []
  | n + 1 => (do
      let a ← p
      return a :: (← manyUpTo p n)) <|> pure []

/-- What the scanner reads again and again.  It reads at least one character each time, so that the
number of characters is budget enough. -/
def many {α : Type} (p : Scan α) : Scan (List α) := do manyUpTo p (← ahead).length

/-- Items with separators between them, at least one. -/
def separated {α β : Type} (p : Scan α) (separator : Scan β) : Scan (List α) := do
  let a ← p
  return a :: (← many (do discard separator; p))

/-- Exactly that many characters, each as wanted. -/
def exactly (p : Char → Bool) : Nat → Scan (List Char)
  | 0 => pure []
  | n + 1 => do
    let c ← satisfy p
    return c :: (← exactly p n)

end Scan

/-! ### Blanks and comments -/

/-- Blanks within a line. -/
def blanks : Scan Unit := discard (Scan.span fun c => c == ' ' || c == '\t')

/-- The end of a line. -/
def newline : Scan Unit := Scan.word ['\n'] <|> Scan.word ['\r', '\n']

/-- Whether a character other than a tab may not stand in a text as it is. -/
def isControl (c : Char) : Bool := c.toNat < 0x20 || c.toNat == 0x7F

/-- Whether the character may stand in a comment or a text on one line. -/
def isPlain (c : Char) : Bool := c == '\t' || !isControl c

/-- A comment, up to the end of its line. -/
def comment : Scan Unit := do
  Scan.char '#'
  discard (Scan.span isPlain)

/-- Blanks, ends of lines and comments. -/
def space : Scan Unit := do
  blanks
  discard (Scan.many (do (newline <|> do comment; newline); blanks))

/-- The rest of a line that may hold only a comment, and its end. -/
def lineEnd : Scan Unit := do
  blanks
  discard (Scan.optional comment)
  if !(← Scan.ahead).isEmpty then newline

end JavaSema.Toml
