import JavaSema.Log.FieldMatch
import JavaSema.Text.Blank
import JavaSema.Text.Letter
import JavaSema.Text.Split

/-!
# Log filters

A log filter is a list of directives, each of which sets the level of what it applies to:
everything, a target, or spans with a name or with fields.  Directives are written
`target[span{field=value}]=level` and divided by commas.
-/

namespace JavaSema

/-- How much is logged. -/
inductive LogLevel where
  | off
  | error
  | warn
  | info
  | debug
  | trace
deriving DecidableEq, Inhabited

namespace LogLevel

/-- All levels, from nothing to everything.  Each also has its place in this list as its number. -/
def all : List LogLevel := [.off, .error, .warn, .info, .debug, .trace]

/-- The word for a level. -/
def word : LogLevel → String
  | .off => "off"
  | .error => "error"
  | .warn => "warn"
  | .info => "info"
  | .debug => "debug"
  | .trace => "trace"

/-- The level that a word or a number stands for, in any case of letters. -/
def parse? (s : String) : Option LogLevel :=
  match (FieldValue.natural? s).bind fun n => all[n]? with
  | some level => some level
  | none => if s.isEmpty then some .error else all.find? fun level => level.word == s.toLower

end LogLevel

/-- One rule of a log filter. -/
structure Directive where
  /-- The target that the rule applies to. -/
  target : Option String := none
  /-- The name of the spans that it applies to. -/
  span : Option String := none
  /-- What it asks of the fields of spans. -/
  fields : List FieldMatch := []
  /-- The level that it sets. -/
  level : LogLevel := .trace
deriving DecidableEq, Inhabited

namespace Directive

/-- How far a directive is read, with the positions in bytes at which parts started. -/
inductive Stage where
  | start
  | levelOrTarget (start : Nat)
  | span (start : Nat)
  | field (start : Nat)
  | fields
  | target
  | level (start : Nat)
deriving DecidableEq, Inhabited

/-- The characters before a position in bytes. -/
def takeBytes : Nat → List Char → List Char
  | 0, _ => []
  | _, [] => []
  | n, c :: s => c :: takeBytes (n - c.utf8Size) s

/-- The characters from a position in bytes on. -/
def dropBytes : Nat → List Char → List Char
  | 0, s => s
  | _, [] => []
  | n, c :: s => dropBytes (n - c.utf8Size) s

/-- The part of the text between two positions in bytes. -/
def part (source : List Char) (start stop : Nat) : String :=
  String.ofList (dropBytes start (takeBytes stop source))

/-- Whether a directive may start with the character. -/
def isFirst (c : Char) : Bool := c == '-' || c == ':' || c == '_' || Text.isLetterOrNumber c

/-- Reads the character at position `i`. -/
def step (source : List Char) (i : Nat) (c : Char) : Stage × Directive → Option (Stage × Directive)
  | (.start, d) =>
    if c = '[' then some (.span (i + 1), d)
    else if isFirst c then some (.levelOrTarget i, d)
    else none
  | (.levelOrTarget start, d) =>
    let named := { d with target := some (part source start i) }
    if c = '=' then some (.level (i + 1), named)
    else if c = '[' then some (.span (i + 1), named)
    else some (.levelOrTarget start, d)
  | (.target, d) => if c = '=' then some (.level (i + 1), d) else none
  | (.span start, d) =>
    let name := part source start i
    if c = ']' then some (.target, { d with span := some name })
    else if c = '\x7b' then
      some (.field (i + 1), { d with span := if name.isEmpty then none else some name })
    else some (.span start, d)
  | (.field start, d) =>
    if c = '\x7d' then
      let s := part source start i
      if s.isEmpty then none
      else (FieldMatch.parse? s).map fun f => (.fields, { d with fields := d.fields ++ [f] })
    else some (.field start, d)
  | (.fields, d) => if c = ']' then some (.target, d) else none
  | (.level start, d) => some (.level start, d)

/-- Reads the characters from position `i` on. -/
def steps (source : List Char) : Nat → List Char → Stage × Directive → Option (Stage × Directive)
  | _, [], s => some s
  | i, c :: rest, s => (step source i c s).bind (steps source (i + c.utf8Size) rest)

/-- Reads a directive.  A word alone is a level, or else a target of which everything is logged.
Positions are counted without the blanks around the text, but parts are cut from the whole text. -/
def parse? (s : String) : Option Directive := do
  let source := s.toList
  let tail := fun start => String.ofList (dropBytes start source)
  match ← steps source 0 (Text.trimChars source) (.start, {}) with
  | (.levelOrTarget start, d) =>
    match LogLevel.parse? (tail start) with
    | some level => return { d with level, target := none }
    | none => return { d with target := some (tail start) }
  | (.level start, d) =>
    if (tail start).isEmpty then return d
    else return { d with level := ← LogLevel.parse? (tail start) }
  | (.target, d) => return d
  | _ => none

/-- Whether the directive asks something of spans. -/
def isDynamic (d : Directive) : Bool := d.span.isSome || !d.fields.isEmpty

/-- The part of the directive that needs no span to be known, if it has one. -/
def static? (d : Directive) : Option Directive :=
  if d.span.isSome || d.fields.any fun f => f.value.isSome then none else some d

/-- Whether two directives apply to the same. -/
def sameScope (d e : Directive) : Bool :=
  d.target == e.target && d.span == e.span && d.fields.length == e.fields.length
    && (d.fields.zip e.fields).all fun (f, g) => f.same g

/-- The written form. -/
def text (d : Directive) : String :=
  let fields :=
    if d.fields.isEmpty then ""
    else "\x7b" ++ Text.join "," (d.fields.map FieldMatch.text) ++ "\x7d"
  let spans := if d.isDynamic then "[" ++ d.span.getD "" ++ fields ++ "]" else ""
  let scope := d.target.getD "" ++ spans
  if d.target.isNone && spans.isEmpty then d.level.word else scope ++ "=" ++ d.level.word

end Directive

/-- Directives of which no two apply to the same: those that need no span to be known, and those
that ask something of spans. -/
structure LogFilter where
  /-- The directives that need no span to be known. -/
  statics : List Directive := []
  /-- The directives that ask something of spans. -/
  dynamics : List Directive := []
deriving DecidableEq, Inhabited

namespace LogFilter

/-- Adds a directive, in place of one that applies to the same. -/
def put (l : List Directive) (d : Directive) : List Directive :=
  l.filter (fun e => !d.sameScope e) ++ [d]

/-- The filter of directives, where a later one replaces an earlier one that applies to the same. -/
def ofDirectives (l : List Directive) : LogFilter :=
  let dynamics := l.filter Directive.isDynamic
  let statics := (l.filter (fun d => !d.isDynamic)) ++ dynamics.filterMap Directive.static?
  { statics := statics.foldl put [], dynamics := dynamics.foldl put [] }

/-- Reads directives that are divided by commas. -/
def parse? (s : String) : Option LogFilter :=
  (((Text.split ',' s).filter fun p => !p.isEmpty).mapM Directive.parse?).map ofDirectives

/-- The level that is meant if none is given. -/
def defaultLevel : String := "info"

/-- The directives in a setting.  One word for a level may be written in any case. -/
def normalize (level : String) : String :=
  let level := Text.trim level
  let lower := level.toLower
  if level.isEmpty then defaultLevel
  else if ["trace", "debug", "info", "warn", "error"].contains lower then lower
  else if lower == "warning" then "warn"
  else level

/-- The filter in a setting, or the default level if it cannot be read. -/
def ofLevel (level : String) : LogFilter :=
  (parse? (normalize level)).getD (ofDirectives [{ level := .info }])

/-- The filter in a setting together with directives from the surroundings of the program, which
win.  If the two cannot be read together, the surroundings alone count, and then the setting. -/
def ofLevelAnd (level : String) (surroundings : Option String) : LogFilter :=
  match (surroundings.map Text.trim).filter fun s => !s.isEmpty with
  | none => ofLevel level
  | some s =>
    (parse? (normalize level ++ "," ++ s)).getD ((parse? s).getD (ofLevel level))

/-- The written form: those of all directives, with commas between them. -/
def text (f : LogFilter) : String := Text.join "," ((f.statics ++ f.dynamics).map Directive.text)

end LogFilter

end JavaSema
