import JavaSema.Text.Split

/-!
# Arguments of the command line

A command line is a command with options.  Most options may stand before or after the word for the
command; what stands after it wins.
-/

namespace JavaSema.CommandLine

/-- The options that all commands have. -/
structure Options where
  /-- The file with the settings. -/
  config : Option String := none
  /-- Further entries of the class path, where colons divide entries. -/
  classPath : List String := []
  /-- The level of the log. -/
  logLevel : Option String := none
  /-- Whether the report is JSON. -/
  json : Bool := false
deriving DecidableEq, Inhabited

/-- What the program is asked to do. -/
inductive Command where
  /-- Find the class file of a class. -/
  | find (name : String)
  /-- List the resources of a package. -/
  | list (package : String)
  /-- Report on a class, which may come from the built-in library. -/
  | inspect (name : String) (withLibrary : Bool)
deriving DecidableEq, Inhabited

/-- What a command line asks for. -/
inductive Request where
  /-- A command. -/
  | run (options : Options) (command : Command)
  /-- The text that explains the program. -/
  | help
  /-- The version of the program. -/
  | version
deriving DecidableEq, Inhabited

/-- The words for commands. -/
inductive Verb where
  | find
  | ls
  | «class»
deriving DecidableEq, Inhabited

/-- The command that a word stands for. -/
def Verb.ofWord? : String → Option Verb
  | "find" => some .find
  | "ls" => some .ls
  | "class" => some .class
  | _ => none

/-- How reading stops early. -/
inductive Stop where
  /-- The arguments make no sense. -/
  | misuse
  /-- Help is asked for. -/
  | help
  /-- The version is asked for. -/
  | version
deriving DecidableEq, Inhabited

/-- What was given on one side of the word for the command. -/
structure Given where
  /-- The options. -/
  options : Options := {}
  /-- Whether the built-in library is left out. -/
  noLibrary : Bool := false
  /-- The word that is no option. -/
  word : Option String := none
deriving DecidableEq, Inhabited

namespace Given

/-- The options that take a value. -/
def valueOptions : List String := ["config", "classpath", "cp", "log-level"]

/-- Adds an option with a value.  Only entries of the class path may be given more than once, and the
file with the settings needs a name. -/
def addValue (option value : String) (g : Given) : Except Stop Given :=
  let o := g.options
  match option with
  | "config" =>
    if o.config.isSome || value.isEmpty then .error .misuse
    else .ok { g with options := { o with config := value } }
  | "classpath" | "cp" => .ok { g with options := { o with classPath := o.classPath ++ [value] } }
  | "log-level" =>
    if o.logLevel.isSome then .error .misuse
    else .ok { g with options := { o with logLevel := value } }
  | _ => .error .misuse

/-- Adds an option without a value.  Each may be given once. -/
def addFlag (verb : Option Verb) (option : String) (g : Given) : Except Stop Given :=
  match option with
  | "json" =>
    if g.options.json then .error .misuse
    else .ok { g with options := { g.options with json := true } }
  | "no-jdk-model" =>
    if g.noLibrary || verb != some .class then .error .misuse else .ok { g with noLibrary := true }
  | "help" => .error .help
  | "version" => if verb.isNone then .error .version else .error .misuse
  | _ => .error .misuse

/-- Adds a word that is no option.  There may be one. -/
def addWord (word : String) (g : Given) : Except Stop Given :=
  if g.word.isSome then .error .misuse else .ok { g with word }

end Given

/-- What was read so far: what stands before the word for the command, the command, and what stands
after the word. -/
structure Progress where
  /-- What stands before the word. -/
  front : Given := {}
  /-- The command. -/
  verb : Option Verb := none
  /-- What stands after the word. -/
  back : Given := {}
deriving DecidableEq, Inhabited

namespace Progress

/-- Adds to the side that is being read. -/
def add (p : Progress) (f : Given → Except Stop Given) : Except Stop Progress :=
  match p.verb with
  | none => (f p.front).map fun front => { p with front }
  | some _ => (f p.back).map fun back => { p with back }

/-- Adds an option of one letter. -/
def addLetter (p : Progress) (letter : Char) : Stop :=
  if letter = 'h' then .help
  else if letter = 'V' && p.verb.isNone then .version
  else .misuse

/-- Adds a word that is no option.  The first one is the word for the command. -/
def addWord (p : Progress) (word : String) : Except Stop Progress :=
  match p.verb with
  | some _ => p.add (Given.addWord word)
  | none =>
    match Verb.ofWord? word with
    | some verb => .ok { p with verb }
    | none => .error .misuse

/-- Whether words ask for help on commands. -/
def asksHelp (p : Progress) (word : String) (rest : List String) : Bool :=
  p.verb.isNone && word == "help"
    && rest.all fun w => w == "help" || (Verb.ofWord? w).isSome

end Progress

/-- Reads the arguments. -/
def read : List String → Progress → Except Stop Progress
  | [], p => .ok p
  | "--" :: rest, p =>
    if p.verb.isNone then .error .misuse
    else rest.foldlM (fun p word => p.addWord word) p
  | arg :: rest, p =>
    match Text.stripStart? "--" arg with
    | some option =>
      match Text.splitFirst? '=' option with
      | some (option, value) => (p.add (Given.addValue option value)).bind (read rest)
      | none =>
        if Given.valueOptions.contains option then
          match rest with
          | [] => .error .misuse
          | value :: rest =>
            if Text.startsWith "-" value && value ≠ "-" then .error .misuse
            else (p.add (Given.addValue option value)).bind (read rest)
        else (p.add (Given.addFlag p.verb option)).bind (read rest)
    | none =>
      match arg.toList with
      | '-' :: letter :: _ => .error (p.addLetter letter)
      | _ =>
        if p.asksHelp arg rest then .error .help else (p.addWord arg).bind (read rest)

/-- The command that a word and what follows it make up. -/
def command (verb : Verb) (g : Given) : Except Stop Command :=
  match verb, g.word with
  | .find, some name => .ok (.find name)
  | .ls, package => .ok (.list (package.getD ""))
  | .class, some name => .ok (.inspect name (!g.noLibrary))
  | _, none => .error .misuse

/-- The options of both sides of the word for the command.  What stands after it wins. -/
def Options.merge (front back : Options) : Options where
  config := back.config.or front.config
  classPath := if back.classPath.isEmpty then front.classPath else back.classPath
  logLevel := back.logLevel.or front.logLevel
  json := front.json || back.json

/-- The options and the command that the arguments ask for. -/
def parseCommand (args : List String) : Except Stop (Options × Command) := do
  let p ← read args {}
  match p.verb with
  | some verb => return (p.front.options.merge p.back.options, ← command verb p.back)
  | none => throw .misuse

/-- What the arguments ask for, or `none` if they make no sense. -/
def Request.parse? (args : List String) : Option Request :=
  match parseCommand args with
  | .ok (options, command) => some (.run options command)
  | .error .help => some .help
  | .error .version => some .version
  | .error .misuse => none

end JavaSema.CommandLine
