import JavaSema.ClassPath.Loader
import JavaSema.CommandLine.Args
import JavaSema.CommandLine.Report
import JavaSema.Library.Basic
import JavaSema.Settings.Basic

/-!
# The command line

The commands find class files, list packages and report on classes.  `CommandLine.run` gives all that
the program prints, and its exit code: 0 if there is something to report, 1 if there is nothing, and
2 if something is wrong.
-/

namespace JavaSema.CommandLine

/-- What a run of the program comes to. -/
structure Outcome where
  /-- The exit code. -/
  code : Nat := 0
  /-- What is printed. -/
  stdout : String := ""
  /-- What is said about the run. -/
  stderr : String := ""
deriving DecidableEq, Inhabited

namespace Outcome

/-- A run that prints lines. -/
def ofLines (lines : List String) : Outcome :=
  { stdout := String.join (lines.map (· ++ "\n")) }

/-- A run that prints a JSON value. -/
def ofJson (j : Json) : Outcome := ofLines [j.pretty 0]

/-- A run that fails, with the message and the causes of the failure. -/
def failure (messages : List String) : Outcome :=
  { code := 2, stderr := Text.join ": " messages ++ "\n" }

end Outcome

/-- The file that holds the settings unless another one is given. -/
def defaultConfig : String := "nova.toml"

/-- The messages of an error in settings, the cause after what it caused. -/
def settingsMessages (path : String) (e : SettingsError) : List String :=
  ["failed to load config " ++ path, e.message]
    ++ match e with
      | .unreadable _ _ => [e.detail]
      | _ => []

/-- The settings in the given file, in the default one if it exists, or else the defaults. -/
def loadSettings (files : FileTree) (config : Option String) : Except (List String) Settings :=
  let load (path : String) := (Settings.load files path).mapError (settingsMessages path)
  match config with
  | some path => load path
  | none => if files.isFile defaultConfig then load defaultConfig else .ok {}

/-- The class path of the settings, with further entries at its end. -/
def classPath (s : ClassPathSettings) (further : List String) : ClassPath :=
  let entries := (s.entries ++ further.flatMap (Text.split ':')).map ClassPath.Entry.ofPath
  let boot := s.boot.map ClassPath.Entry.ofPath
  .ofEntries entries (if boot.isEmpty then none else some boot)

/-- The paths of the entries of the class path that the options and the settings give. -/
def classPathOf (files : FileTree) (options : Options) : List String :=
  match loadSettings files options.config with
  | .ok settings =>
    (classPath settings.classPath options.classPath).indexes.flatMap fun index =>
      index.entries.map ClassPath.Entry.path
  | .error _ => []

/-- The outcome of a question to a class path, whose failure is told with what was asked for. -/
def orFailure {α : Type} (asked : String) (answer : Except ClassPath.Error α)
    (outcome : α → Outcome) : Outcome :=
  match answer with
  | .ok a => outcome a
  | .error e => .failure (asked :: e.message :: e.causes)

/-- Finds the class file of a class. -/
def runFind (files : FileTree) (cp : ClassPath) (json : Bool) (name : String) : Outcome :=
  orFailure ("failed to search the classpath for " ++ name)
    (cp.find files (BinaryName.classFilePath name)).1 fun
    | none =>
      { (if json then .ofJson (.object [("found", .boolean false)])
          else { stderr := "not found: " ++ name ++ "\n" } : Outcome) with code := 1 }
    | some location =>
      let entry := location.entry.path
      if json then
        .ofJson (.object
          [("found", .boolean true), ("entry", .string entry), ("path", .string location.path)])
      else .ofLines [entry ++ ": " ++ location.path]

/-- Lists the resources of a package. -/
def runList (files : FileTree) (cp : ClassPath) (json : Bool) (package : String) : Outcome :=
  orFailure ("failed to list package `" ++ package ++ "`") (cp.contents files package).1 fun names =>
    { (if json then .ofJson (.strings names) else .ofLines names : Outcome) with
      code := if names.isEmpty then 1 else 0 }

/-- Reports on a class of the class path, or else of the built-in library. -/
def runInspect (files : FileTree) (cp : ClassPath) (json : Bool) (name : String)
    (withLibrary : Bool) : Outcome :=
  let loader : ClassPath.Loader := { path := cp }
  let answer :=
    match (loader.load files name).1 with
    | .error (.notFound n) => if withLibrary then Library.table.load name else .error (.notFound n)
    | answer => answer
  match answer with
  | .error e => .failure ["failed to load class " ++ name, e.message]
  | .ok d =>
    let report := ClassReport.ofClass d
    if json then .ofJson report.toJson else .ofLines report.lines

/-- The name and the version of the program. -/
def versionLine : String := "nova 0.1.0"

/-- How the program is called. -/
def usageLine : String := "Usage: nova [OPTIONS] <COMMAND>"

/-- The text that explains the program. -/
def helpLines : List String :=
  ["Nova CLI (classpath queries, class inspection)",
    "",
    usageLine,
    "",
    "Commands:",
    "  find   Locate the class file of a binary class name (`java.util.Map$Entry`)",
    "  ls     List the resources directly inside a package, across the classpath",
    "  class  Print the members of a class, read from the classpath or the built-in JDK model",
    "  help   Print this message or the help of the given subcommand(s)",
    "",
    "Options:",
    "      --config <CONFIG>        Config file (defaults to `nova.toml` in the current directory, "
      ++ "if present)",
    "      --classpath <CLASSPATH>  Extra classpath entries, appended after the configured ones. "
      ++ "Accepts the platform path-list syntax and may be repeated [aliases: --cp]",
    "      --log-level <LOG_LEVEL>  Log level or `EnvFilter` directives, overriding the config",
    "      --json                   Emit JSON suitable for CI",
    "  -h, --help                   Print help",
    "  -V, --version                Print version"]

/-- What is said about arguments that make no sense. -/
def usageError : Outcome :=
  { code := 2
    stderr := "error: the arguments are not understood\n\n" ++ usageLine
      ++ "\n\nFor more information, try '--help'.\n" }

/-- Runs a command with its options. -/
def runCommand (files : FileTree) (options : Options) (command : Command) : Outcome :=
  match loadSettings files options.config with
  | .error messages => .failure messages
  | .ok settings =>
    let cp := classPath settings.classPath options.classPath
    match command with
    | .find name => runFind files cp options.json name
    | .list package => runList files cp options.json package
    | .inspect name withLibrary => runInspect files cp options.json name withLibrary

/-- Runs the program. -/
def run (files : FileTree) (args : List String) : Outcome :=
  match Request.parse? args with
  | none => usageError
  | some .help => .ofLines helpLines
  | some .version => .ofLines [versionLine]
  | some (.run options command) => runCommand files options command

end JavaSema.CommandLine
