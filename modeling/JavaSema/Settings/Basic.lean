import JavaSema.Analysis.State
import JavaSema.Files.Path
import JavaSema.Files.Tree
import JavaSema.Settings.Decode
import JavaSema.Text.Utf8
import JavaSema.Toml.Basic

/-!
# Settings

The settings of a run: where classes come from, how units are analysed, and what is logged.
-/

namespace JavaSema

/-- Where classes come from. -/
structure ClassPathSettings where
  /-- Entries that are searched before the others. -/
  boot : List String := []
  /-- Entries in the order in which they are searched. -/
  entries : List String := []
deriving DecidableEq, Inhabited

/-- What is logged, and where to. -/
structure LogSettings where
  /-- A level, or directives of a filter. -/
  level : String := "info"
  /-- Whether each line is a JSON value. -/
  json : Bool := false
  /-- Whether lines go to standard error. -/
  stderr : Bool := true
  /-- A file that lines are added to. -/
  file : Option String := none
  /-- The number of lines that are kept in memory. -/
  bufferLines : Nat := 2000
deriving DecidableEq, Inhabited

/-- The settings of a run. -/
structure Settings where
  /-- Where classes come from. -/
  classPath : ClassPathSettings := {}
  /-- How units are analysed. -/
  analysis : Analysis.Config := {}
  /-- What is logged. -/
  logging : LogSettings := {}

namespace Settings

open Decoder

/-- Decodes where classes come from. -/
def classPathDecoder : Decoder ClassPathSettings :=
  record "ClasspathConfig"
    [field "boot" (list path) fun v s => { s with boot := v },
      field "entries" (list path) fun v s => { s with entries := v }]
    {}

/-- Decodes how units are analysed. -/
def analysisDecoder : Decoder Analysis.Config :=
  record "AnalysisConfig"
    [field "implicit_java_lang" boolean fun v s => { s with hasLanguagePackage := v },
      field "resolve_implicit_this" boolean fun v s => { s with findsInheritedFields := v },
      field "max_inference_depth" count fun v s => { s with inferenceDepth := v }]
    {}

/-- Decodes what is logged. -/
def logDecoder : Decoder LogSettings :=
  record "LoggingConfig"
    [field "level" string fun v s => { s with level := v },
      field "json" boolean fun v s => { s with json := v },
      field "stderr" boolean fun v s => { s with stderr := v },
      field "file" path fun v s => { s with file := some v },
      field "buffer_lines" count fun v s => { s with bufferLines := v }]
    {}

/-- The parts of the settings. -/
def parts : List (RecordField Settings) :=
  [field "classpath" classPathDecoder fun v s => { s with classPath := v },
    field "analysis" analysisDecoder fun v s => { s with analysis := v },
    field "logging" logDecoder fun v s => { s with logging := v }]

/-- The settings in a text. -/
def parse (text : String) : Except SettingsError Settings :=
  match Toml.parse? text with
  | some given => setFields parts given {}
  | none => .error .malformed

/-- The settings with the paths of the class path seen from a directory. -/
def resolvePaths (base : String) (s : Settings) : Settings :=
  { s with
    classPath :=
      { boot := s.classPath.boot.map (Path.join base)
        entries := s.classPath.entries.map (Path.join base) } }

/-- The settings in a file.  The paths of its class path are seen from the directory of the file. -/
def load (files : FileTree) (path : String) : Except SettingsError Settings := do
  let content ← (files.read path).mapError (.unreadable path)
  match Text.decodeUtf8? content.data with
  | none => throw (.unreadable path .notText)
  | some cs =>
    let s ← parse (String.ofList cs)
    return match Path.parent? path with
      | some base => s.resolvePaths base
      | none => s

end Settings

end JavaSema
