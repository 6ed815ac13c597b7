import Deadwood.Json.Parser
import Deadwood.Settings.Json
import Deadwood.Settings.Toml
import Deadwood.Settings.Yaml
import Deadwood.Tree.Basic

/-!
# Loading settings

Settings are read from a file whose name says its format. Where the name does not say it, the
formats are tried in turn. A project's settings are looked for under certain names.
-/

namespace Deadwood.Settings

/-- Why settings cannot be loaded. -/
inductive LoadError where
  | unreadable (file : Path)
  | badJson
  | badYaml
  | badToml
  /-- The text is in none of the formats. -/
  | badText
  deriving Repr, DecidableEq, Inhabited

/-- What is said about settings that cannot be loaded. -/
def LoadError.message : LoadError → String
  | unreadable file => "Failed to read config file: " ++ file.text
  | badJson => "Failed to parse JSON config"
  | badYaml => "Failed to parse YAML config"
  | badToml => "Failed to parse TOML config"
  | badText => "Failed to parse config file"

/-- Reads settings from a JSON text. -/
def ofJsonText? (text : String) : Option Settings :=
  (Json.parseAs? jsonLayout text).bind jsonFormat.decode

/-- Reads settings from a YAML text. -/
def ofYamlText? (text : String) : Option Settings := (Yaml.parse? text).bind yamlFormat.decode

/-- Reads settings from a TOML text. -/
def ofTomlText? (text : String) : Option Settings := (Toml.parse? text).bind tomlFormat.decode

/-- The settings that were found, or the error. -/
def orError (e : LoadError) : Option Settings → Except LoadError Settings
  | some s => .ok s
  | none => .error e

/-- Reads settings from the text of a file with this extension. -/
def ofText (extension : Option String) (text : String) : Except LoadError Settings :=
  match extension with
  | some "json" => orError .badJson (ofJsonText? text)
  | some "yml" | some "yaml" => orError .badYaml (ofYamlText? text)
  | some "toml" => orError .badToml (ofTomlText? text)
  | _ => orError .badText ((ofJsonText? text <|> ofYamlText? text) <|> ofTomlText? text)

/-- Loads settings from a file. -/
def ofFile (t : Tree) (file : Path) : Except LoadError Settings :=
  match t.text? file with
  | some text => ofText file.extension? text
  | none => .error (.unreadable file)

/-- The names under which the settings of a project are looked for. -/
def fileNames : List String :=
  [".sweeperc.json", ".sweeperc", ".sweeperc.yml", ".sweeperc.yaml", ".sweeperc.toml"]

/-- Loads the settings of a project: from the first of the names that is there, or else the
    standard ones. -/
def ofProject (t : Tree) (root : Path) : Except LoadError Settings :=
  match (fileNames.map fun n => root.join ⟨n⟩).find? t.isFile with
  | some file => ofFile t file
  | none => .ok standard

end Deadwood.Settings
