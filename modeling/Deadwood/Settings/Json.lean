import Deadwood.Json.Decode
import Deadwood.Json.Parser
import Deadwood.Settings.Decode

/-!
# Settings in JSON

An object, or an array with the settings in their order. Only the limit on workers and the folder
for results may be `null`.
-/

namespace Deadwood.Settings

/-- How JSON values are read as settings. -/
def jsonFormat : Format Json where
  bool? := Json.bool?
  nat? := Json.nat?
  text? := Json.text?
  list? := Json.list?
  isNone := Json.isNull
  members? := Json.record?

/-- The members of settings and of the records in them. All others are passed over. -/
def jsonLayout : Json.Layout :=
  .record [("include", .any), ("ignore", .any), ("entryPoints", .any),
    ("cache", .ofNames ["enabled", "maxAge", "dir"]), ("maxWorkers", .any),
    ("analyzerTimeout", .any), ("typescript", .ofNames ["checkTypeImports"])]

/-- Reads settings from a JSON value. -/
def ofJson? (v : Json) : Option Settings := jsonFormat.decode v

/-- The settings as a JSON value. -/
def toJson (s : Settings) : Json :=
  .obj [
    ("include", .arr (s.includes.map .str)),
    ("ignore", .arr (s.ignores.map .str)),
    ("entryPoints", .arr (s.entryPatterns.map .str)),
    ("cache", .obj [
      ("enabled", .bool s.cache.enabled),
      ("maxAge", .ofNat s.cache.maxAge),
      ("dir", s.cache.folder.elim .null fun p => .str p.text)]),
    ("maxWorkers", s.maxWorkers.elim .null .ofNat),
    ("analyzerTimeout", .ofNat s.analyzerTimeout),
    ("typescript", .obj [("checkTypeImports", .bool s.checkTypeImports)])]

end Deadwood.Settings
