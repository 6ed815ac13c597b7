import Deadwood.Settings.Decode
import Deadwood.Yaml.Decode

/-!
# Settings in YAML

A mapping, or nothing at all.
-/

namespace Deadwood.Settings

/-- How YAML nodes are read as settings. -/
def yamlFormat : Format Yaml where
  bool? := Yaml.bool?
  nat? := Yaml.nat?
  text? := Yaml.text?
  list? := Yaml.list?
  isNone := Yaml.isNone
  members? := Yaml.members?

end Deadwood.Settings
