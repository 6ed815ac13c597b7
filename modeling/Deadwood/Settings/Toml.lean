import Deadwood.Settings.Decode
import Deadwood.Toml.Decode

/-!
# Settings in TOML

A table. No setting can be written as none.
-/

namespace Deadwood.Settings

/-- How TOML values are read as settings. -/
def tomlFormat : Format Toml where
  bool? := Toml.bool?
  nat? := Toml.nat?
  text? := Toml.text?
  list? := Toml.list?
  isNone _ := false
  members? := Toml.record?

end Deadwood.Settings
