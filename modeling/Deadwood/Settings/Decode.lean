import Deadwood.Json.Basic
import Deadwood.Settings.Basic

/-!
# Decoding settings

Settings are written in one of several formats. A `Format` says how the values of a format are
read as what a setting can be; `decode` is the same for all of them. A setting that is left out
keeps its standard value, and one that is not known is passed over.
-/

namespace Deadwood.Settings

/-- How the values `V` of a format are read. Each reader fails on a value of another kind. -/
structure Format (V : Type) where
  bool? : V → Option Bool
  /-- A whole number from zero to `2 ^ 64 - 1`. -/
  nat? : V → Option Nat
  text? : V → Option String
  list? : V → Option (List V)
  /-- Does the value say that there is none? -/
  isNone : V → Bool
  /-- The values of the named members, in the order of the names. -/
  members? : List String → V → Option (List (Option V))

namespace Format

variable {V α : Type}

/-- Reads the value that a setting has, or takes the standard one. -/
def orStandard (read : V → Option α) (standard : α) : Option V → Option α
  | some v => read v
  | none => some standard

/-- Reads a value that may be none. -/
def optional? (f : Format V) (read : V → Option α) (v : V) : Option (Option α) :=
  if f.isNone v then some none else (read v).map some

/-- Reads a list of texts. -/
def texts? (f : Format V) (v : V) : Option (List String) := do
  (← f.list? v).mapM f.text?

/-- Reads how results are kept. -/
def cache? (f : Format V) (v : V) : Option CacheSettings := do
  let standard := CacheSettings.standard
  match ← f.members? ["enabled", "maxAge", "dir"] v with
  | [enabled, maxAge, folder] =>
    some {
      enabled := ← orStandard f.bool? standard.enabled enabled
      maxAge := ← orStandard f.nat? standard.maxAge maxAge
      folder := ← orStandard (f.optional? fun v => (f.text? v).map Path.mk) standard.folder folder }
  | _ => none

/-- Reads whether imports of types are looked at. -/
def types? (f : Format V) (v : V) : Option Bool := do
  match ← f.members? ["checkTypeImports"] v with
  | [check] => orStandard f.bool? standard.checkTypeImports check
  | _ => none

/-- Reads settings. -/
def decode (f : Format V) (v : V) : Option Settings := do
  match ← f.members? ["include", "ignore", "entryPoints", "cache", "maxWorkers", "analyzerTimeout",
    "typescript"] v with
  -- what is not given is as in the standard settings
  | [includes, ignores, entryPatterns, cache, maxWorkers, analyzerTimeout, types] =>
    some {
      includes := ← orStandard f.texts? standard.includes includes
      ignores := ← orStandard f.texts? standard.ignores ignores
      entryPatterns := ← orStandard f.texts? standard.entryPatterns entryPatterns
      cache := ← orStandard f.cache? standard.cache cache
      maxWorkers := ← orStandard (f.optional? f.nat?) standard.maxWorkers maxWorkers
      analyzerTimeout := ← orStandard f.nat? standard.analyzerTimeout analyzerTimeout
      checkTypeImports := ← orStandard f.types? standard.checkTypeImports types }
  | _ => none

end Format
end Deadwood.Settings
