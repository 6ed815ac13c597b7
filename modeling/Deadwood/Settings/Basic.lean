import Deadwood.Glob.Pattern

/-!
# Settings

What a project can set: which files are looked at, which ones are entered from outside, how
results are kept, and how much work may be spent.
-/

namespace Deadwood

/-- How results are kept from one scan to the next. -/
structure CacheSettings where
  enabled : Bool
  /-- The age in milliseconds up to which a result counts. -/
  maxAge : Nat
  /-- The folder for the results, if it is not the usual one. -/
  folder : Option Path
  deriving Repr, DecidableEq, Inhabited

/-- The settings of a scan. -/
structure Settings where
  /-- Patterns for the files to scan. -/
  includes : List String
  /-- Patterns for the files to leave out. -/
  ignores : List String
  /-- Patterns for files that count as entry points whatever they are called. -/
  entryPatterns : List String
  cache : CacheSettings
  /-- The number of files that may be worked on at once, if it is limited. -/
  maxWorkers : Option Nat
  /-- The time in milliseconds that the analysis of one file may take. -/
  analyzerTimeout : Nat
  /-- Are imports of types looked at too? -/
  checkTypeImports : Bool
  deriving Repr, DecidableEq, Inhabited

/-- Results are kept for an hour in the usual folder. -/
def CacheSettings.standard : CacheSettings :=
  { enabled := true, maxAge := 3600000, folder := none }

namespace Settings

/-- The settings of a project that sets nothing. -/
def standard : Settings :=
  { includes := ["**/*.js", "**/*.mjs", "**/*.cjs", "**/*.ts", "**/*.tsx", "**/*.jsx"]
    ignores := ["**/node_modules/**", "**/dist/**", "**/build/**", "**/coverage/**", "**/.git/**"]
    entryPatterns := []
    cache := CacheSettings.standard
    maxWorkers := none
    analyzerTimeout := 10000
    checkTypeImports := true }

/-- The number of workers that is asked for, at least one. -/
def workers? (s : Settings) : Option Nat := s.maxWorkers.map fun n => max n 1

/-- The folder in which a project's results are kept. -/
def cacheFolder (s : Settings) (root : Path) : Path :=
  match s.cache.folder with
  | some folder => root.join folder
  | none => (root.join ⟨".sweepstacx"⟩).join ⟨"cache"⟩

/-- Is a file to be scanned, by its path below the project's folder? -/
def isIncluded (s : Settings) (p : Path) : Bool :=
  (Glob.parseAll s.includes).any fun g => g.isMatch p

/-- Is a file to be left out, by its path below the project's folder? -/
def isIgnored (s : Settings) (p : Path) : Bool :=
  (Glob.parseAll s.ignores).any fun g => g.isMatch p

end Settings
end Deadwood
