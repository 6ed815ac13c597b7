import Deadwood.Scan.Analyzer
import Deadwood.Scan.Schema
import Deadwood.Settings.Basic
import Deadwood.Source
import Deadwood.Store.Basic

/-!
# The outcome of one file

A file is looked up in the store first; only if its result is not there is it analyzed, and the
result is kept if nothing went wrong on the way.
-/

namespace Deadwood

/-- What is needed for a scan of a project. -/
structure Scanner (σ : Type) where
  /-- The project's folder. -/
  root : Path
  settings : Settings
  /-- The analyzers that are run behind the built-in one. -/
  extra : List (Scan.Analyzer σ)
  /-- Has the scan been told to stop? -/
  isCancelled : σ → Bool
  /-- The store to use instead of the one that the settings ask for. -/
  ownStore : Option Store

namespace Scanner

variable {σ : Type}

/-- All analyzers, in their order. -/
def analyzers (s : Scanner σ) : List (Scan.Analyzer σ) :=
  Scan.Analyzer.unusedImports σ s.settings.checkTypeImports :: s.extra

/-- The version under which results are kept. -/
def schema (s : Scanner σ) : String :=
  Scan.schema (s.analyzers.map (·.name)) s.settings.checkTypeImports

/-- The store of the scan. -/
def store (s : Scanner σ) : Store :=
  match s.ownStore with
  | some store => store
  | none =>
    if s.settings.cache.enabled then
      { enabled := true, schema := s.schema, maxAge := s.settings.cache.maxAge }
    else Store.disabled

end Scanner

namespace Scan

/-- What one file adds to a report. -/
structure Outcome where
  issues : List Issue := []
  warnings : List Warning := []
  /-- Was the result in the store? -/
  hit : Bool := false
  /-- Was the file analyzed? -/
  analyzed : Bool := false
  /-- Did something go wrong that leaves the file without issues? -/
  failed : Bool := false
  deriving Repr, DecidableEq, Inhabited

/-- A warning about a file. -/
def fileWarning (kind : WarningKind) (file : Path) (message : String) : Warning :=
  { kind, file := some file, message }

/-- The operation under which the results of scans are kept. -/
def operation : String := "scan"

/-- What the result for a file with this text is kept under. -/
def subjectOf (file : Path) (text : String) : Store.Subject :=
  { operation, path := file, contentHash := Store.contentHash text }

/-- The outcome of a file without a text. -/
def unreadableOutcome (file : Path) (reason : String) : Outcome :=
  { warnings := [fileWarning .unreadableFile file ("could not read file: " ++ reason)]
    failed := true }

/-- The outcome of a file whose result was in the store. -/
def hitOutcome (issues : List Issue) : Outcome := { issues, hit := true }

/-- The outcome of a file on which every pass crashed. -/
def crashOutcome (file : Path) : Outcome :=
  let message := "analysis crashed " ++ String.ofList (Nat.toDigits 10 maxAttempts) ++
    " times; file skipped"
  { warnings := [fileWarning .workerCrashed file message], analyzed := true, failed := true }

/-- The outcome of a file on which an analyzer took too long. -/
def timeoutOutcome (file : Path) (limit : Nat) : Outcome :=
  let message := "analysis exceeded the " ++ String.ofList (Nat.toDigits 10 limit) ++
    "ms limit; file skipped"
  { warnings := [fileWarning .analyzerTimeout file message], analyzed := true, failed := true }

/-- The outcome of a file that was analyzed. -/
def analyzedOutcome (found : Findings) : Outcome :=
  { issues := found.issues, warnings := found.warnings, analyzed := true }

/-- The outcome with warnings before its own. -/
def Outcome.warnedBefore (warnings : List Warning) (o : Outcome) : Outcome :=
  { o with warnings := warnings ++ o.warnings }

/-- The outcome with a warning behind its own. -/
def Outcome.warnedAfter (w : Warning) (o : Outcome) : Outcome :=
  { o with warnings := o.warnings ++ [w] }

end Scan

namespace Scanner

open Scan

variable {σ : Type}

/-- Analyzes a file, and keeps what was found if no analyzer gave up. -/
def analyzeFile (s : Scanner σ) (m : Store.Moment) (file : Path) (text : String) (state : σ)
    (archive : Store.Archive) : Outcome × σ × Store.Archive :=
  match runAttempts text file s.analyzers maxAttempts state with
  | (.crashed, state) => (crashOutcome file, state, archive)
  | (.hung, state) => (timeoutOutcome file s.settings.analyzerTimeout, state, archive)
  | (.finished found, state) =>
    let outcome := analyzedOutcome found
    -- what an analyzer that gave up might have found is missing, so this is not kept
    if found.warnings.isEmpty then
      match s.store.set m (subjectOf file text) (Issue.listToJson found.issues) archive with
      | (.ok (), archive) => (outcome, state, archive)
      | (.error fault, archive) =>
        let warning :=
          fileWarning .cacheError file ("could not store cache entry: " ++ fault.message m)
        (outcome.warnedAfter warning, state, archive)
    else (outcome, state, archive)

/-- The outcome of a file that has a text: from the store, or by analyzing it. The store is asked at
    the first moment, and keeps a new result at the second. -/
def readableOutcome (s : Scanner σ) (asked kept : Store.Moment) (file : Path) (text : String)
    (state : σ) (archive : Store.Archive) : Outcome × σ × Store.Archive :=
  let (answer, shelf) := s.store.get Issue.listOfJson? asked (subjectOf file text) archive.shelf
  let archive := { archive with shelf }
  match answer with
  | .ok (some issues) => (hitOutcome issues, state, archive)
  | .ok none => s.analyzeFile kept file text state archive
  -- an entry that cannot be used costs a warning and an analysis
  | .error fault =>
    let warning := fileWarning .cacheError file ("ignoring cache entry: " ++ fault.message asked)
    let (outcome, state, archive) := s.analyzeFile kept file text state archive
    (outcome.warnedBefore [warning], state, archive)

/-- The outcome of a file. -/
def outcomeOf (s : Scanner σ) (asked kept : Store.Moment) (file : SourceFile) (state : σ)
    (archive : Store.Archive) : Outcome × σ × Store.Archive :=
  match file.reading with
  | .failed reason => (unreadableOutcome file.path reason, state, archive)
  | .text text => s.readableOutcome asked kept file.path text state archive

end Scanner
end Deadwood
