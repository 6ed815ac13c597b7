import Deadwood.Graph.Build
import Deadwood.Graph.Cycle
import Deadwood.Graph.EntryPoints
import Deadwood.Scan.Outcome

/-!
# Scans

A scan goes through the files one after the other, and then looks at them together: what the entry
points lead to, and what is dead. A scan that is told to stop leaves out the files that are still
to come and does not say what is dead.
-/

namespace Deadwood

namespace Scan

/-- What has come of going through files. -/
structure Progress (σ : Type) where
  /-- The outcomes of the files that were gone through, in their order. -/
  outcomes : List Outcome
  /-- The number of files that were left out. -/
  skipped : Nat
  state : σ
  archive : Store.Archive

/-- What a scan leaves behind. -/
structure Result (σ : Type) where
  report : Report
  state : σ
  archive : Store.Archive

/-- The report of the outcomes, before anything is put in order. -/
def reportOf (outcomes : List Outcome) : Report :=
  { stats := {
      filesScanned := outcomes.length
      cacheHits := outcomes.countP (·.hit)
      cacheMisses := outcomes.countP (·.analyzed)
      failedFiles := outcomes.countP (·.failed) }
    issues := outcomes.flatMap (·.issues)
    warnings := outcomes.flatMap (·.warnings) }

/-- The report on a project without files. -/
def emptyReport (root : Path) : Report :=
  { warnings := [{
      kind := .emptyScan, file := none
      message := "no files matched under " ++ root.text }] }

/-- What is said when a scan is told to stop. -/
def cancelledWarning (skipped : Nat) : Warning :=
  { kind := .cancelled, file := none
    message := "scan cancelled; " ++ String.ofList (Nat.toDigits 10 skipped) ++
      " files not analyzed, dead files not computed" }

/-- The report of a scan that was told to stop. -/
def stopped (skipped : Nat) (r : Report) : Report :=
  { r with incomplete := true, warnings := r.warnings ++ [cancelledWarning skipped] }.finish

/-- The keys of the results for the files that have a text. -/
def liveKeys (files : List SourceFile) : List String :=
  files.filterMap fun f => f.text?.map fun text => (subjectOf f.path text).key

/-- How the entry points of a project are told. -/
def entryRules (root : Path) (settings : Settings) : EntryRules :=
  { root := some root, patterns := Glob.parseAll settings.entryPatterns }

/-- The report with what can only be said of the files together. -/
def addDead (rules : EntryRules) (files : List SourceFile) (r : Report) : Report :=
  let graph := (Graph.build files).graph
  let entries := rules.detect graph.files
  let reach := graph.reach entries.paths
  { r with
    stats := { r.stats with entryPoints := entries.paths.length }
    entryPointFallback := entries.fallback
    issues := r.issues ++ reach.issues
    deadCycles := graph.deadCycles reach }

end Scan

namespace Scanner

open Scan

variable {σ : Type}

/-- Goes through the files in their order, until the scan is told to stop. Each file has two moments
    at which the store is used. -/
def runFiles (s : Scanner σ) (moments : Nat → Store.Moment) :
    List SourceFile → σ → Store.Archive → Progress σ
  | [], state, archive => { outcomes := [], skipped := 0, state, archive }
  | file :: rest, state, archive =>
    if s.isCancelled state then
      { outcomes := [], skipped := rest.length + 1, state, archive }
    else
      let (outcome, state, archive) := s.outcomeOf (moments 0) (moments 1) file state archive
      let progress := s.runFiles (fun n => moments (n + 2)) rest state archive
      { progress with outcomes := outcome :: progress.outcomes }

/-- Takes the results off the shelf that belong to no file any more. -/
def pruneShelf (s : Scanner σ) (m : Store.Moment) (files : List SourceFile) (shelf : Shelf) :
    List Warning × Shelf :=
  match s.store.prune m (liveKeys files) shelf with
  | (.ok _, shelf) => ([], shelf)
  | (.error fault, shelf) =>
    ([{ kind := .cacheError, file := none
        message := "could not prune cache: " ++ fault.message m }], shelf)

/-- Scans the files of a project. The moments are those at which the store is used, one after the
    other. -/
def run (s : Scanner σ) (moments : Nat → Store.Moment) (files : List SourceFile) (state : σ)
    (archive : Store.Archive) : Result σ :=
  if files.isEmpty then { report := emptyReport s.root, state, archive }
  else
    let progress := s.runFiles moments files state archive
    let report := reportOf progress.outcomes
    -- a scan that was told to stop says nothing about dead files, and prunes nothing
    if s.isCancelled progress.state then
      { report := stopped progress.skipped report
        state := progress.state
        archive := progress.archive }
    else
      -- each file has taken up two moments
      let (warnings, shelf) :=
        s.pruneShelf (moments (2 * files.length)) files progress.archive.shelf
      let report := { report with warnings := report.warnings ++ warnings }
      { report := (addDead (entryRules s.root s.settings) files report).finish
        state := progress.state
        archive := { progress.archive with shelf } }

end Scanner
end Deadwood
