import Deadwood.Issue.Encoding

/-!
# Reports

What a scan comes to: its issues and warnings, the dead cycles, and counters. `Report.finish` puts
issues and warnings into their order, so that a report does not depend on the order in which they
came up.
-/

namespace Deadwood

/-- What a warning is about, in the order of reports. -/
inductive WarningKind where
  | unreadableFile
  | analyzerFailed
  | analyzerTimeout
  | workerCrashed
  | cacheError
  | emptyScan
  | cancelled
  deriving Repr, DecidableEq, Inhabited

namespace WarningKind

/-- The name of a kind. -/
def name : WarningKind → String
  | unreadableFile => "unreadable-file"
  | analyzerFailed => "analyzer-failed"
  | analyzerTimeout => "analyzer-timeout"
  | workerCrashed => "worker-crashed"
  | cacheError => "cache-error"
  | emptyScan => "empty-scan"
  | cancelled => "cancelled"

/-- All kinds, in their order. -/
def all : List WarningKind :=
  [unreadableFile, analyzerFailed, analyzerTimeout, workerCrashed, cacheError, emptyScan, cancelled]

/-- The place of a kind in their order. -/
def rank (k : WarningKind) : Nat := all.idxOf k

/-- The kind of a name. -/
def ofName? (name : String) : Option WarningKind := all.find? fun k => k.name == name

end WarningKind

/-- Something that went wrong without stopping the scan. -/
structure Warning where
  kind : WarningKind
  /-- The file that the warning is about, if it is about one. -/
  file : Option Path
  message : String
  deriving Repr, DecidableEq, Inhabited

namespace Warning

/-- The order of optional paths: none first. -/
def compareFile : Option Path → Option Path → Ordering
  | none, none => .eq
  | none, some _ => .lt
  | some _, none => .gt
  | some p, some q => p.compare q

/-- The order of warnings in a report: by file, kind and message. -/
def compare (a b : Warning) : Ordering :=
  (compareFile a.file b.file).then <|
    (Ord.compare a.kind.rank b.kind.rank).then (Ord.compare a.message b.message)

/-- Is the first warning at or before the second one? -/
def le (a b : Warning) : Bool := (a.compare b).isLE

/-- The JSON of a warning. -/
def toJson (w : Warning) : Json :=
  .obj ([("kind", .str w.kind.name)] ++ Json.optional "file" (w.file.map fun p => .str p.text) ++
    [("message", .str w.message)])

end Warning

/-- The counters of a report. -/
structure Stats where
  filesScanned : Nat := 0
  unusedImports : Nat := 0
  deadFiles : Nat := 0
  entryPoints : Nat := 0
  cacheHits : Nat := 0
  cacheMisses : Nat := 0
  /-- The files that came to no issues because something went wrong with them. -/
  failedFiles : Nat := 0
  deriving Repr, DecidableEq, Inhabited

/-- The JSON of the counters. -/
def Stats.toJson (s : Stats) : Json :=
  .obj [("filesScanned", .ofNat s.filesScanned), ("unusedImports", .ofNat s.unusedImports),
    ("deadFiles", .ofNat s.deadFiles), ("entryPoints", .ofNat s.entryPoints),
    ("cacheHits", .ofNat s.cacheHits), ("cacheMisses", .ofNat s.cacheMisses),
    ("failedFiles", .ofNat s.failedFiles)]

/-- What a scan comes to. -/
structure Report where
  stats : Stats := {}
  issues : List Issue := []
  warnings : List Warning := []
  /-- The groups of dead files that only import each other. -/
  deadCycles : List (List Path) := []
  /-- Was the scan stopped before its end? -/
  incomplete : Bool := false
  /-- Were all files taken for entry points? -/
  entryPointFallback : Bool := false
  deriving Repr, DecidableEq, Inhabited

namespace Report

/-- The issues of a kind. -/
def issuesOfKind (r : Report) (kind : IssueKind) : List Issue :=
  r.issues.filter fun i => i.kind == kind

/-- The warnings of a kind. -/
def warningsOfKind (r : Report) (kind : WarningKind) : List Warning :=
  r.warnings.filter fun w => w.kind == kind

/-- The files that are reported dead. -/
def deadFiles (r : Report) : List Path := (r.issuesOfKind .deadFile).map (·.file)

/-- The number of issues of a severity. -/
def countOf (r : Report) (s : Severity) : Nat := r.issues.countP fun i => i.severity == s

/-- Is there an issue that reaches the threshold? -/
def hasIssuesAt (r : Report) (threshold : Severity) : Bool :=
  r.issues.any fun i => threshold.reaches i.severity

/-- The issues without those that are the same as the one before them. -/
def dropRepeats : Option Issue → List Issue → List Issue
  | _, [] => []
  | last, i :: rest =>
    if last.any i.same then dropRepeats last rest else i :: dropRepeats (some i) rest

/-- Puts issues and warnings into their order, drops repeated issues, and counts. -/
def finish (r : Report) : Report :=
  let issues := dropRepeats none (r.issues.mergeSort Issue.le)
  { r with
    issues
    warnings := r.warnings.mergeSort Warning.le
    stats := { r.stats with
      unusedImports := issues.countP fun i => i.kind == .unusedImport
      deadFiles := issues.countP fun i => i.kind == .deadFile } }

/-- The JSON of a report, with paths as they are. -/
def toJson (r : Report) : Json :=
  .obj [("stats", r.stats.toJson),
    ("issues", Issue.listToJson r.issues),
    ("warnings", .arr (r.warnings.map Warning.toJson)),
    ("deadCycles", .arr (r.deadCycles.map fun files =>
      .obj [("files", .arr (files.map fun p => .str p.text))])),
    ("incomplete", .bool r.incomplete),
    ("entryPointFallback", .bool r.entryPointFallback)]

/-- How a path is shown: as the part below the root, with slashes only. -/
def shownPath (root p : Path) : String :=
  String.ofList ((p.relativeTo root).text.toList.map fun c => if c = '\\' then '/' else c)

end Report
end Deadwood
