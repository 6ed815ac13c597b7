import Deadwood.Json.Printer
import Deadwood.Report.Basic
import Deadwood.Scan.Schema

/-!
# Reports for programs

A report as an indented JSON document, with paths shown relative to the project's folder.
-/

namespace Deadwood.Report

/-- The JSON of an issue in a document. Members that are unset are left out. -/
def issueDocument (root : Path) (i : Issue) : Json :=
  .obj ([("code", .str i.kind.code), ("kind", .str i.kind.name),
      ("severity", .str i.severity.name), ("message", .str i.message),
      ("file", .str (shownPath root i.file))] ++
    Json.optional "line" (i.line.map .ofNat) ++ Json.optional "symbol" (i.symbol.map .str) ++
    Json.optional "flavor" (i.flavor.map .str))

/-- The JSON of a warning in a document. -/
def warningDocument (root : Path) (w : Warning) : Json :=
  .obj ([("kind", .str w.kind.name)] ++
    Json.optional "file" (w.file.map fun p => .str (shownPath root p)) ++
    [("message", .str w.message)])

/-- The document of a report. -/
def document (root : Path) (r : Report) : Json :=
  .obj [("version", .str Scan.version),
    ("stats", r.stats.toJson),
    ("incomplete", .bool r.incomplete),
    ("entryPointFallback", .bool r.entryPointFallback),
    ("issues", .arr (r.issues.map (issueDocument root))),
    ("warnings", .arr (r.warnings.map (warningDocument root))),
    ("deadCycles", .arr (r.deadCycles.map fun files =>
      .arr (files.map fun p => .str (shownPath root p)))),
    ("summary", .obj [("errors", .ofNat (r.countOf .error)),
      ("warnings", .ofNat (r.countOf .warning)), ("infos", .ofNat (r.countOf .info))])]

/-- The text of a report's document. -/
def documentText (root : Path) (r : Report) : String := (r.document root).pretty

end Deadwood.Report
