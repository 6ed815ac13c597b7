import Deadwood.Report.Basic
import Deadwood.Report.Styled

/-!
# Reports for a terminal

A report as lines of styled text: the issues grouped by file, the dead cycles, the warnings, and
a summary. `fileGroups` puts the files into the order of paths and leaves the issues of one file
in the order of the report.
-/

namespace Deadwood.Report

/-- The paths of distinct places, each under its first spelling. -/
def firstSpellings (paths : List Path) : List Path :=
  paths.foldl (fun kept p => if p.isIn kept then kept else kept ++ [p]) []

/-- The issues by file, files in the order of paths. -/
def fileGroups (issues : List Issue) : List (Path × List Issue) :=
  let files := (firstSpellings (issues.map (·.file))).mergeSort Path.le
  files.map fun p => (p, issues.filter fun i => i.file.same p)

/-- The decimal digits of a number. -/
def digits (n : Nat) : String := String.ofList (Nat.toDigits 10 n)

/-- A plain span. -/
def plain (text : String) : Span := ⟨.plain, text⟩

/-- How a severity looks. -/
def severityStyle : Severity → Style
  | .error => .boldRed
  | .warning => .boldYellow
  | .info => .boldBlue

/-- Four places for a line's number, or for a dash where there is no line. -/
def lineColumn : Option Nat → String
  | some n =>
    let ds := Nat.toDigits 10 n
    String.ofList (List.replicate (4 - ds.length) ' ' ++ ds)
  | none => "   -"

/-- The line for an issue. -/
def issueLine (i : Issue) : StyledLine :=
  [plain "  ", ⟨.dimmed, lineColumn i.line⟩, plain " ", ⟨severityStyle i.severity, i.severity.name⟩,
    plain " [", ⟨.dimmed, i.kind.code⟩, plain "] ", plain i.message] ++
  (i.flavor.map fun f => (⟨.dimmed, " (" ++ f ++ ")"⟩ : Span)).toList

/-- The lines for the issues of one file. -/
def groupLines (root : Path) (group : Path × List Issue) : List StyledLine :=
  [⟨.boldCyan, shownPath root group.1⟩] :: group.2.map issueLine ++ [[]]

/-- The lines for the issues. -/
def issueLines (root : Path) (issues : List Issue) : List StyledLine :=
  if issues.isEmpty then [[⟨.boldGreen, "No issues found!"⟩]]
  else
    [[], [⟨.boldYellow, "Found " ++ digits issues.length ++ " issues:"⟩], []] ++
      (fileGroups issues).flatMap (groupLines root)

/-- The lines for the dead cycles. -/
def cycleLines (root : Path) (cycles : List (List Path)) : List StyledLine :=
  if cycles.isEmpty then []
  else
    [⟨.yellow, digits cycles.length ++ " dead import cycles:"⟩] ::
      cycles.map (fun files => [plain "  ", ⟨.dimmed, "↻"⟩,
        plain (" " ++ " → ".intercalate (files.map (shownPath root)))]) ++ [[]]

/-- The line for a warning. -/
def warningLine (root : Path) (w : Warning) : StyledLine :=
  [plain "  ", ⟨.dimmed, "[" ++ w.kind.name ++ "]"⟩, plain " ",
    plain (w.file.elim "" fun p => shownPath root p ++ ": "), plain w.message]

/-- The lines for the warnings. -/
def warningLines (root : Path) (warnings : List Warning) : List StyledLine :=
  if warnings.isEmpty then []
  else
    [⟨.yellow, digits warnings.length ++ " warnings:"⟩] :: warnings.map (warningLine root) ++ [[]]

/-- The counts of the severities that occur. -/
def severityCounts (r : Report) : List Span :=
  ([(r.countOf .error, Style.red, " errors"), (r.countOf .warning, Style.yellow, " warnings"),
    (r.countOf .info, Style.blue, " info")].filter fun c => 0 < c.1).map fun c =>
      ⟨c.2.1, digits c.1 ++ c.2.2⟩

/-- The lines with the totals. -/
def summaryLines (r : Report) : List StyledLine :=
  let counts := severityCounts r
  let stats := r.stats
  let fallback := if r.entryPointFallback then " (fallback: all files)" else ""
  [[⟨.dimmed, String.ofList (List.replicate 60 '─')⟩]] ++
  (if counts.isEmpty then [] else [plain "Summary: " :: counts.intersperse (plain ", ")]) ++
  [[plain ("Files scanned: " ++ digits stats.filesScanned ++ "  Unused imports: " ++
      digits stats.unusedImports ++ "  Dead files: " ++ digits stats.deadFiles)],
    [⟨.dimmed, "Entry points: " ++ digits stats.entryPoints ++ fallback ++ "  Cache: " ++
      digits stats.cacheHits ++ " hits, " ++ digits stats.cacheMisses ++ " misses"⟩]]

/-- The lines of a report. -/
def terminalLines (root : Path) (r : Report) : List StyledLine :=
  (if r.incomplete then [[⟨.boldRed, "Scan was interrupted; results are partial."⟩], []] else []) ++
    issueLines root r.issues ++ cycleLines root r.deadCycles ++ warningLines root r.warnings ++
    summaryLines r

/-- The text of a report for a terminal, in color or not. -/
def terminalText (color : Bool) (root : Path) (r : Report) : String :=
  String.join ((r.terminalLines root).map (StyledLine.render color))

end Deadwood.Report
