import Deadwood.Proofs.Issue.Encoding
import Deadwood.Proofs.Json.Pretty
import Deadwood.Proofs.Path
import Deadwood.Report.Document

/-!
# Documents can be read

The document of a report is read from its text as it was written, and from the document what it
lists: every issue, warning and dead cycle in the order of the report, the counters and the summary
(`Listing`). Nothing but the spelling of paths is lost: kinds are told apart by their codes and
names together, as an external kind may have the name of another one. So reports with the same text
are the same, up to how their paths are shown (`documentText_read_back`).
-/

namespace Deadwood

/-! ## Reading a document -/

namespace Json

/-- The value of the member of this name, if the value is an object that has it at most once. -/
def member? (name : String) : Json → Option (Option Json)
  | .obj members => single? members name
  | _ => none

/-- Reads a member that has to be there. -/
def required? {α : Type} (read : Json → Option α) (name : String) (v : Json) : Option α :=
  (v.member? name).bind fun found => found.bind read

/-- Reads a member that may be left out. -/
def leftOut? {α : Type} (read : Json → Option α) (name : String) (v : Json) : Option (Option α) :=
  (v.member? name).bind fun found => found.elim (some none) fun w => (read w).map some

/-- Reads an array whose items are read alike. -/
def listOf? {α : Type} (read : Json → Option α) (v : Json) : Option (List α) :=
  v.list?.bind (List.mapM read)

/-- `Json.listOf?` reads items back that are written one by one. -/
theorem listOf?_map {α β : Type} {write : α → Json} {read : Json → Option β} {f : α → β}
    (h : ∀ x, read (write x) = some (f x)) (xs : List α) :
    listOf? read (.arr (xs.map write)) = some (xs.map f) := by
  show (xs.map write).mapM read = some (xs.map f)
  induction xs with
  | nil => rfl
  | cons x xs ih => simp [h, ih]

end Json

/-- The counters, in the order of their members. -/
def Stats.counters (s : Stats) : List Nat :=
  [s.filesScanned, s.unusedImports, s.deadFiles, s.entryPoints, s.cacheHits, s.cacheMisses,
    s.failedFiles]

/-- Reads the counters of a report. -/
def Stats.ofJson? (v : Json) : Option Stats := do
  return {
    filesScanned := ← v.required? Json.nat? "filesScanned"
    unusedImports := ← v.required? Json.nat? "unusedImports"
    deadFiles := ← v.required? Json.nat? "deadFiles"
    entryPoints := ← v.required? Json.nat? "entryPoints"
    cacheHits := ← v.required? Json.nat? "cacheHits"
    cacheMisses := ← v.required? Json.nat? "cacheMisses"
    failedFiles := ← v.required? Json.nat? "failedFiles" }

namespace Report

/-- An issue as a document lists it. -/
structure ListedIssue where
  code : String
  kind : String
  severity : String
  message : String
  file : String
  line : Option Nat
  symbol : Option String
  flavor : Option String

/-- Reads a listed issue. -/
def ListedIssue.ofJson? (v : Json) : Option ListedIssue := do
  return {
    code := ← v.required? Json.text? "code"
    kind := ← v.required? Json.text? "kind"
    severity := ← v.required? Json.text? "severity"
    message := ← v.required? Json.text? "message"
    file := ← v.required? Json.text? "file"
    line := ← v.leftOut? Json.nat? "line"
    symbol := ← v.leftOut? Json.text? "symbol"
    flavor := ← v.leftOut? Json.text? "flavor" }

/-- A warning as a document lists it. -/
structure ListedWarning where
  kind : String
  file : Option String
  message : String

/-- Reads a listed warning. -/
def ListedWarning.ofJson? (v : Json) : Option ListedWarning := do
  return {
    kind := ← v.required? Json.text? "kind"
    file := ← v.leftOut? Json.text? "file"
    message := ← v.required? Json.text? "message" }

/-- The numbers of issues by their severities. -/
structure Summary where
  errors : Nat
  warnings : Nat
  infos : Nat

/-- Reads a summary. -/
def Summary.ofJson? (v : Json) : Option Summary := do
  return {
    errors := ← v.required? Json.nat? "errors"
    warnings := ← v.required? Json.nat? "warnings"
    infos := ← v.required? Json.nat? "infos" }

/-- What a document lists. -/
structure Listing where
  version : String
  stats : Stats
  incomplete : Bool
  entryPointFallback : Bool
  issues : List ListedIssue
  warnings : List ListedWarning
  deadCycles : List (List String)
  summary : Summary

/-- Reads what a document lists. -/
def Listing.ofJson? (v : Json) : Option Listing := do
  return {
    version := ← v.required? Json.text? "version"
    stats := ← v.required? Stats.ofJson? "stats"
    incomplete := ← v.required? Json.bool? "incomplete"
    entryPointFallback := ← v.required? Json.bool? "entryPointFallback"
    issues := ← v.required? (Json.listOf? ListedIssue.ofJson?) "issues"
    warnings := ← v.required? (Json.listOf? ListedWarning.ofJson?) "warnings"
    deadCycles := ← v.required? (Json.listOf? (Json.listOf? Json.text?)) "deadCycles"
    summary := ← v.required? Summary.ofJson? "summary" }

/-! ## What a report lists -/

/-- The issue as it is listed: its members are those that are set. -/
def listedIssue (root : Path) (i : Issue) : ListedIssue where
  code := i.kind.code
  kind := i.kind.name
  severity := i.severity.name
  message := i.message
  file := shownPath root i.file
  line := i.line
  symbol := i.symbol
  flavor := i.flavor

/-- The warning as it is listed. -/
def listedWarning (root : Path) (w : Warning) : ListedWarning where
  kind := w.kind.name
  file := w.file.map (shownPath root)
  message := w.message

/-- What the document of a report is to list. -/
def listing (root : Path) (r : Report) : Listing where
  version := Scan.version
  stats := r.stats
  incomplete := r.incomplete
  entryPointFallback := r.entryPointFallback
  issues := r.issues.map (listedIssue root)
  warnings := r.warnings.map (listedWarning root)
  deadCycles := r.deadCycles.map fun files => files.map (shownPath root)
  summary := ⟨r.countOf .error, r.countOf .warning, r.countOf .info⟩

/-- `Stats.ofJson?` reads the counters back. -/
theorem ofJson?_stats (s : Stats) : Stats.ofJson? s.toJson = some s := by
  simp [Stats.ofJson?, Stats.toJson, Json.required?, Json.member?, Json.single?, Json.valuesOf,
    Json.nat?, Json.ofNat]

/-- `ListedIssue.ofJson?` reads a listed issue. -/
theorem ofJson?_issueDocument (root : Path) (i : Issue) :
    ListedIssue.ofJson? (issueDocument root i) = some (listedIssue root i) := by
  obtain ⟨kind, file, line, symbol, message, severity, flavor⟩ := i
  cases line <;> cases symbol <;> cases flavor <;>
    simp [ListedIssue.ofJson?, issueDocument, listedIssue, Json.required?, Json.leftOut?,
      Json.member?, Json.single?, Json.valuesOf, Json.optional, Json.nat?, Json.text?, Json.ofNat]

/-- `ListedWarning.ofJson?` reads a listed warning. -/
theorem ofJson?_warningDocument (root : Path) (w : Warning) :
    ListedWarning.ofJson? (warningDocument root w) = some (listedWarning root w) := by
  obtain ⟨kind, file, message⟩ := w
  cases file <;>
    simp [ListedWarning.ofJson?, warningDocument, listedWarning, Json.required?, Json.leftOut?,
      Json.member?, Json.single?, Json.valuesOf, Json.optional, Json.text?]

/-- `Listing.ofJson?` reads from a document what its report says. -/
theorem ofJson?_document (root : Path) (r : Report) :
    Listing.ofJson? (r.document root) = some (r.listing root) := by
  have hissues := Json.listOf?_map (ofJson?_issueDocument root) r.issues
  have hwarnings := Json.listOf?_map (ofJson?_warningDocument root) r.warnings
  have hfiles (files : List Path) := Json.listOf?_map
    (fun p => show Json.text? (.str (shownPath root p)) = some (shownPath root p) from rfl) files
  have hcycles := Json.listOf?_map hfiles r.deadCycles
  simp [Listing.ofJson?, document, listing, Json.required?, Json.member?, Json.single?,
    Json.valuesOf, Json.text?, Json.bool?, ofJson?_stats, hissues, hwarnings, hcycles,
    Summary.ofJson?, Json.nat?, Json.ofNat]

/-- `countOf` over the three severities counts all issues. -/
theorem sum_countOf (r : Report) :
    r.countOf .error + r.countOf .warning + r.countOf .info = r.issues.length := by
  simp only [countOf]
  induction r.issues with
  | nil => rfl
  | cons i issues ih =>
    rw [List.length_cons, ← ih]
    cases h : i.severity <;> simp [h] <;> omega

/-! ## The report that is listed -/

/-- The report with other paths. -/
def mapFiles (f : Path → Path) (r : Report) : Report :=
  { r with
    issues := r.issues.map fun i => { i with file := f i.file }
    warnings := r.warnings.map fun w => { w with file := w.file.map f }
    deadCycles := r.deadCycles.map (List.map f) }

/-- The paths that a report names. -/
def paths (r : Report) : List Path :=
  r.issues.map (·.file) ++ r.warnings.filterMap (·.file) ++ r.deadCycles.flatten

/-- `paths` has the files of the issues. -/
theorem mem_paths_of_issue {r : Report} {i : Issue} (hi : i ∈ r.issues) : i.file ∈ r.paths := by
  simpa [paths] using .inl ⟨i, hi, rfl⟩

/-- `paths` has the files of the warnings. -/
theorem mem_paths_of_warning {r : Report} {w : Warning} (hw : w ∈ r.warnings) {p : Path}
    (hp : w.file = some p) : p ∈ r.paths := by
  simpa [paths] using .inr (.inl ⟨w, hw, hp⟩)

/-- `paths` has the files of the dead cycles. -/
theorem mem_paths_of_deadCycle {r : Report} {files : List Path} (hfiles : files ∈ r.deadCycles)
    {p : Path} (hp : p ∈ files) : p ∈ r.paths := by
  simpa [paths] using .inr (.inr ⟨files, hfiles, hp⟩)

/-- `mapFiles` depends on what becomes of the `paths` only. -/
theorem mapFiles_congr {f g : Path → Path} {r : Report} (h : ∀ p ∈ r.paths, f p = g p) :
    r.mapFiles f = r.mapFiles g := by
  unfold mapFiles
  congr 1
  · exact List.map_congr_left fun i hi => by rw [h _ (mem_paths_of_issue hi)]
  · refine List.map_congr_left fun w hw => ?_
    cases hfile : w.file with
    | none => rfl
    | some p => rw [Option.map_some, Option.map_some, h p (mem_paths_of_warning hw hfile)]
  · exact List.map_congr_left fun files hfiles =>
      List.map_congr_left fun p hp => h p (mem_paths_of_deadCycle hfiles hp)

/-- The issue that is listed. Its code tells an external kind from the others, whatever its name. -/
def ListedIssue.issue (l : ListedIssue) : Issue where
  kind := if l.code = IssueKind.deadFile.code then .deadFile
    else if l.code = IssueKind.unusedImport.code then .unusedImport else .external l.kind
  file := ⟨l.file⟩
  line := l.line
  symbol := l.symbol
  message := l.message
  severity := (Severity.ofName? l.severity).getD .info
  flavor := l.flavor

/-- The warning that is listed. -/
def ListedWarning.warning (l : ListedWarning) : Warning where
  kind := (WarningKind.ofName? l.kind).getD .cancelled
  file := l.file.map Path.mk
  message := l.message

/-- The report that is listed. -/
def Listing.report (l : Listing) : Report where
  stats := l.stats
  issues := l.issues.map ListedIssue.issue
  warnings := l.warnings.map ListedWarning.warning
  deadCycles := l.deadCycles.map fun files => files.map Path.mk
  incomplete := l.incomplete
  entryPointFallback := l.entryPointFallback

/-- `ListedIssue.issue` of a listed issue, with its file as it is shown. -/
theorem issue_listedIssue (root : Path) (i : Issue) :
    (listedIssue root i).issue = { i with file := ⟨shownPath root i.file⟩ } := by
  obtain ⟨kind, file, line, symbol, message, severity, flavor⟩ := i
  have hseverity : (Severity.ofName? severity.name).getD .info = severity := by
    cases severity <;> decide
  -- the three kinds have different codes
  cases kind <;> simp [listedIssue, ListedIssue.issue, IssueKind.code, IssueKind.name, hseverity]

/-- `ListedWarning.warning` of a listed warning, with its file as it is shown. -/
theorem warning_listedWarning (root : Path) (w : Warning) :
    (listedWarning root w).warning = { w with file := w.file.map fun p => ⟨shownPath root p⟩ } := by
  obtain ⟨kind, file, message⟩ := w
  have hkind : (WarningKind.ofName? kind.name).getD .cancelled = kind := by
    cases kind <;> decide
  simp [listedWarning, ListedWarning.warning, hkind, Function.comp_def]

/-- `Listing.report` is the report, with its paths as they are shown. -/
theorem report_listing (root : Path) (r : Report) :
    (r.listing root).report = r.mapFiles fun p => ⟨shownPath root p⟩ := by
  simp [listing, Listing.report, mapFiles, Function.comp_def, issue_listedIssue,
    warning_listedWarning]

/-- `shownPath` of a path without backslashes is its part below the root. -/
theorem shownPath_of_plain {p : Path} (h : '\\' ∉ p.text.toList) (root : Path) :
    shownPath root p = (p.relativeTo root).text := by
  have hplain : ∀ c ∈ (p.relativeTo root).text.toList, (if c = '\\' then '/' else c) = c := by
    intro c hc
    refine if_neg ?_
    rintro rfl
    rcases Path.mem_text_relativeTo hc with hc | hc | hc
    · exact h hc
    · cases hc
    · cases hc
  rw [shownPath, List.map_congr_left hplain, List.map_id', String.ofList_toList]

/-! ## Reading the text of a document -/

/-- All numbers of the report are of 64 bits. -/
structure HasWordNumbers (r : Report) : Prop where
  counters : ∀ n ∈ r.stats.counters, n < 0x10000000000000000
  lines : ∀ i ∈ r.issues, i.HasWordLine
  length : r.issues.length < 0x10000000000000000

/-- `Stats.toJson` fits if the counters have 64 bits. -/
theorem fits_stats {s : Stats} (h : ∀ n ∈ s.counters, n < 0x10000000000000000) {level : Nat}
    (hlevel : level < Json.maxDepth) : s.toJson.fits level = true := by
  have hfits : ∀ n ∈ s.counters, (Json.ofNat n).fits (level + 1) = true := fun n hn =>
    Json.fits_ofNat (h n hn) (level + 1)
  simp only [Stats.counters, List.forall_mem_cons] at hfits
  simp [Stats.toJson, Json.fits, Json.membersFit, hlevel, hfits]

/-- `issueDocument` fits if the line has 64 bits. -/
theorem fits_issueDocument {i : Issue} (hline : i.HasWordLine) (root : Path) {level : Nat}
    (hlevel : level < Json.maxDepth) : (issueDocument root i).fits level = true := by
  have hnumber : ∀ n ∈ i.line, (Json.ofNat n).fits (level + 1) = true := fun n hn =>
    Json.fits_ofNat (hline n hn) (level + 1)
  obtain ⟨kind, file, line, symbol, message, severity, flavor⟩ := i
  cases line with
  | none =>
    cases symbol <;> cases flavor <;>
      simp [issueDocument, Json.optional, Json.fits, Json.membersFit, hlevel]
  | some n =>
    have hn := hnumber n rfl
    cases symbol <;> cases flavor <;>
      simp [issueDocument, Json.optional, Json.fits, Json.membersFit, hlevel, hn]

/-- `warningDocument` fits. -/
theorem fits_warningDocument (root : Path) (w : Warning) {level : Nat}
    (hlevel : level < Json.maxDepth) : (warningDocument root w).fits level = true := by
  obtain ⟨kind, file, message⟩ := w
  cases file <;> simp [warningDocument, Json.optional, Json.fits, Json.membersFit, hlevel]

/-- `document` fits if all numbers have 64 bits. -/
theorem fits_document {r : Report} (hr : r.HasWordNumbers) (root : Path) :
    (r.document root).fits 0 = true := by
  have hstats : r.stats.toJson.fits 1 = true := fits_stats hr.counters (by decide)
  have hissues : Json.itemsFit 2 (r.issues.map (issueDocument root)) = true :=
    Json.itemsFit_map fun i hi => fits_issueDocument (hr.lines i hi) root (by decide)
  have hwarnings : Json.itemsFit 2 (r.warnings.map (warningDocument root)) = true :=
    Json.itemsFit_map fun w _ => fits_warningDocument root w (by decide)
  have hcycles : Json.itemsFit 2 (r.deadCycles.map fun files =>
      Json.arr (files.map fun p => .str (shownPath root p))) = true := by
    refine Json.itemsFit_map fun files _ => ?_
    rw [Json.fits, Json.itemsFit_map fun p _ => rfl]
    rfl
  -- no more issues are counted than there are
  have hcount (s : Severity) : (Json.ofNat (r.countOf s)).fits 2 = true :=
    Json.fits_ofNat (Nat.lt_of_le_of_lt List.countP_le_length hr.length) 2
  simp [document, Json.fits, Json.membersFit, Json.maxDepth, hstats, hissues, hwarnings, hcycles,
    hcount]

/-- The text of a report's document is read as the document, which lists what the report says: all
    issues, warnings and dead cycles in their order, each issue with those of its optional members
    that are set, and a summary that accounts for all issues. So a report with the same text is the
    same report: if no path has a backslash, with the same parts of paths below the root. -/
theorem documentText_read_back (root : Path) (r : Report) (hr : r.HasWordNumbers) :
    Json.parse? (r.documentText root) = some (r.document root) ∧
    Listing.ofJson? (r.document root) = some (r.listing root) ∧
    (r.listing root).summary.errors + (r.listing root).summary.warnings +
      (r.listing root).summary.infos = r.issues.length ∧
    ∀ r' : Report, r'.HasWordNumbers → r'.documentText root = r.documentText root →
      (∀ p ∈ r.paths ++ r'.paths, '\\' ∉ p.text.toList) →
        r'.mapFiles (·.relativeTo root) = r.mapFiles (·.relativeTo root) := by
  have hread {r : Report} (hr : r.HasWordNumbers) :
      Json.parse? (r.documentText root) = some (r.document root) := by
    rw [documentText, Json.parse?_pretty, Json.reread?_of_fits 0 _ (fits_document hr root)]
  refine ⟨hread hr, ofJson?_document root r, sum_countOf r, fun r' hr' htext hplain => ?_⟩
  -- the same text is read as one document, which lists one report
  have hdocument : r'.document root = r.document root := by
    have h := hread hr'
    rw [htext, hread hr] at h
    exact (Option.some.inj h).symm
  have hlisting : r'.listing root = r.listing root := by
    have h := ofJson?_document root r'
    rw [hdocument, ofJson?_document root r] at h
    exact (Option.some.inj h).symm
  have hshown {r : Report} (h : ∀ p ∈ r.paths, '\\' ∉ p.text.toList) :
      r.mapFiles (·.relativeTo root) = (r.listing root).report := by
    rw [report_listing]
    exact mapFiles_congr fun p hp => by rw [shownPath_of_plain (h p hp)]
  rw [hshown fun p hp => hplain p (List.mem_append_right _ hp),
    hshown fun p hp => hplain p (List.mem_append_left _ hp), hlisting]

/-- A report with an external kind that has the name of another one, texts that have to be escaped,
    and empty lists. -/
def sampleReport : Report where
  stats := { filesScanned := 3, deadFiles := 1, entryPoints := 1, cacheMisses := 3 }
  issues := [
    Issue.ofKind .deadFile ⟨"/p/lib/a.js"⟩ "dead \"file\"",
    { Issue.ofKind (.external "dead-file") ⟨"/p/é.ts"⟩ "a\\b\n\t" with
      line := some 7
      symbol := some "\x01"
      flavor := some "typescript" }]
  warnings := [⟨.unreadableFile, some ⟨"/p/b.js"⟩, "no text"⟩, ⟨.cancelled, none, "stopped"⟩]
  deadCycles := [[⟨"/p/lib/a.js"⟩, ⟨"/p/lib/b.js"⟩], []]
  incomplete := true

/-- The same report, with its paths spelled another way. -/
def respelledReport : Report :=
  sampleReport.mapFiles fun p => ⟨"/" ++ p.text ++ "/."⟩

/-- `document` shows nothing else of the paths than `shownPath` does. -/
theorem document_mapFiles {root : Path} {r : Report} {f : Path → Path}
    (h : ∀ p ∈ r.paths, shownPath root (f p) = shownPath root p) :
    (r.mapFiles f).document root = r.document root := by
  -- the parts of a document in which paths are shown; the counts do not look at them
  have hissues : (r.mapFiles f).issues.map (issueDocument root) =
      r.issues.map (issueDocument root) := by
    rw [mapFiles, List.map_map]
    exact List.map_congr_left fun i hi => by
      simp only [Function.comp_apply, issueDocument, h _ (mem_paths_of_issue hi)]
  have hwarnings : (r.mapFiles f).warnings.map (warningDocument root) =
      r.warnings.map (warningDocument root) := by
    rw [mapFiles, List.map_map]
    refine List.map_congr_left fun w hw => ?_
    cases hfile : w.file with
    | none => simp only [Function.comp_apply, warningDocument, hfile, Option.map_none]
    | some p =>
      simp only [Function.comp_apply, warningDocument, hfile, Option.map_some,
        h p (mem_paths_of_warning hw hfile)]
  have hcycles : (r.mapFiles f).deadCycles.map (fun files =>
        Json.arr (files.map fun p => .str (shownPath root p))) =
      r.deadCycles.map fun files => Json.arr (files.map fun p => .str (shownPath root p)) := by
    rw [mapFiles, List.map_map]
    refine List.map_congr_left fun files hfiles => ?_
    rw [Function.comp_apply, List.map_map]
    refine congrArg Json.arr (List.map_congr_left fun p hp => ?_)
    rw [Function.comp_apply, h p (mem_paths_of_deadCycle hfiles hp)]
  have hcount (s : Severity) : (r.mapFiles f).countOf s = r.countOf s := by
    rw [countOf, mapFiles, List.countP_map]
    rfl
  rw [document, hissues, hwarnings, hcycles, hcount, hcount, hcount]
  rfl

/-- `documentText` does not tell how paths are spelled. -/
theorem documentText_respelledReport :
    respelledReport.documentText ⟨"/p/"⟩ = sampleReport.documentText ⟨"/p/"⟩ := by
  have hshown : ∀ p ∈ sampleReport.paths,
      shownPath ⟨"/p/"⟩ ⟨"/" ++ p.text ++ "/."⟩ = shownPath ⟨"/p/"⟩ p := by decide +kernel
  exact congrArg Json.pretty (document_mapFiles hshown)

/-- The two reports have the same text, and differ in the spelling of their paths only. -/
theorem documentText_read_back_sampleReport :
    sampleReport.HasWordNumbers ∧
    Json.parse? (sampleReport.documentText ⟨"/p/"⟩) = some (sampleReport.document ⟨"/p/"⟩) ∧
    respelledReport.HasWordNumbers ∧
    respelledReport.documentText ⟨"/p/"⟩ = sampleReport.documentText ⟨"/p/"⟩ ∧
    respelledReport ≠ sampleReport ∧
    respelledReport.mapFiles (·.relativeTo ⟨"/p/"⟩) =
      sampleReport.mapFiles (·.relativeTo ⟨"/p/"⟩) := by
  have hwords : sampleReport.HasWordNumbers :=
    ⟨by decide, by simp [sampleReport, Issue.ofKind, Issue.HasWordLine], by decide⟩
  have hwords' : respelledReport.HasWordNumbers :=
    ⟨by decide, by simp [respelledReport, mapFiles, sampleReport, Issue.ofKind, Issue.HasWordLine],
      by decide⟩
  obtain ⟨hread, -, -, hsame⟩ := documentText_read_back ⟨"/p/"⟩ sampleReport hwords
  -- no path has the character that is shown as another one
  have hplain : ∀ p ∈ sampleReport.paths ++ respelledReport.paths, '\\' ∉ p.text.toList := by
    decide +kernel
  exact ⟨hwords, hread, hwords', documentText_respelledReport, by decide,
    hsame respelledReport hwords' documentText_respelledReport hplain⟩

end Report
end Deadwood
