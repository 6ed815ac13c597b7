import Deadwood.Proofs.Graph.History
import Deadwood.Proofs.Report
import Deadwood.Proofs.Report.Document
import Deadwood.Report.Terminal

/-!
# Reports for a terminal and documents

A report for a terminal groups the issues by file, in the order of paths. That is a sorting of the
issues by their files which leaves those of one file as they came (`flatMap_fileGroups`): every
issue is printed once, and issues that are in the order of reports stay as they are, as in a
document.

Text without color is the text of its spans, so what is printed can be told as a text
(`terminalText_eq`). It says the same as the document of the report: `terminalText_agrees`.
-/

namespace Deadwood.Report

/-! ## Issues by file -/

/-- `firstSpellings` of one more path. -/
theorem firstSpellings_concat (paths : List Path) (p : Path) :
    firstSpellings (paths ++ [p]) =
      if p.isIn (firstSpellings paths) then firstSpellings paths
      else firstSpellings paths ++ [p] := by
  rw [firstSpellings, List.foldl_concat, ← firstSpellings]

/-- `firstSpellings` are the first spellings of the places, in their order. -/
theorem firstSpelled_firstSpellings (paths : List Path) :
    Graph.FirstSpelled (firstSpellings paths) paths := by
  induction paths using List.reverseRecOn with
  | nil => exact ⟨fun _ => rfl, .nil⟩
  | append_singleton paths p ih =>
    rw [firstSpellings_concat, ih.isIn_eq]
    cases hp : p.isIn paths with
    | true => exact ih.concat_old hp
    | false => exact ih.concat_new hp

/-- The files of the issues, in the order of paths. -/
def filesOf (issues : List Issue) : List Path :=
  (firstSpellings (issues.map (·.file))).mergeSort Path.le

/-- `fileGroups` has a group for each of `filesOf`. -/
theorem fileGroups_eq (issues : List Issue) :
    fileGroups issues =
      (filesOf issues).map fun p => (p, issues.filter fun i => i.file.same p) := rfl

/-- `filesOf` are at different places. -/
theorem distinct_filesOf (issues : List Issue) :
    (filesOf issues).Pairwise fun p q => p.same q = false :=
  Path.distinct_mergeSort (firstSpelled_firstSpellings (issues.map (·.file))).distinct

/-- `filesOf` stand in the strict order of paths. -/
theorem pairwise_filesOf (issues : List Issue) :
    (filesOf issues).Pairwise fun p q => p.compare q = .lt :=
  Path.pairwise_mergeSort_lt (firstSpelled_firstSpellings (issues.map (·.file))).distinct

/-- `filesOf` are spelled as the first issues spell them. -/
theorem find?_filesOf {issues : List Issue} {p : Path} (hp : p ∈ filesOf issues) :
    (issues.map (·.file)).find? p.same = some p :=
  (firstSpelled_firstSpellings _).find?_eq_self (List.mem_mergeSort.1 hp)

/-- `filesOf` has the place of every issue. -/
theorem isIn_filesOf {issues : List Issue} {i : Issue} (hi : i ∈ issues) :
    i.file.isIn (filesOf issues) = true := by
  have hfirst : i.file.isIn (firstSpellings (issues.map (·.file))) = true := by
    rw [(firstSpelled_firstSpellings _).isIn_eq]
    exact Path.isIn_iff.2 ⟨i.file, List.mem_map_of_mem hi, Path.same_refl _⟩
  exact Path.isIn_of_subset (fun _ => List.mem_mergeSort.2) hfirst

/-- `Path.same`: the issues of a place in a group are all of them, if it is the group of that place,
    and none otherwise. -/
theorem filter_filter_same (issues : List Issue) (p q : Path) :
    (issues.filter fun i => i.file.same q).filter (fun i => p.same i.file) =
      if p.same q then issues.filter fun i => p.same i.file else [] := by
  have hsame : ∀ i : Issue, (p.same i.file && i.file.same q) = (p.same q && p.same i.file) := by
    intro i
    cases hi : p.same i.file with
    | true => rw [← Path.same_congr hi, Bool.true_and, Bool.and_true]
    | false => rw [Bool.false_and, Bool.and_false]
  simp only [List.filter_filter, hsame]
  cases p.same q <;> simp

/-- `filesOf`: the issues of a place are all in its group, in the order of the report. -/
theorem filter_flatMap_filesOf (issues : List Issue) (p : Path) :
    ((filesOf issues).flatMap fun q => issues.filter fun i => i.file.same q).filter
      (fun i => p.same i.file) = issues.filter fun i => p.same i.file := by
  have hgroups : ∀ files : List Path,
      (files.flatMap fun q => if p.same q then issues.filter fun i => p.same i.file else []) =
        (files.filter p.same).flatMap fun _ => issues.filter fun i => p.same i.file := by
    intro files
    induction files with
    | nil => rfl
    | cons q files ih =>
      rw [List.flatMap_cons, ih, List.filter_cons]
      split
      · rfl
      · rfl
  -- the place has one group at most
  simp only [List.filter_flatMap, filter_filter_same, hgroups,
    Path.filter_same_eq (distinct_filesOf issues)]
  cases hfind : (filesOf issues).find? p.same with
  | some q => simp
  | none =>
    have hnone : issues.filter (fun i => p.same i.file) = [] := by
      rw [List.filter_eq_nil_iff]
      intro i hi hsame
      -- an issue of the place would have a group
      obtain ⟨q, hq, hiq⟩ := Path.isIn_iff.1 (isIn_filesOf hi)
      rw [← Path.same_congr hsame] at hiq
      exact List.find?_eq_none.1 hfind q hq hiq
    rw [hnone]
    rfl

/-- `filesOf`: the issues of all groups stand in the order of their files. -/
theorem sorted_flatMap_filesOf (issues : List Issue) :
    ((filesOf issues).flatMap fun q => issues.filter fun i => i.file.same q).Pairwise
      fun a b => a.file.le b.file = true := by
  have hfile : ∀ {q : Path}, ∀ i ∈ issues.filter fun i => i.file.same q, i.file.same q = true :=
    fun _ hi => (List.mem_filter.1 hi).2
  refine List.pairwise_flatMap.2 ⟨fun q _ => ?_, (pairwise_filesOf issues).imp ?_⟩
  · refine List.pairwise_of_forall_mem_list fun i hi j hj => ?_
    rw [Path.le, Path.compare_congr (hfile i hi) (hfile j hj)]
    exact @Std.ReflCmp.isLE_rfl _ Path.compare _ _
  · intro q r hlt i hi j hj
    rw [Path.le, Path.compare_congr (hfile i hi) (hfile j hj), hlt]
    rfl

/-- `fileGroups` sorts issues by file. -/
theorem flatMap_fileGroups (issues : List Issue) :
    (fileGroups issues).flatMap (·.2) = issues.mergeSort fun a b => a.file.le b.file := by
  have : Std.TransCmp fun a b : Issue => a.file.compare b.file :=
    transCmp_on Path.compare Issue.file
  have hequal : ∀ a b : Issue, (a.file.compare b.file == .eq) = a.file.same b.file := by
    intro a b
    rw [Bool.eq_iff_iff, beq_iff_eq, Path.compare_eq_iff]
  rw [fileGroups_eq, List.flatMap_map]
  show (filesOf issues).flatMap (fun q => issues.filter fun i => i.file.same q) = _
  -- sorting is stable, so it is told by the order of the issues of each place
  rw [← List.mergeSort_of_pairwise (sorted_flatMap_filesOf issues)]
  refine List.mergeSort_eq_of_filter_eq fun a => ?_
  simp only [hequal]
  exact filter_flatMap_filesOf issues a.file

/-- The issues are grouped by file. -/
structure GroupedByFile (issues : List Issue) (groups : List (Path × List Issue)) : Prop where
  /-- Every issue is in a group, as often as it is reported. -/
  once : (groups.flatMap (·.2)).Perm issues
  /-- The headers stand in the strict order of paths, so no place has two of them. -/
  headers : (groups.map (·.1)).Pairwise fun p q => p.compare q = .lt
  /-- Below a header stand the issues of its place, in the order of the report. -/
  members : ∀ g ∈ groups, g.2 = issues.filter fun i => i.file.same g.1
  /-- There is an issue below each header, which is spelled as the first one spells its file. -/
  spelling : ∀ g ∈ groups, g.2.head?.map (·.file) = some g.1

/-- `fileGroups` groups the issues by file. -/
theorem groupedByFile_fileGroups (issues : List Issue) :
    GroupedByFile issues (fileGroups issues) where
  once := by
    rw [flatMap_fileGroups]
    exact List.mergeSort_perm _ _
  headers := by
    rw [fileGroups_eq, List.map_map]
    exact (List.map_id _).symm ▸ pairwise_filesOf issues
  members := by
    intro g hg
    obtain ⟨p, -, rfl⟩ := List.mem_map.1 hg
    rfl
  spelling := by
    intro g hg
    obtain ⟨p, hp, rfl⟩ := List.mem_map.1 hg
    show (issues.filter fun i => i.file.same p).head?.map (·.file) = some p
    -- the first issue of the group is the first one with the header's place
    have hsame : (fun i : Issue => i.file.same p) = p.same ∘ Issue.file :=
      funext fun i => Path.same_comm i.file p
    rw [List.head?_filter, hsame, ← List.find?_map]
    exact find?_filesOf hp

/-! ## Texts without color -/

/-- `plain` has the text that it is made of. -/
@[simp] theorem text_plain (text : String) : (plain text).text = text := rfl

/-- The text of lines without color. -/
def plainText (lines : List StyledLine) : String :=
  String.join (lines.map (StyledLine.render false))

/-- `plainText` of no lines. -/
@[simp] theorem plainText_nil : plainText [] = "" := rfl

/-- `plainText` ends every line. -/
@[simp] theorem plainText_cons (line : StyledLine) (lines : List StyledLine) :
    plainText (line :: lines) = String.join (line.map (·.text)) ++ "\n" ++ plainText lines := by
  rw [plainText, List.map_cons, String.join_cons]
  rfl

/-- `plainText` of lines behind others. -/
@[simp] theorem plainText_append (lines lines' : List StyledLine) :
    plainText (lines ++ lines') = plainText lines ++ plainText lines' := by
  simp [plainText]

/-- `terminalText` without color is `plainText`. -/
theorem terminalText_false (root : Path) (r : Report) :
    r.terminalText false root = plainText (r.terminalLines root) := rfl

/-- What is printed of an issue. -/
def issueText (i : Issue) : String :=
  "  " ++ lineColumn i.line ++ " " ++ i.severity.name ++ " [" ++ i.kind.code ++ "] " ++ i.message ++
    i.flavor.elim "" (fun f => " (" ++ f ++ ")") ++ "\n"

/-- What is printed of a group: its header, its issues, and an empty line. -/
def groupText (root : Path) (group : Path × List Issue) : String :=
  shownPath root group.1 ++ "\n" ++ String.join (group.2.map issueText) ++ "\n"

/-- What is printed of groups: how many issues there are, and one group after the other. -/
def groupsText (root : Path) (groups : List (Path × List Issue)) : String :=
  if groups.isEmpty then "No issues found!\n"
  else
    "\n" ++ "Found " ++ digits (groups.flatMap (·.2)).length ++ " issues:" ++ "\n" ++ "\n" ++
      String.join (groups.map (groupText root))

/-- `issueLine` has the text `issueText`. -/
theorem plainText_issueLine (i : Issue) (lines : List StyledLine) :
    plainText (issueLine i :: lines) = issueText i ++ plainText lines := by
  obtain ⟨kind, file, line, symbol, message, severity, flavor⟩ := i
  cases flavor <;> simp [issueLine, issueText, String.append_assoc]

/-- `groupLines` have the text `groupText`. -/
theorem plainText_groupLines (root : Path) (group : Path × List Issue) :
    plainText (groupLines root group) = groupText root group := by
  have hissues : ∀ issues : List Issue,
      plainText (issues.map issueLine) = String.join (issues.map issueText) := by
    intro issues
    induction issues with
    | nil => rfl
    | cons i issues ih =>
      rw [List.map_cons, plainText_issueLine, ih, List.map_cons, String.join_cons]
  simp [groupLines, groupText, hissues, String.append_assoc]

/-- `groupLines` of one group after the other. -/
theorem plainText_flatMap_groupLines (root : Path) (groups : List (Path × List Issue)) :
    plainText (groups.flatMap (groupLines root)) = String.join (groups.map (groupText root)) := by
  induction groups with
  | nil => rfl
  | cons group groups ih =>
    rw [List.flatMap_cons, plainText_append, plainText_groupLines, ih, List.map_cons,
      String.join_cons]

/-- `issueLines` have the text `groupsText`. -/
theorem plainText_issueLines (root : Path) (issues : List Issue) :
    plainText (issueLines root issues) = groupsText root (fileGroups issues) := by
  have honce := (groupedByFile_fileGroups issues).once
  rw [issueLines, groupsText, honce.length_eq]
  cases issues with
  | nil => simp [fileGroups, firstSpellings]
  | cons i issues =>
    -- with an issue there is a group, as every issue is in one
    have hne : (fileGroups (i :: issues)).isEmpty = false := by
      cases hgroups : fileGroups (i :: issues) with
      | nil =>
        rw [hgroups] at honce
        exact absurd honce.length_eq (by simp)
      | cons group groups => rfl
    simp [-String.reduceAppend, hne, plainText_flatMap_groupLines, String.append_assoc]

/-! ## The summary -/

/-- The number of issues of a severity. -/
def Summary.count (s : Summary) : Severity → Nat
  | .error => s.errors
  | .warning => s.warnings
  | .info => s.infos

/-- The counts that are printed: those of the severities that occur. -/
def Summary.parts (s : Summary) : List String :=
  ([(s.errors, " errors"), (s.warnings, " warnings"), (s.infos, " info")].filter
    fun c => 0 < c.1).map fun c => digits c.1 ++ c.2

/-- What is printed of a summary. -/
def Summary.text (s : Summary) : String :=
  if s.parts.isEmpty then "" else "Summary: " ++ ", ".intercalate s.parts ++ "\n"

/-- What is printed above a summary. -/
def ruleText : String := String.ofList (List.replicate 60 '─') ++ "\n"

/-- What is printed below a summary. -/
def totalsText (r : Report) : String :=
  "Files scanned: " ++ digits r.stats.filesScanned ++ "  Unused imports: " ++
    digits r.stats.unusedImports ++ "  Dead files: " ++ digits r.stats.deadFiles ++ "\n" ++
  "Entry points: " ++ digits r.stats.entryPoints ++
    (if r.entryPointFallback then " (fallback: all files)" else "") ++ "  Cache: " ++
    digits r.stats.cacheHits ++ " hits, " ++ digits r.stats.cacheMisses ++ " misses" ++ "\n"

/-- The summary of a report. -/
def summary (r : Report) : Summary := ⟨r.countOf .error, r.countOf .warning, r.countOf .info⟩

/-- `Summary.count` gives what `countOf` counts. -/
theorem count_summary (r : Report) (s : Severity) : r.summary.count s = r.countOf s := by
  cases s <;> rfl

/-- The text of spans with a separator between them. -/
theorem join_intersperse (separator : Span) (spans : List Span) :
    String.join ((spans.intersperse separator).map (·.text)) =
      separator.text.intercalate (spans.map (·.text)) := by
  induction spans with
  | nil => simp
  | cons s spans ih =>
    cases spans with
    | nil => simp
    | cons t spans => simp_all [String.append_assoc]

/-- `severityCounts` have the texts `Summary.parts`. -/
theorem map_text_severityCounts (r : Report) :
    (severityCounts r).map (·.text) = r.summary.parts := by
  have hcounts : [(r.countOf .error, " errors"), (r.countOf .warning, " warnings"),
      (r.countOf .info, " info")] = [(r.countOf .error, Style.red, " errors"),
        (r.countOf .warning, Style.yellow, " warnings"), (r.countOf .info, Style.blue, " info")].map
          fun c => (c.1, c.2.2) := rfl
  rw [Summary.parts, summary, hcounts, List.filter_map, List.map_map, severityCounts, List.map_map]
  rfl

/-- `summaryLines` have the texts of the rule, the summary and the totals. -/
theorem plainText_summaryLines (r : Report) :
    plainText (summaryLines r) = ruleText ++ r.summary.text ++ totalsText r := by
  -- the counts that are shown are those that are not zero, in both
  have hempty : (severityCounts r).isEmpty = r.summary.parts.isEmpty := by
    rw [← map_text_severityCounts, List.isEmpty_map]
  have hcounts : String.join (((severityCounts r).intersperse (plain ", ")).map (·.text)) =
      ", ".intercalate r.summary.parts := by
    rw [join_intersperse, map_text_severityCounts]
    rfl
  unfold summaryLines Summary.text ruleText totalsText
  simp only [← hempty]
  split
  · simp only [plainText_append, plainText_cons, plainText_nil, List.map_cons, List.map_nil,
      String.join_cons, String.join_nil, String.append_empty, String.append_assoc, text_plain]
  · simp only [plainText_append, plainText_cons, plainText_nil, List.map_cons, List.map_nil,
      String.join_cons, String.join_nil, String.append_empty, String.append_assoc, text_plain,
      hcounts]

/-- What is printed of a report with these groups of issues and this summary. -/
def textWith (root : Path) (r : Report) (groups : List (Path × List Issue)) (s : Summary) :
    String :=
  (if r.incomplete then "Scan was interrupted; results are partial.\n\n" else "") ++
    groupsText root groups ++ plainText (cycleLines root r.deadCycles) ++
    plainText (warningLines root r.warnings) ++ ruleText ++ s.text ++ totalsText r

/-- `terminalText` without color is `textWith` the groups and the summary. -/
theorem terminalText_eq (root : Path) (r : Report) :
    r.terminalText false root = r.textWith root (fileGroups r.issues) r.summary := by
  rw [terminalText_false, terminalLines, textWith]
  simp only [plainText_append, plainText_issueLines, plainText_summaryLines, String.append_assoc]
  split
  · simp
  · simp

/-- `hasIssuesAt` a threshold holds if a count of a severity that reaches it says so. -/
theorem hasIssuesAt_iff (r : Report) (threshold : Severity) :
    r.hasIssuesAt threshold = true ↔ ∃ s, threshold.reaches s = true ∧ 0 < r.countOf s := by
  simp only [hasIssuesAt, countOf, List.any_eq_true, List.countP_pos_iff, beq_iff_eq]
  constructor
  · rintro ⟨i, hi, hreaches⟩
    exact ⟨i.severity, hreaches, i, hi, rfl⟩
  · rintro ⟨s, hreaches, i, hi, rfl⟩
    exact ⟨i, hi, hreaches⟩

/-- `fileGroups` leaves issues in the order of reports as they are. -/
theorem flatMap_fileGroups_of_sorted {issues : List Issue}
    (h : issues.Pairwise fun a b => a.le b = true) :
    (fileGroups issues).flatMap (·.2) = issues := by
  rw [flatMap_fileGroups]
  exact List.mergeSort_of_pairwise (h.imp Issue.file_le)

/-- A report for a terminal lists the issues of the document. All issues are printed once, below one
    header for each file, in the order of paths; the issues of one file stand in the order of the
    report. If the issues are in the order in which a finished report has them, they are printed in
    the order in which the document lists them. The counts that are printed are those of the
    document; they account for all issues, and tell whether a threshold is reached. -/
theorem terminalText_agrees (root : Path) (r : Report) :
    ∃ groups listing,
      r.terminalText false root = r.textWith root groups listing.summary ∧
      Listing.ofJson? (r.document root) = some listing ∧
      GroupedByFile r.issues groups ∧
      (r.issues.Pairwise (fun a b => a.le b = true) →
        groups.flatMap (·.2) = r.issues ∧
        (groups.flatMap (·.2)).map (listedIssue root) = listing.issues) ∧
      r.finish.issues.Pairwise (fun a b => a.le b = true) ∧
      listing.summary.errors + listing.summary.warnings + listing.summary.infos = r.issues.length ∧
      ∀ threshold, r.hasIssuesAt threshold = true ↔
        ∃ s, threshold.reaches s = true ∧ 0 < listing.summary.count s := by
  refine ⟨fileGroups r.issues, r.listing root, terminalText_eq root r, ofJson?_document root r,
    groupedByFile_fileGroups r.issues, fun hsorted => ?_, pairwise_issues_finish r, sum_countOf r,
    fun threshold => ?_⟩
  · -- sorted issues are by file already
    have hissues := flatMap_fileGroups_of_sorted hsorted
    exact ⟨hissues, congrArg (List.map (listedIssue root)) hissues⟩
  · rw [hasIssuesAt_iff]
    exact exists_congr fun s => by rw [← count_summary]; rfl

/-- A report in order, with a file that is spelled in two ways and comes before the other one as a
    path, but not as a text. -/
def nestedReport : Report where
  issues :=
    [.ofKind .deadFile ⟨"/p/a/b.js"⟩ "first", .ofKind .unusedImport ⟨"/p//a/b.js"⟩ "second",
      .ofKind .unusedImport ⟨"/p/a-b.js"⟩ "third"]

/-- The report is grouped as it is listed. -/
theorem terminalText_agrees_nestedReport :
    nestedReport.issues.Pairwise (fun a b => a.le b = true) ∧
    ∃ (groups : List (Path × List Issue)) (listing : Listing),
      nestedReport.terminalText false ⟨"/p"⟩ = nestedReport.textWith ⟨"/p"⟩ groups listing.summary ∧
      GroupedByFile nestedReport.issues groups ∧
      groups.flatMap (·.2) = nestedReport.issues ∧
      (groups.flatMap (·.2)).map (listedIssue ⟨"/p"⟩) = listing.issues := by
  have hsorted : nestedReport.issues.Pairwise fun a b => a.le b = true := by decide
  obtain ⟨groups, listing, htext, -, hgrouped, hordered, -⟩ :=
    terminalText_agrees ⟨"/p"⟩ nestedReport
  exact ⟨hsorted, groups, listing, htext, hgrouped, hordered hsorted⟩

end Deadwood.Report
