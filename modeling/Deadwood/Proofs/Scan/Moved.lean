import Deadwood.Proofs.Graph.Moved
import Deadwood.Proofs.Scan.DeadFiles
import Deadwood.Report.Document
import Deadwood.Report.Terminal

/-!
# Scans of moved projects

A report on a moved project says the same of the moved files (`Report.Moved`): every step from the
outcomes of the files to the finished report keeps this relation. What is shown of a report is
shown relative to the folder of the project, so the texts of both reports are the same wherever
the project lives: `texts_run_moved`.
-/

namespace List

variable {α β γ : Type} {R : α → β → Prop} {l : List α} {l' : List β}

/-- `List.map` gives the same for related lists, by functions that agree on related members. -/
theorem Forall₂.map_eq {f : α → γ} {f' : β → γ} (h : Forall₂ R l l')
    (hf : ∀ a b, R a b → f a = f' b) : l.map f = l'.map f' := by
  induction h with
  | nil => rfl
  | cons hab _ ih => rw [map_cons, map_cons, hf _ _ hab, ih]

/-- `List.countP` counts alike in related lists. -/
theorem Forall₂.countP_eq {p : α → Bool} {p' : β → Bool} (h : Forall₂ R l l')
    (hp : ∀ a b, R a b → p a = p' b) : l.countP p = l'.countP p' := by
  induction h with
  | nil => rfl
  | cons hab _ ih => rw [countP_cons, countP_cons, hp _ _ hab, ih]

/-- `List.isEmpty` holds of both or of none of two related lists. -/
theorem Forall₂.isEmpty_eq (h : Forall₂ R l l') : l.isEmpty = l'.isEmpty := by
  cases h <;> rfl

/-- `List.flatMap` of one list by related functions gives related lists. -/
theorem forall₂_flatMap {S : α → β → Prop} {f : γ → List α} {f' : γ → List β} (xs : List γ)
    (h : ∀ x ∈ xs, Forall₂ S (f x) (f' x)) : Forall₂ S (xs.flatMap f) (xs.flatMap f') := by
  induction xs with
  | nil => exact .nil
  | cons x xs ih =>
    rw [flatMap_cons, flatMap_cons]
    exact rel_append (h x mem_cons_self) (ih fun y hy => h y (mem_cons_of_mem x hy))

end List

namespace Deadwood

open List (Forall₂)

variable {root root' : Path}

/-! ## Issues and warnings -/

/-- The second issue is the first one, of the moved file. -/
def Issue.Moved (root root' : Path) (i i' : Issue) : Prop :=
  ∃ file', Path.Moved root root' i.file file' ∧ i' = { i with file := file' }

/-- The second warning is the first one, about the moved file if it is about one. -/
def Warning.Moved (root root' : Path) (w w' : Warning) : Prop :=
  ∃ file', Option.Rel (Path.Moved root root') w.file file' ∧ w' = { w with file := file' }

namespace Issue

/-- `Issue.same` tells the same of moved issues. -/
theorem Moved.same {i i' j j' : Issue} (hi : Moved root root' i i') (hj : Moved root root' j j') :
    i.same j = i'.same j' := by
  obtain ⟨p, hp, rfl⟩ := hi
  obtain ⟨q, hq, rfl⟩ := hj
  simp only [Issue.same, hp.steps.same hq.steps]

/-- `Issue.le` orders moved issues alike. -/
theorem Moved.le {i i' j j' : Issue} (hi : Moved root root' i i') (hj : Moved root root' j j') :
    i.le j = i'.le j' := by
  obtain ⟨p, hp, rfl⟩ := hi
  obtain ⟨q, hq, rfl⟩ := hj
  simp only [Issue.le, Issue.compare, hp.steps.compare hq.steps]

end Issue

namespace Warning

/-- `compareFile` orders moved files alike, those left out first. -/
theorem compareFile_eq {p p' q q' : Option Path} (hp : Option.Rel (Path.Moved root root') p p')
    (hq : Option.Rel (Path.Moved root root') q q') : compareFile p q = compareFile p' q' := by
  cases hp with
  | none => cases hq <;> rfl
  | some hp =>
    cases hq with
    | none => rfl
    | some hq => exact hp.steps.compare hq.steps

/-- `Warning.le` orders moved warnings alike. -/
theorem Moved.le {w w' v v' : Warning} (hw : Moved root root' w w') (hv : Moved root root' v v') :
    w.le v = w'.le v' := by
  obtain ⟨p, hp, rfl⟩ := hw
  obtain ⟨q, hq, rfl⟩ := hv
  simp only [Warning.le, Warning.compare, compareFile_eq hp hq]

end Warning

/-- `unusedIssues` of a moved file are the same. -/
theorem Import.moved_unusedIssues {p p' : Path} (hp : Path.Moved root root' p p')
    (checkTypes : Bool) (text : String) :
    Forall₂ (Issue.Moved root root') (unusedIssues checkTypes p text)
      (unusedIssues checkTypes p' text) := by
  refine List.forall₂_flatMap _ fun s _ => ?_
  exact List.forall₂_map_same.2 fun b _ => ⟨p', hp, rfl⟩

/-- `Reach.issues` are about the moved files. -/
theorem Graph.Reach.moved_issues {r r' : Reach}
    (h : Forall₂ (Path.Moved root root') r.dead r'.dead) :
    Forall₂ (Issue.Moved root root') r.issues r'.issues := by
  rw [issues, issues, List.forall₂_map_left_iff, List.forall₂_map_right_iff]
  exact h.imp fun p p' hp => ⟨p', hp, rfl⟩

/-! ## Reports -/

/-- The second report says the same of the moved files. -/
structure Report.Moved (root root' : Path) (r r' : Report) : Prop where
  stats : r.stats = r'.stats
  issues : Forall₂ (Issue.Moved root root') r.issues r'.issues
  warnings : Forall₂ (Warning.Moved root root') r.warnings r'.warnings
  deadCycles : Forall₂ (Forall₂ (Path.Moved root root')) r.deadCycles r'.deadCycles
  incomplete : r.incomplete = r'.incomplete
  entryPointFallback : r.entryPointFallback = r'.entryPointFallback

namespace Report

/-- `dropRepeats` drops the same issues. -/
theorem moved_dropRepeats {last last' : Option Issue} {issues issues' : List Issue}
    (hlast : Option.Rel (Issue.Moved root root') last last')
    (h : Forall₂ (Issue.Moved root root') issues issues') :
    Forall₂ (Issue.Moved root root') (dropRepeats last issues) (dropRepeats last' issues') := by
  induction h generalizing last last' with
  | nil => exact .nil
  | @cons i i' _ _ hi _ ih =>
    -- an issue repeats the last one if the moved issue does
    have hrepeat : last.any i.same = last'.any i'.same := by
      cases hlast with
      | none => rfl
      | some hj => exact hi.same hj
    rw [dropRepeats, dropRepeats, hrepeat]
    split
    · exact ih hlast
    · exact .cons hi (ih (.some hi))

/-- `Report.finish` goes with moving a report. -/
theorem Moved.finish {r r' : Report} (h : Moved root root' r r') :
    Moved root root' r.finish r'.finish := by
  have hissues : Forall₂ (Issue.Moved root root') r.finish.issues r'.finish.issues :=
    moved_dropRepeats .none (h.issues.mergeSort fun _ _ hi _ _ hj => hi.le hj)
  have hcount : ∀ kind, r.finish.issues.countP (fun i => i.kind == kind) =
      r'.finish.issues.countP (fun i => i.kind == kind) := fun kind =>
    hissues.countP_eq fun _ _ ⟨_, _, hi⟩ => by rw [hi]
  refine ⟨?_, hissues, h.warnings.mergeSort fun _ _ hw _ _ hv => hw.le hv, h.deadCycles,
    h.incomplete, h.entryPointFallback⟩
  -- the other counters are left as they are
  have hstats : ∀ r : Report, r.finish.stats = { r.stats with
      unusedImports := r.finish.issues.countP fun i => i.kind == .unusedImport
      deadFiles := r.finish.issues.countP fun i => i.kind == .deadFile } := fun _ => rfl
  rw [hstats, hstats, h.stats, hcount, hcount]

/-! ## What is shown of a report -/

/-- `shownPath` shows the part below the folder, which stays. -/
theorem shownPath_eq {p p' : Path} (hp : Path.Moved root root' p p') :
    shownPath root p = shownPath root' p' := by
  rw [shownPath, shownPath, hp.part]

/-- `countOf` counts the same. -/
theorem Moved.countOf {r r' : Report} (h : Moved root root' r r') (severity : Severity) :
    r.countOf severity = r'.countOf severity :=
  h.issues.countP_eq fun _ _ ⟨_, _, hi⟩ => by rw [hi]

/-- `issueDocument` is the same for a moved issue. -/
theorem issueDocument_eq {i i' : Issue} (hi : Issue.Moved root root' i i') :
    issueDocument root i = issueDocument root' i' := by
  obtain ⟨file', hfile, rfl⟩ := hi
  rw [issueDocument, issueDocument, shownPath_eq hfile]

/-- `warningDocument` is the same for a moved warning. -/
theorem warningDocument_eq {w w' : Warning} (hw : Warning.Moved root root' w w') :
    warningDocument root w = warningDocument root' w' := by
  obtain ⟨kind, file, message⟩ := w
  obtain ⟨file', hfile, rfl⟩ := hw
  cases hfile with
  | none => simp only [warningDocument, Option.map_none]
  | some hp => simp only [warningDocument, Option.map_some, shownPath_eq hp]

/-- `documentText` is the same for both reports. -/
theorem Moved.documentText {r r' : Report} (h : Moved root root' r r') :
    r.documentText root = r'.documentText root' := by
  have hissues := h.issues.map_eq fun _ _ => issueDocument_eq
  have hwarnings := h.warnings.map_eq fun _ _ => warningDocument_eq
  have hcycles :
      r.deadCycles.map (fun files => Json.arr (files.map fun p => .str (shownPath root p))) =
        r'.deadCycles.map fun files => Json.arr (files.map fun p => .str (shownPath root' p)) :=
    h.deadCycles.map_eq fun _ _ hfiles =>
      congrArg Json.arr (hfiles.map_eq fun _ _ hp => congrArg Json.str (shownPath_eq hp))
  rw [Report.documentText, Report.documentText, document, document, hissues, hwarnings, hcycles,
    h.stats, h.incomplete, h.entryPointFallback, h.countOf, h.countOf, h.countOf]

/-- `firstSpellings` are the moved paths. -/
theorem moved_firstSpellings {paths paths' : List Path}
    (h : Forall₂ (Path.Moved root root') paths paths') :
    Forall₂ (Path.Moved root root') (firstSpellings paths) (firstSpellings paths') := by
  refine List.rel_foldl (R := Path.Moved root root') ?_ .nil h
  intro kept kept' hkept p p' hp
  dsimp only
  rw [hp.isIn hkept]
  split
  · exact hkept
  · exact List.rel_append hkept (.cons hp .nil)

/-- `issueLine` shows nothing of the file. -/
theorem issueLine_eq {i i' : Issue} (hi : Issue.Moved root root' i i') :
    issueLine i = issueLine i' := by
  obtain ⟨file', -, rfl⟩ := hi
  simp only [issueLine]

/-- `groupLines` for the issues of a moved file are the same. -/
theorem groupLines_eq {issues issues' : List Issue}
    (h : Forall₂ (Issue.Moved root root') issues issues') {p p' : Path}
    (hp : Path.Moved root root' p p') :
    groupLines root (p, issues.filter fun i => i.file.same p) =
      groupLines root' (p', issues'.filter fun i => i.file.same p') := by
  have hmembers : Forall₂ (Issue.Moved root root') (issues.filter fun i => i.file.same p)
      (issues'.filter fun i => i.file.same p') := by
    refine List.rel_filter (fun i i' hi => ?_) h
    obtain ⟨file', hfile, rfl⟩ := hi
    exact Bool.eq_iff_iff.1 (hfile.steps.same hp.steps)
  rw [groupLines, groupLines, shownPath_eq hp, hmembers.map_eq fun _ _ => issueLine_eq]

/-- `issueLines` are the same for moved issues. -/
theorem issueLines_eq {issues issues' : List Issue}
    (h : Forall₂ (Issue.Moved root root') issues issues') :
    issueLines root issues = issueLines root' issues' := by
  -- the groups are told by the files, which are put into the same order
  have hpaths : Forall₂ (Path.Moved root root') (issues.map (·.file)) (issues'.map (·.file)) := by
    rw [List.forall₂_map_left_iff, List.forall₂_map_right_iff]
    refine h.imp fun i i' hi => ?_
    obtain ⟨file', hfile, rfl⟩ := hi
    exact hfile
  have hfiles := Path.moved_mergeSort (moved_firstSpellings hpaths)
  rw [issueLines, issueLines, h.isEmpty_eq, h.length_eq, fileGroups, fileGroups, List.flatMap_map,
    List.flatMap_map, List.flatMap_def, List.flatMap_def,
    hfiles.map_eq fun _ _ hp => groupLines_eq h hp]

/-- `warningLine` is the same for a moved warning. -/
theorem warningLine_eq {w w' : Warning} (hw : Warning.Moved root root' w w') :
    warningLine root w = warningLine root' w' := by
  obtain ⟨kind, file, message⟩ := w
  obtain ⟨file', hfile, rfl⟩ := hw
  cases hfile with
  | none => simp only [warningLine, Option.elim_none]
  | some hp => simp only [warningLine, Option.elim_some, shownPath_eq hp]

/-- `terminalText` is the same for both reports. -/
theorem Moved.terminalText {r r' : Report} (h : Moved root root' r r') (color : Bool) :
    r.terminalText color root = r'.terminalText color root' := by
  -- part by part, in the order in which they are printed
  have hcycles : cycleLines root r.deadCycles = cycleLines root' r'.deadCycles := by
    rw [cycleLines, cycleLines, h.deadCycles.isEmpty_eq, h.deadCycles.length_eq,
      h.deadCycles.map_eq fun _ _ hfiles => by rw [hfiles.map_eq fun _ _ => shownPath_eq]]
  have hwarnings : warningLines root r.warnings = warningLines root' r'.warnings := by
    rw [warningLines, warningLines, h.warnings.isEmpty_eq, h.warnings.length_eq,
      h.warnings.map_eq fun _ _ => warningLine_eq]
  have hcounts : severityCounts r = severityCounts r' := by
    rw [severityCounts, severityCounts, h.countOf, h.countOf, h.countOf]
  have hsummary : summaryLines r = summaryLines r' := by
    rw [summaryLines, summaryLines, hcounts, h.stats, h.entryPointFallback]
  rw [Report.terminalText, Report.terminalText, terminalLines, terminalLines, h.incomplete,
    issueLines_eq h.issues, hcycles, hwarnings, hsummary]

end Report

/-! ## Scans -/

namespace Scan

/-- The second outcome says the same of a moved file. -/
structure Outcome.Moved (root root' : Path) (o o' : Outcome) : Prop where
  issues : Forall₂ (Issue.Moved root root') o.issues o'.issues
  warnings : Forall₂ (Warning.Moved root root') o.warnings o'.warnings
  hit : o.hit = o'.hit
  analyzed : o.analyzed = o'.analyzed
  failed : o.failed = o'.failed

/-- `reportOf` moved outcomes is the moved report. -/
theorem moved_reportOf {outcomes outcomes' : List Outcome}
    (h : Forall₂ (Outcome.Moved root root') outcomes outcomes') :
    Report.Moved root root' (reportOf outcomes) (reportOf outcomes') where
  stats := by
    simp only [reportOf, h.length_eq, h.countP_eq fun _ _ ho => ho.hit,
      h.countP_eq fun _ _ ho => ho.analyzed, h.countP_eq fun _ _ ho => ho.failed]
  issues := List.rel_flatMap h fun _ _ ho => ho.issues
  warnings := List.rel_flatMap h fun _ _ ho => ho.warnings
  deadCycles := .nil
  incomplete := rfl
  entryPointFallback := rfl

/-- `addDead` adds of the moved files what it adds of the files. -/
theorem moved_addDead (hroot : root.IsBase) (hroot' : root'.IsBase) (settings : Settings)
    {files : List SourceFile} (hfiles : ∀ f ∈ files, f.IsMovable) {r r' : Report}
    (h : Report.Moved root root' r r') :
    Report.Moved root root'
      (addDead (entryRules root settings) (files.map (·.placedIn root)) r)
      (addDead (entryRules root' settings) (files.map (·.placedIn root')) r') := by
  -- the graphs are the same up to the folder, and so is all that is read off them
  have hgraph := Graph.moved_build hroot hroot' hfiles
  obtain ⟨hentries, hfallback⟩ :=
    EntryRules.moved_detect (Glob.parseAll settings.entryPatterns) hgraph.files
  obtain ⟨hreachable, hdead⟩ := hgraph.reach hentries
  refine ⟨?_, List.rel_append h.issues (Graph.Reach.moved_issues hdead), h.warnings,
    hgraph.deadCycles hreachable, h.incomplete, hfallback⟩
  simp only [addDead, entryRules, h.stats, hentries.length_eq]

end Scan

namespace Scanner

open Scan

variable {σ σ' : Type} {s : Scanner σ} {s' : Scanner σ'}

/-- `freshOutcome` of a moved file is the moved outcome. -/
theorem IsPlain.moved_freshOutcome (hs : s.IsPlain) (hs' : s'.IsPlain)
    (hsettings : s.settings = s'.settings) (hroot : s.root.IsBase) (hroot' : s'.root.IsBase)
    (state : σ) (state' : σ') {f : SourceFile} (hf : f.path.IsNamed) :
    Outcome.Moved s.root s'.root (s.freshOutcome state (f.placedIn s.root))
      (s'.freshOutcome state' (f.placedIn s'.root)) := by
  have hpath : Path.Moved s.root s'.root (s.root.join f.path) (s'.root.join f.path) :=
    Path.moved_join hroot.absolute hroot'.absolute hf
  obtain ⟨path, reading⟩ := f
  -- a file that cannot be read has a warning, any other one its unused names
  cases reading with
  | failed reason => exact ⟨.nil, .cons ⟨_, .some hpath, rfl⟩ .nil, rfl, rfl, rfl⟩
  | text text =>
    simp only [freshOutcome, SourceFile.placedIn, hs.passOf_eq_finished, hs'.passOf_eq_finished,
      hsettings]
    exact ⟨Import.moved_unusedIssues hpath _ text, .nil, rfl, rfl, rfl⟩

/-- What a scan reports does not depend on where the project lives. Let the files be given by names
    below the folder of the project, and let their local references be relative and stay below it.
    If they are placed below one folder and below another one, both absolute and made of names, and
    scanned with the same settings by the built-in analyzer, without a store, then the documents of
    both reports are the same, and so are their texts for a terminal. -/
theorem texts_run_moved (s : Scanner σ) (s' : Scanner σ') (hs : s.IsPlain) (hs' : s'.IsPlain)
    (hsettings : s.settings = s'.settings) (hroot : s.root.IsBase) (hroot' : s'.root.IsBase)
    (files : List SourceFile) (hne : files ≠ []) (hfiles : ∀ f ∈ files, f.IsMovable)
    (moments moments' : Nat → Store.Moment) (state : σ) (state' : σ')
    (archive archive' : Store.Archive) :
    let report := (s.run moments (files.map (·.placedIn s.root)) state archive).report
    let report' := (s'.run moments' (files.map (·.placedIn s'.root)) state' archive').report
    report.documentText s.root = report'.documentText s'.root ∧
      ∀ color, report.terminalText color s.root = report'.terminalText color s'.root := by
  intro report report'
  -- file by file
  have houtcomes : Forall₂ (Outcome.Moved s.root s'.root)
      ((files.map (·.placedIn s.root)).map (s.freshOutcome state))
      ((files.map (·.placedIn s'.root)).map (s'.freshOutcome state')) := by
    rw [List.map_map, List.map_map, List.forall₂_map_same]
    exact fun f hf =>
      hs.moved_freshOutcome hs' hsettings hroot hroot' state state' (hfiles f hf).named
  -- without a store the report is put together from these outcomes
  have hmoved : Report.Moved s.root s'.root report report' := by
    show Report.Moved _ _ (s.run _ _ _ _).report (s'.run _ _ _ _).report
    rw [report_run_of_disabled hs.noStore hs.isPure hs.unstopped moments (by simpa using hne),
      report_run_of_disabled hs'.noStore hs'.isPure hs'.unstopped moments' (by simpa using hne),
      hsettings]
    exact (moved_addDead hroot hroot' _ hfiles (moved_reportOf houtcomes)).finish
  exact ⟨hmoved.documentText, hmoved.terminalText⟩

/-- An entry point, a file that it leads to and that leads on to one without a text, and two files
    that only import each other. One path and one specifier are spelled in a roundabout way. -/
def movableFiles : List SourceFile :=
  [⟨⟨"index.js"⟩, .text "import './lib/./a'\n"⟩,
    ⟨⟨"lib//a.js"⟩, .text "import x, { y } from '../lib/../b.js'\ny()\n"⟩,
    ⟨⟨"b.js"⟩, .failed "denied"⟩,
    ⟨⟨"c.ts"⟩, .text "export * from './d'\n"⟩,
    ⟨⟨"d/index.ts"⟩, .text "require('../c')\n"⟩]

/-- Placed below two folders, one of which is spelled in a roundabout way too. -/
theorem texts_run_moved_movableFiles :
    (⟨"/p"⟩ : Path).IsBase ∧ (⟨"//home/./u/"⟩ : Path).IsBase ∧ (∀ f ∈ movableFiles, f.IsMovable) ∧
    ((basic ⟨"/p"⟩ .disabled).run (fun _ => .calmAt 0) (movableFiles.map (·.placedIn ⟨"/p"⟩)) ()
        .new).report.documentText ⟨"/p"⟩ =
      ((basic ⟨"//home/./u/"⟩ .disabled).run (fun _ => .calmAt 0)
        (movableFiles.map (·.placedIn ⟨"//home/./u/"⟩)) () .new).report.documentText
          ⟨"//home/./u/"⟩ := by
  have hroot : (⟨"/p"⟩ : Path).IsBase := by decide +kernel
  have hroot' : (⟨"//home/./u/"⟩ : Path).IsBase := by decide +kernel
  have hfiles : ∀ f ∈ movableFiles, f.IsMovable := by decide +kernel
  exact ⟨hroot, hroot', hfiles, (texts_run_moved (basic ⟨"/p"⟩ .disabled)
    (basic ⟨"//home/./u/"⟩ .disabled) (isPlain_basic _) (isPlain_basic _) rfl hroot hroot'
    movableFiles (List.cons_ne_nil _ _) hfiles (fun _ => .calmAt 0)
    (fun _ => .calmAt 0) () () .new .new).1⟩

end Scanner
end Deadwood
