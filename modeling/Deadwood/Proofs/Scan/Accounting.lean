import Mathlib.Data.List.Infix
import Deadwood.Proofs.Report
import Deadwood.Proofs.Scan.Pure
import Deadwood.Proofs.Store.Basic

/-!
# What a report accounts for

However the lookup and the analysis of a file end, its outcome is accounted for: it is a hit, it was
analyzed or the file has no text, and it is failed exactly if it warns of a failure. Summed up over
the files that a scan comes to before it is told to stop, this is what the counters of the report
say: `run_accounts`.
-/

namespace Deadwood

open Scan

/-- Is it a warning about a file that contributes nothing because something went wrong with it? -/
def WarningKind.isFailure : WarningKind → Bool
  | unreadableFile | workerCrashed | analyzerTimeout => true
  | _ => false

namespace Scan

variable {σ : Type}

/-! ## The outcome of one file -/

/-- The outcome of a file is told apart by its flags and its warnings. -/
structure Outcome.Accounts (f : SourceFile) (o : Outcome) : Prop where
  /-- It is a hit, it was analyzed or the file has no text, and only one of these. -/
  once : o.hit.toNat + o.analyzed.toNat + f.text?.isNone.toNat = 1
  /-- Of warnings about a failure there is one if it failed, and none if not. -/
  failures : o.warnings.countP (·.kind.isFailure) = o.failed.toNat
  noIssues : o.failed = true → o.issues = []
  notCancelled : ∀ w ∈ o.warnings, w.kind ≠ .cancelled

/-- `Outcome.Accounts` is kept by a warning about the store in front of the others. -/
theorem Outcome.Accounts.warnedBefore {f : SourceFile} {o : Outcome} (h : o.Accounts f)
    (message : String) :
    (o.warnedBefore [fileWarning .cacheError f.path message]).Accounts f where
  once := h.once
  failures := h.failures
  noIssues := h.noIssues
  notCancelled w hw := by
    rcases List.mem_cons.1 hw with rfl | hw
    · exact nofun
    · exact h.notCancelled w hw

/-- `Outcome.Accounts` is kept by a warning about the store behind the others. -/
theorem Outcome.Accounts.warnedAfter {f : SourceFile} {o : Outcome} (h : o.Accounts f)
    (message : String) :
    (o.warnedAfter (fileWarning .cacheError f.path message)).Accounts f where
  once := h.once
  -- a warning about the store is none about an analyzer
  failures := by
    rw [Outcome.warnedAfter, List.countP_append]
    exact h.failures
  noIssues := h.noIssues
  notCancelled w hw := by
    rcases List.mem_append.1 hw with hw | hw
    · exact h.notCancelled w hw
    · cases List.mem_singleton.1 hw
      exact nofun

/-- `runAttempts` warns of analyzers that gave up. -/
theorem kind_of_mem_runAttempts {text : String} {file : Path} {analyzers : List (Analyzer σ)}
    {n : Nat} {state : σ} {found : Findings}
    (h : (runAttempts text file analyzers n state).1 = .finished found) :
    ∀ w ∈ found.warnings, w.kind = .analyzerFailed := by
  obtain ⟨state', hpass⟩ := finished_runPass_of_runAttempts h
  refine @finished_induction _ _ _ (fun found => ∀ w ∈ found.warnings, w.kind = .analyzerFailed) _
    nofun (fun a _ state issues _ found hfound => hfound) ?_ _ _ hpass
  intro a _ reasons found hfound w hw
  rcases List.mem_cons.1 hw with rfl | hw
  · rfl
  · exact hfound w hw

end Scan

namespace Scanner

variable {σ : Type} (s : Scanner σ) (asked kept : Store.Moment)

/-- `analyzeFile` accounts for the file, and a failed file leaves the shelf as it is. -/
theorem accounts_analyzeFile {f : SourceFile} {text : String} (htext : f.text? = some text)
    (state : σ) (archive : Store.Archive) :
    (s.analyzeFile kept f.path text state archive).1.Accounts f ∧
      ((s.analyzeFile kept f.path text state archive).1.failed = true →
        (s.analyzeFile kept f.path text state archive).2.2 = archive) := by
  unfold analyzeFile
  -- both passes crash, one hangs, or the last one comes to its end
  split
  · exact ⟨⟨by simp [crashOutcome, htext], rfl, fun _ => rfl, by simp [crashOutcome, fileWarning]⟩,
      fun _ => rfl⟩
  · exact ⟨⟨by simp [timeoutOutcome, htext], rfl, fun _ => rfl,
      by simp [timeoutOutcome, fileWarning]⟩, fun _ => rfl⟩
  · rename_i found state' hrun
    have hkinds := kind_of_mem_runAttempts (congrArg Prod.fst hrun)
    have hfound : (analyzedOutcome found).Accounts f := by
      refine ⟨by simp [analyzedOutcome, htext], ?_, nofun, fun w hw => ?_⟩
      · -- an analyzer that gives up is no failure of the file
        rw [analyzedOutcome, List.countP_eq_zero.2]
        · rfl
        · intro w hw
          simp [hkinds w hw, WarningKind.isFailure]
      · rw [hkinds w hw]
        exact nofun
    simp only
    split
    · split
      · exact ⟨hfound, nofun⟩
      · exact ⟨hfound.warnedAfter _, nofun⟩
    · exact ⟨hfound, nofun⟩

/-- `outcomeOf` accounts for the file, and a failed file adds nothing to the shelf. -/
theorem accounts_outcomeOf (f : SourceFile) (state : σ) (archive : Store.Archive) :
    (s.outcomeOf asked kept f state archive).1.Accounts f ∧
      ((s.outcomeOf asked kept f state archive).1.failed = true →
        (s.outcomeOf asked kept f state archive).2.2.items ⊆ archive.items) := by
  unfold outcomeOf
  cases hreading : f.reading with
  | failed reason =>
    have hnone : f.text? = none := by rw [SourceFile.text?, hreading]
    exact ⟨⟨by simp [unreadableOutcome, hnone], rfl, fun _ => rfl,
      by simp [unreadableOutcome, fileWarning]⟩, fun _ => List.Subset.refl _⟩
  | text text =>
    have htext := SourceFile.text?_eq_some_iff.2 hreading
    have hsub := s.store.items_find_subset asked (subjectOf f.path text) archive.shelf
    simp only [readableOutcome, Store.get]
    -- only what the lookup answers and what it leaves counts
    generalize s.store.find asked (subjectOf f.path text) archive.shelf = r at hsub
    obtain ⟨answer, shelf⟩ := r
    obtain ⟨haccounts, hshelf⟩ := s.accounts_analyzeFile kept htext state { archive with shelf }
    -- a lookup that comes to nothing is followed by an analysis of the file
    have hmiss : (s.analyzeFile kept f.path text state { archive with shelf }).1.failed = true →
        (s.analyzeFile kept f.path text state { archive with shelf }).2.2.items ⊆
          archive.items := fun hfailed => by
      rw [hshelf hfailed]
      exact hsub
    have hhit : ∀ issues, (hitOutcome issues).Accounts f := fun issues =>
      ⟨by simp [hitOutcome, htext], rfl, fun h => absurd h Bool.false_ne_true,
        List.forall_mem_nil _⟩
    cases answer with
    | error fault => exact ⟨haccounts.warnedBefore _, hmiss⟩
    | ok found =>
      cases found with
      | none => exact ⟨haccounts, hmiss⟩
      | some payload =>
        simp only
        cases Issue.listOfJson? payload with
        | none => exact ⟨haccounts.warnedBefore _, hmiss⟩
        | some issues => exact ⟨hhit issues, fun h => absurd h Bool.false_ne_true⟩

/-! ## The files that a scan comes to -/

end Scanner

/-- A file that a scan comes to, with the state and the shelf that it finds there, and the moments
    at which it uses the store. -/
structure Scan.Visit (σ : Type) where
  file : SourceFile
  state : σ
  archive : Store.Archive
  asked : Store.Moment
  kept : Store.Moment

namespace Scanner

variable {σ : Type} (s : Scanner σ) (moments : Nat → Store.Moment)

/-- What comes of a visit. -/
def outcomeAt (v : Visit σ) : Outcome × σ × Store.Archive :=
  s.outcomeOf v.asked v.kept v.file v.state v.archive

/-- The files that a scan comes to until it is told to stop. -/
def visits (moments : Nat → Store.Moment) :
    List SourceFile → σ → Store.Archive → List (Visit σ)
  | [], _, _ => []
  | file :: rest, state, archive =>
    if s.isCancelled state then []
    else
      let (_, state', archive') := s.outcomeOf (moments 0) (moments 1) file state archive
      ⟨file, state, archive, moments 0, moments 1⟩ ::
        visits (fun n => moments (n + 2)) rest state' archive'

/-- `visits` comes to files in their order. -/
theorem files_visits_initial (files : List SourceFile) (state : σ) (archive : Store.Archive) :
    (s.visits moments files state archive).map (·.file) <+: files := by
  induction files generalizing moments state archive with
  | nil => exact List.prefix_refl _
  | cons f rest ih =>
    unfold visits
    split
    · exact List.nil_prefix
    · exact List.cons_prefix_cons.2 ⟨rfl, ih _ _ _⟩

/-- `runFiles` has the outcomes of its `visits`. -/
theorem outcomes_runFiles (files : List SourceFile) (state : σ) (archive : Store.Archive) :
    (s.runFiles moments files state archive).outcomes =
      (s.visits moments files state archive).map fun v => (s.outcomeAt v).1 := by
  -- both go through the files in the same way, with the next moments for the rest
  induction files generalizing moments state archive with
  | nil => rfl
  | cons f rest ih =>
    unfold runFiles visits
    split
    · rfl
    · exact congrArg _ (ih _ _ _)

/-- `visits` and the skipped files are all files, and files are skipped only by a scan that is told
    to stop. -/
theorem length_visits_add_skipped (files : List SourceFile) (state : σ) (archive : Store.Archive) :
    (s.visits moments files state archive).length +
        (s.runFiles moments files state archive).skipped = files.length ∧
      (s.isCancelled (s.runFiles moments files state archive).state = false →
        (s.runFiles moments files state archive).skipped = 0) := by
  induction files generalizing moments state archive with
  | nil => exact ⟨rfl, fun _ => rfl⟩
  | cons f rest ih =>
    unfold runFiles visits
    -- a scan that is told to stop leaves out all that are left
    split
    · rename_i hstop
      refine ⟨by simp, fun hrun => ?_⟩
      rw [hstop] at hrun
      cases hrun
    · obtain ⟨hlength, hskipped⟩ := ih (fun n => moments (n + 2))
        (s.outcomeOf (moments 0) (moments 1) f state archive).2.1
        (s.outcomeOf (moments 0) (moments 1) f state archive).2.2
      refine ⟨?_, hskipped⟩
      rw [List.length_cons, List.length_cons, ← hlength]
      exact Nat.add_right_comm _ _ _

/-! ## Sums over the files -/

end Scanner

namespace Scan

variable {α : Type} {file : α → SourceFile} {outcome : α → Outcome}

/-- `Bool.toNat` in the form that `List.countP` gives. -/
private theorem toNat_eq_ite (b : Bool) : b.toNat = if b = true then 1 else 0 := by
  cases b <;> rfl

/-- `Outcome.Accounts` summed up: the files are the hits, the analyzed ones and those without a
    text. -/
theorem length_eq_of_accounts {visits : List α}
    (h : ∀ v ∈ visits, (outcome v).Accounts (file v)) :
    visits.length = (visits.map outcome).countP (·.hit) + (visits.map outcome).countP (·.analyzed) +
      visits.countP fun v => (file v).text?.isNone := by
  induction visits with
  | nil => rfl
  | cons v rest ih =>
    have hv := (h v List.mem_cons_self).once
    have hrest := ih fun w hw => h w (List.mem_cons_of_mem v hw)
    simp only [toNat_eq_ite] at hv
    simp only [List.map_cons, List.countP_cons, List.length_cons]
    omega

/-- `Outcome.Accounts` summed up: the failed files are as many as the warnings about failures. -/
theorem countP_failed_eq_of_accounts {visits : List α}
    (h : ∀ v ∈ visits, (outcome v).Accounts (file v)) :
    (visits.map outcome).countP (·.failed) =
      ((visits.map outcome).flatMap (·.warnings)).countP (·.kind.isFailure) := by
  induction visits with
  | nil => rfl
  | cons v rest ih =>
    have hv := (h v List.mem_cons_self).failures
    have hrest := ih fun w hw => h w (List.mem_cons_of_mem v hw)
    simp only [toNat_eq_ite] at hv
    simp only [List.map_cons, List.countP_cons, List.flatMap_cons, List.countP_append]
    omega

/-- `Outcome.Accounts` summed up: the warnings of files do not say that the scan was told to stop.
    -/
theorem filter_cancelled_of_accounts {visits : List α}
    (h : ∀ v ∈ visits, (outcome v).Accounts (file v)) :
    ((visits.map outcome).flatMap (·.warnings)).filter (fun w => w.kind == .cancelled) = [] := by
  rw [List.filter_eq_nil_iff]
  intro w hw
  obtain ⟨o, ho, hmem⟩ := List.mem_flatMap.1 hw
  obtain ⟨v, hv, rfl⟩ := List.mem_map.1 ho
  simpa using (h v hv).notCancelled w hmem

end Scan

namespace Scanner

variable {σ : Type} (s : Scanner σ)

/-- `pruneShelf` warns of the store. -/
theorem kind_of_mem_pruneShelf {m : Store.Moment} {files : List SourceFile} {shelf : Shelf} :
    ∀ w ∈ (s.pruneShelf m files shelf).1, w.kind = .cacheError := by
  unfold pruneShelf
  split
  · exact nofun
  · simp

/-- `run` when it has been told to stop after it has been through the files. -/
theorem run_of_stopped {moments : Nat → Store.Moment} {files : List SourceFile}
    (hne : files ≠ []) {state : σ} {archive : Store.Archive}
    (hstop : s.isCancelled (s.runFiles moments files state archive).state = true) :
    s.run moments files state archive =
      { report := stopped (s.runFiles moments files state archive).skipped
          (reportOf (s.runFiles moments files state archive).outcomes)
        state := (s.runFiles moments files state archive).state
        archive := (s.runFiles moments files state archive).archive } := by
  have hempty : files.isEmpty = false := by simpa using hne
  simp only [run, hempty, Bool.false_eq_true, if_false, hstop, if_true]

/-- `run` when nobody has told it to stop after it has been through the files. -/
theorem run_of_unstopped {moments : Nat → Store.Moment} {files : List SourceFile}
    (hne : files ≠ []) {state : σ} {archive : Store.Archive}
    (hrun : s.isCancelled (s.runFiles moments files state archive).state = false) :
    s.run moments files state archive =
      { report := (addDead (entryRules s.root s.settings) files
          { reportOf (s.runFiles moments files state archive).outcomes with
            warnings := (reportOf (s.runFiles moments files state archive).outcomes).warnings ++
              (s.pruneShelf (moments (2 * files.length)) files
                (s.runFiles moments files state archive).archive.shelf).1 }).finish
        state := (s.runFiles moments files state archive).state
        archive := { (s.runFiles moments files state archive).archive with
          shelf := (s.pruneShelf (moments (2 * files.length)) files
            (s.runFiles moments files state archive).archive.shelf).2 } } := by
  have hempty : files.isEmpty = false := by simpa using hne
  simp only [run, hempty, Bool.false_eq_true, if_false, hrun]

/-- `Report.finish` of a report that says nothing of failures apart from what the files say: what
    its counters and its warnings add up to. -/
private theorem accounts_finish {moments : Nat → Store.Moment} {files : List SourceFile} {state : σ}
    {archive : Store.Archive} {r : Report} {entryPoints : Nat} {more : List Warning}
    (hstats : r.stats =
      { (reportOf (s.runFiles moments files state archive).outcomes).stats with entryPoints })
    (hwarnings : r.warnings =
      (reportOf (s.runFiles moments files state archive).outcomes).warnings ++ more)
    (hmore : ∀ w ∈ more, w.kind.isFailure = false) :
    r.finish.stats.filesScanned = (s.visits moments files state archive).length ∧
      r.finish.stats.filesScanned + (s.runFiles moments files state archive).skipped =
        files.length ∧
      r.finish.stats.filesScanned = r.finish.stats.cacheHits + r.finish.stats.cacheMisses +
        (s.visits moments files state archive).countP (fun v => v.file.text?.isNone) ∧
      r.finish.stats.failedFiles = r.finish.warnings.countP (·.kind.isFailure) ∧
      (r.finish.warningsOfKind .cancelled).Perm (more.filter fun w => w.kind == .cancelled) := by
  have houtcomes := s.outcomes_runFiles moments files state archive
  have haccounts : ∀ v ∈ s.visits moments files state archive, (s.outcomeAt v).1.Accounts v.file :=
    fun v _ => (s.accounts_outcomeOf v.asked v.kept v.file v.state v.archive).1
  have hfailures : more.countP (·.kind.isFailure) = 0 := by simpa [List.countP_eq_zero] using hmore
  -- every visit has one outcome
  have hscanned : r.finish.stats.filesScanned = (s.visits moments files state archive).length := by
    show r.stats.filesScanned = _
    rw [hstats, reportOf, houtcomes, List.length_map]
  refine ⟨hscanned, ?_, ?_, ?_, ?_⟩
  · rw [hscanned]
    exact (s.length_visits_add_skipped moments files state archive).1
  · rw [hscanned]
    show _ = r.stats.cacheHits + r.stats.cacheMisses + _
    rw [hstats, reportOf, houtcomes]
    exact length_eq_of_accounts haccounts
  · rw [r.warnings_finish_perm.countP_eq, hwarnings, List.countP_append, hfailures]
    show r.stats.failedFiles = _
    rw [hstats, reportOf, houtcomes]
    exact countP_failed_eq_of_accounts haccounts
  · have hperm := r.warnings_finish_perm.filter fun w => w.kind == .cancelled
    rwa [hwarnings, List.filter_append, reportOf, houtcomes, filter_cancelled_of_accounts haccounts,
      List.nil_append] at hperm

/-- What a report accounts for. The scan comes to the files of the list up to some place. Each of
    them is a hit, a miss or without a text; the failed ones are those that are warned about, and
    neither contribute an issue nor put anything on the shelf. The report is incomplete exactly if
    the scan has been told to stop when it has been through the files. It says so once then, with
    the number of files that are left out, says nothing about dead files, and leaves the shelf to
    the files that were come to. A complete report is about all files. -/
theorem run_accounts (moments : Nat → Store.Moment) (files : List SourceFile) (hne : files ≠ [])
    (state : σ) (archive : Store.Archive) :
    let visits := s.visits moments files state archive
    let progress := s.runFiles moments files state archive
    let result := s.run moments files state archive
    let report := result.report
    (visits.map (·.file) <+: files ∧
      progress.outcomes = visits.map (fun v => (s.outcomeAt v).1) ∧
      report.stats.filesScanned = visits.length ∧
      report.stats.filesScanned + progress.skipped = files.length ∧
      report.stats.filesScanned = report.stats.cacheHits + report.stats.cacheMisses +
        visits.countP (fun v => v.file.text?.isNone) ∧
      report.stats.failedFiles = report.warnings.countP (·.kind.isFailure) ∧
      (∀ v ∈ visits, (s.outcomeAt v).1.failed = true →
        (s.outcomeAt v).1.issues = [] ∧ (s.outcomeAt v).2.2.items ⊆ v.archive.items) ∧
      report.incomplete = s.isCancelled progress.state) ∧
    (report.incomplete = true →
      report.warningsOfKind .cancelled = [cancelledWarning progress.skipped] ∧
      report.deadCycles = [] ∧
      report.stats.entryPoints = 0 ∧
      (∀ i ∈ report.issues, ∃ v ∈ visits, i ∈ (s.outcomeAt v).1.issues) ∧
      result.archive = progress.archive) ∧
    (report.incomplete = false →
      report.warningsOfKind .cancelled = [] ∧ report.stats.filesScanned = files.length) := by
  intro visits progress result report
  have hinitial := s.files_visits_initial moments files state archive
  have houtcomes := s.outcomes_runFiles moments files state archive
  have hfailed : ∀ v ∈ visits, (s.outcomeAt v).1.failed = true →
      (s.outcomeAt v).1.issues = [] ∧ (s.outcomeAt v).2.2.items ⊆ v.archive.items := by
    intro v _ hfail
    obtain ⟨haccounts, hshelf⟩ := s.accounts_outcomeOf v.asked v.kept v.file v.state v.archive
    exact ⟨haccounts.noIssues hfail, hshelf hfail⟩
  -- a stopped scan reports what it has; otherwise dead files and the clean-up are added
  cases hstop : s.isCancelled progress.state with
  | true =>
    have hresult := s.run_of_stopped hne hstop
    have hreport : report = stopped progress.skipped (reportOf progress.outcomes) :=
      congrArg Result.report hresult
    obtain ⟨hscanned, hskipped, hsum, hfailures, hcancelled⟩ :=
      s.accounts_finish (r := { reportOf progress.outcomes with
        incomplete := true
        warnings := (reportOf progress.outcomes).warnings ++ [cancelledWarning progress.skipped] })
        rfl rfl (by simp [cancelledWarning, WarningKind.isFailure])
    rw [hreport]
    refine ⟨⟨hinitial, houtcomes, hscanned, hskipped, hsum, hfailures, hfailed, rfl⟩,
      fun _ => ⟨List.perm_singleton.1 hcancelled, rfl, rfl, fun i hi => ?_,
        congrArg Result.archive hresult⟩, nofun⟩
    -- the issues of a stopped scan are those of its visits
    obtain ⟨o, ho, hi⟩ := List.mem_flatMap.1 (Report.mem_issues_of_mem_finish hi)
    rw [houtcomes] at ho
    obtain ⟨v, hv, rfl⟩ := List.mem_map.1 ho
    exact ⟨v, hv, hi⟩
  | false =>
    let pruned := (s.pruneShelf (moments (2 * files.length)) files progress.archive.shelf).1
    -- warnings of the clean-up are about the store, so neither failures nor a stop
    have hpruned : ∀ w ∈ pruned, w.kind = .cacheError := s.kind_of_mem_pruneShelf
    have hnone : pruned.filter (fun w => w.kind == .cancelled) = [] :=
      List.filter_eq_nil_iff.2 fun w hw => by simp [hpruned w hw]
    obtain ⟨hscanned, hskipped, hsum, hfailures, hcancelled⟩ :=
      s.accounts_finish (r := addDead (entryRules s.root s.settings) files
        { reportOf progress.outcomes with
          warnings := (reportOf progress.outcomes).warnings ++ pruned })
        rfl rfl (fun w hw => by rw [hpruned w hw]; rfl)
    rw [hnone] at hcancelled
    have hreport : report = _ := congrArg Result.report (s.run_of_unstopped hne hstop)
    rw [hreport]
    refine ⟨⟨hinitial, houtcomes, hscanned, hskipped, hsum, hfailures, hfailed, rfl⟩, nofun,
      fun _ => ⟨hcancelled.eq_nil, ?_⟩⟩
    rw [← hskipped, (s.length_visits_add_skipped moments files state archive).2 hstop]
    rfl

/-- A scanner with an analyzer that tells the scan to stop. -/
def stopping : Scanner Bool where
  root := ⟨"/p"⟩
  settings := Settings.standard
  extra := [{ name := "stop", analyze := fun _ _ _ => (.issues [], true) }]
  isCancelled stopped := stopped
  ownStore := some Store.disabled

/-- A file without a text, one that is analyzed, and one that is left out. -/
def stoppingFiles : List SourceFile :=
  [⟨⟨"/p/a.js"⟩, .failed "denied"⟩, ⟨⟨"/p/b.js"⟩, .text "import './a'"⟩, ⟨⟨"/p/c.js"⟩, .text ""⟩]

/-- The scan is told to stop at the second file, and leaves one out. -/
theorem run_accounts_stoppingFiles :
    stoppingFiles ≠ [] ∧
      (stopping.run (fun _ => .calmAt 0) stoppingFiles false .new).report.incomplete = true ∧
      (stopping.run (fun _ => .calmAt 0) stoppingFiles false .new).report.warningsOfKind
        .cancelled = [cancelledWarning 1] ∧
      (stopping.run (fun _ => .calmAt 0) stoppingFiles false .new).report.stats.filesScanned + 1 =
        3 := by
  have hne : stoppingFiles ≠ [] := List.cons_ne_nil _ _
  -- the scan of the three files is carried out
  have hstop : stopping.isCancelled
      (stopping.runFiles (fun _ => .calmAt 0) stoppingFiles false .new).state = true := by
    decide +kernel
  have hskipped :
      (stopping.runFiles (fun _ => .calmAt 0) stoppingFiles false .new).skipped = 1 := by
    decide +kernel
  obtain ⟨⟨-, -, -, hcount, -, -, -, hincomplete⟩, hstopped, -⟩ :=
    run_accounts stopping (fun _ => .calmAt 0) stoppingFiles hne false .new
  rw [hstop] at hincomplete
  rw [hskipped] at hcount hstopped
  exact ⟨hne, hincomplete, (hstopped hincomplete).1, hcount⟩

end Scanner
end Deadwood
