import Deadwood.Proofs.Graph.Removal
import Deadwood.Proofs.Report
import Deadwood.Proofs.Scan.Pure
import Deadwood.Proofs.Store.Basic

/-!
# Dead files

What a scan with the built-in analyzer alone says about files that nothing leads to. The main
statements are about whole scans: the dead files of a report are the files that are not `Live`, in
the strict order of paths, unless the project has no entry point at all; and what is reported dead
can be taken away without a change to anything else that is reported.
-/

namespace Deadwood

open Scan

variable {σ : Type}

/-- A scan with the built-in analyzer alone, without a store, which nobody tells to stop. -/
structure Scanner.IsPlain (s : Scanner σ) : Prop where
  builtIn : s.extra = []
  noStore : s.store.enabled = false
  unstopped : ∀ state, s.isCancelled state = false

namespace Scanner

/-- The rules for the entry points of the project. -/
def entries (s : Scanner σ) : EntryRules := entryRules s.root s.settings

/-- What the built-in analyzer finds in a file. -/
def unusedIn (s : Scanner σ) (f : SourceFile) : List Issue :=
  match f.text? with
  | some text => Import.unusedIssues s.settings.checkTypeImports f.path text
  | none => []

/-- `IsPlain` scanners are `IsPure`. -/
theorem IsPlain.isPure {s : Scanner σ} (hs : s.IsPlain) : s.IsPure :=
  isPure_of_extra (by simp [hs.builtIn])

/-- `passOf` of the built-in analyzer alone always comes to its end. -/
theorem IsPlain.passOf_eq_finished {s : Scanner σ} (hs : s.IsPlain) (state : σ) (file : Path)
    (text : String) :
    s.passOf state file text = .finished
      { issues := Import.unusedIssues s.settings.checkTypeImports file text, warnings := [] } := by
  simp only [passOf, analyzers, hs.builtIn, maxAttempts, runAttempts, runPass,
    Analyzer.unusedImports, Pass.map, Findings.addIssues, Findings.empty, List.append_nil]

/-- `freshOutcome` has the issues of `unusedIn`. -/
theorem IsPlain.issues_freshOutcome {s : Scanner σ} (hs : s.IsPlain) (state : σ)
    (f : SourceFile) : (s.freshOutcome state f).issues = s.unusedIn f := by
  unfold freshOutcome unusedIn SourceFile.text?
  cases f.reading with
  | failed reason => rfl
  | text text =>
    show (Outcome.ofPass _ _ (s.passOf state f.path text)).issues = _
    rw [hs.passOf_eq_finished]
    rfl

/-- `unusedIn` has issues of one kind about the file. -/
theorem of_mem_unusedIn {s : Scanner σ} {f : SourceFile} {i : Issue} (hi : i ∈ s.unusedIn f) :
    i.kind = .unusedImport ∧ i.file = f.path := by
  unfold unusedIn at hi
  split at hi
  · exact of_mem_unusedIssues hi
  · exact nomatch hi

/-- What the entry points of the project reach. -/
def reachOf (s : Scanner σ) (files : List SourceFile) : Graph.Reach :=
  let graph := (Graph.build files).graph
  graph.reach (s.entries.detect graph.files).paths

/-- The issues that a scan finds, before they are put into order. -/
def foundIn (s : Scanner σ) (files : List SourceFile) : List Issue :=
  files.flatMap s.unusedIn ++ (s.reachOf files).issues

/-- `run` of a plain scan reports what is `foundIn` the files, put into order. -/
theorem IsPlain.report_run {s : Scanner σ} (hs : s.IsPlain) (moments : Nat → Store.Moment)
    {files : List SourceFile} (hne : files ≠ []) (state : σ) (archive : Store.Archive) :
    ∃ r : Report, (s.run moments files state archive).report = r.finish ∧
      r.issues = s.foundIn files ∧
      r.stats.entryPoints = (s.entries.detect (Graph.build files).graph.files).paths.length ∧
      r.entryPointFallback = (s.entries.detect (Graph.build files).graph.files).fallback := by
  refine ⟨_, report_run_of_disabled hs.noStore hs.isPure hs.unstopped moments hne state archive, ?_,
    rfl, rfl⟩
  show (reportOf _).issues ++ _ = _
  -- file by file the outcome has what the built-in analyzer finds
  have hunused : (reportOf (files.map (s.freshOutcome state))).issues =
      files.flatMap s.unusedIn := by
    show (files.map (s.freshOutcome state)).flatMap (·.issues) = _
    rw [List.flatMap_map]
    exact congrArg (files.flatMap ·) (funext fun f => hs.issues_freshOutcome state f)
  rw [hunused]
  rfl

/-! ## The dead files of a report -/

/-- `Reach.issues` are in the strict order of a report. -/
private theorem pairwise_reach_issues {g : Graph} (hg : g.WellFormed) (entries : List Path) :
    (g.reach entries).issues.Pairwise fun a b => a.compare b = .lt := by
  unfold Graph.Reach.issues
  rw [List.pairwise_map]
  refine (hg.pairwise_dead entries).imp fun {p q} h => ?_
  simp only [Issue.compare, Issue.ofKind, h, Ordering.then]

/-- `List.mergeSort` and `dropRepeats` leave issues that are in strict order as they are. -/
private theorem dropRepeats_mergeSort_eq_self {issues : List Issue}
    (h : issues.Pairwise fun a b => a.compare b = .lt) :
    Report.dropRepeats none (issues.mergeSort Issue.le) = issues := by
  have hle : issues.Pairwise fun a b => a.le b = true := h.imp fun {a b} hab => by
    rw [Issue.le, hab]
    rfl
  rw [List.mergeSort_of_pairwise hle]
  refine Report.dropRepeats_eq_self (h.imp fun {a b} hab => ?_)
  by_contra hsame
  rw [Bool.not_eq_false] at hsame
  -- repeats are compared equal, in either order
  have heq := @Std.OrientedCmp.eq_symm _ Issue.compare _ _ _ (Issue.compare_eq_of_same hsame)
  rw [hab] at heq
  cases heq

/-- `Report.deadFiles` are the dead files of `reachOf`. -/
theorem IsPlain.deadFiles_run {s : Scanner σ} (hs : s.IsPlain) (moments : Nat → Store.Moment)
    {files : List SourceFile} (hne : files ≠ []) (state : σ) (archive : Store.Archive) :
    (s.run moments files state archive).report.deadFiles = (s.reachOf files).dead := by
  obtain ⟨r, hr, hissues, -, -⟩ := hs.report_run moments hne state archive
  rw [hr, Report.deadFiles, Report.issuesOfKind, Report.filter_issues_finish, hissues]
  · -- unused imports are of another kind, and all the rest is about dead files
    have hnone : (files.flatMap s.unusedIn).filter (fun i => i.kind == .deadFile) = [] := by
      rw [List.filter_eq_nil_iff]
      intro i hi
      obtain ⟨f, -, hf⟩ := List.mem_flatMap.1 hi
      simp [(of_mem_unusedIn hf).1]
    have hall : (s.reachOf files).issues.filter (fun i => i.kind == .deadFile) =
        (s.reachOf files).issues := by
      rw [List.filter_eq_self]
      intro i hi
      obtain ⟨p, -, rfl⟩ := List.mem_map.1 hi
      rfl
    have hsorted : (s.reachOf files).issues.Pairwise fun a b => a.compare b = .lt :=
      pairwise_reach_issues (Graph.wellFormed_build files) _
    rw [foundIn, List.filter_append, hnone, hall, List.nil_append,
      dropRepeats_mergeSort_eq_self hsorted]
    simp [Graph.Reach.issues, Issue.ofKind, Function.comp_def]
  · intro a b _ hkind
    rw [hkind]

/-- `reachOf` has as dead files those that are not `Live`, where some file is an entry point. -/
theorem mem_dead_reachOf_iff {s : Scanner σ} {files : List SourceFile} (hd : DistinctPaths files)
    (hentry : ∃ f ∈ files, s.entries.isEntry f.path = true) {p : Path} :
    p ∈ (s.reachOf files).dead ↔ ∃ f ∈ files, f.path = p ∧ ¬ Live s.entries files f := by
  have hpaths := hd.pairwise_paths
  -- the entry points are the files that the rules tell
  have hentries : ∀ q, q ∈ (s.entries.detect (files.map (·.path))).paths ↔
      ∃ f ∈ files, f.path = q ∧ s.entries.isEntry q = true := by
    intro q
    obtain ⟨hperm, -⟩ := EntryRules.detect_of_entry hpaths (by simpa using hentry)
    rw [hperm.mem_iff, List.mem_filter, List.mem_map]
    exact ⟨fun ⟨⟨f, hf, hq⟩, he⟩ => ⟨f, hf, hq, he⟩, fun ⟨f, hf, hq, he⟩ => ⟨⟨f, hf, hq⟩, he⟩⟩
  rw [reachOf, (Graph.wellFormed_build files).mem_dead_iff]
  simp only [Graph.pathOf?, Graph.files_build hd, List.getElem?_map, Option.map_eq_some_iff]
  constructor
  · rintro ⟨i, ⟨f, hf, rfl⟩, hnot⟩
    rw [Graph.reached_build_iff hd hentries hf] at hnot
    exact ⟨f, List.mem_of_getElem? hf, rfl, hnot⟩
  · rintro ⟨f, hf, rfl, hnot⟩
    obtain ⟨i, hi⟩ := List.getElem?_of_mem hf
    refine ⟨i, ⟨f, hi, rfl⟩, ?_⟩
    rwa [Graph.reached_build_iff hd hentries hi]

/-- `reachOf` has no dead files, where no file is an entry point. -/
theorem dead_reachOf_eq_nil {s : Scanner σ} {files : List SourceFile} (hd : DistinctPaths files)
    (hne : files ≠ []) (hentry : ¬ ∃ f ∈ files, s.entries.isEntry f.path = true) :
    (s.reachOf files).dead = [] := by
  have hpaths := hd.pairwise_paths
  obtain ⟨hperm, -⟩ := @EntryRules.detect_of_no_entry s.entries _ hpaths (by simpa using hne)
    (by simpa using hentry)
  rw [List.eq_nil_iff_forall_not_mem]
  intro p hp
  rw [reachOf, (Graph.wellFormed_build files).mem_dead_iff] at hp
  obtain ⟨i, hi, hnot⟩ := hp
  -- every file is taken for an entry point, and is reached as such
  refine hnot ⟨p, ?_, i, ?_, .refl⟩
  · rw [Graph.files_build hd, hperm.mem_iff, ← Graph.files_build hd]
    exact List.mem_of_getElem? hi
  · exact (Graph.wellFormed_build files).nodeIndex?_eq_some_iff.2 ⟨p, hi, Path.same_refl p⟩

/-! ## A small project -/

/-- `basic` without a store is plain. -/
theorem isPlain_basic (root : Path) : (basic root .disabled).IsPlain :=
  ⟨rfl, rfl, fun _ => rfl⟩

/-- A file that is imported from the entry point, and one that imports it but is itself dead. -/
def sampleFiles : List SourceFile :=
  [⟨⟨"/p/b.js"⟩, .text "import './a'"⟩, ⟨⟨"/p/index.js"⟩, .text "import './a'"⟩,
    ⟨⟨"/p/a.js"⟩, .failed "denied"⟩]

/-- `sampleFiles` is a project with files. -/
theorem sampleFiles_ne_nil : sampleFiles ≠ [] :=
  List.cons_ne_nil _ _

/-- `sampleFiles` are at different places. -/
theorem distinctPaths_sampleFiles : DistinctPaths sampleFiles := by
  unfold DistinctPaths sampleFiles
  decide +kernel

/-- `sampleFiles` has an entry point. -/
theorem entry_sampleFiles :
    ∃ f ∈ sampleFiles, (basic ⟨"/p"⟩ .disabled).entries.isEntry f.path = true :=
  ⟨⟨⟨"/p/index.js"⟩, .text "import './a'"⟩, by simp [sampleFiles], by decide +kernel⟩

/-- `Live` does not hold of the file that nothing imports. -/
theorem not_live_sampleFiles :
    ¬ Live (basic ⟨"/p"⟩ .disabled).entries sampleFiles ⟨⟨"/p/b.js"⟩, .text "import './a'"⟩ := by
  intro h
  cases h with
  | entry _ hentry => exact absurd hentry (by decide +kernel)
  | imported hf _ himports =>
    -- no reference in any of the files stands for it
    have hnone : ∀ f ∈ sampleFiles, ∀ text ∈ f.text?, ∀ r ∈ (Import.extract text).references,
        ∀ target ∈ Resolution.resolve? (sampleFiles.map (·.path)) f.path r.specifier,
          target.same ⟨"/p/b.js"⟩ = false := by
      decide +kernel
    obtain ⟨text, htext, r, hr, -, target, htarget, hsame⟩ := himports
    rw [hnone _ hf.mem text htext r hr target htarget] at hsame
    cases hsame

/-! ## What is reported dead -/

/-- What a scan of files with distinct paths reports as dead. If some file is an entry point, these
    are the files that no chain of imports leads to from an entry point, in the strict order of
    paths. Otherwise no file is dead, and all files count as entry points. -/
theorem deadFiles_run_iff_not_live (s : Scanner σ) (hs : s.IsPlain) (moments : Nat → Store.Moment)
    (files : List SourceFile) (hne : files ≠ []) (hd : DistinctPaths files) (state : σ)
    (archive : Store.Archive) :
    ((∃ f ∈ files, s.entries.isEntry f.path = true) →
      (s.run moments files state archive).report.entryPointFallback = false ∧
      (s.run moments files state archive).report.deadFiles.Pairwise (fun p q => p.compare q = .lt) ∧
      ∀ p, p ∈ (s.run moments files state archive).report.deadFiles ↔
        ∃ f ∈ files, f.path = p ∧ ¬ Live s.entries files f) ∧
    ((¬ ∃ f ∈ files, s.entries.isEntry f.path = true) →
      (s.run moments files state archive).report.entryPointFallback = true ∧
      (s.run moments files state archive).report.stats.entryPoints = files.length ∧
      (s.run moments files state archive).report.deadFiles = []) := by
  have hpaths := hd.pairwise_paths
  rw [hs.deadFiles_run moments hne state archive]
  obtain ⟨r, hr, -, hcount, hfallback⟩ := hs.report_run moments hne state archive
  rw [hr]
  -- the nodes are the files, so entry points are looked for among these
  rw [Graph.files_build hd] at hcount hfallback
  refine ⟨fun hentry => ⟨?_, ?_, fun p => mem_dead_reachOf_iff hd hentry⟩,
    fun hentry => ⟨?_, ?_, dead_reachOf_eq_nil hd hne hentry⟩⟩
  · rw [← (EntryRules.detect_of_entry hpaths (by simpa using hentry)).2, ← hfallback]
    rfl
  · exact (Graph.wellFormed_build files).pairwise_dead _
  · rw [← (EntryRules.detect_of_no_entry hpaths (by simpa using hne) (by simpa using hentry)).2,
      ← hfallback]
    rfl
  · have hperm := (EntryRules.detect_of_no_entry hpaths (by simpa using hne)
      (by simpa using hentry)).1
    have hlength := hperm.length_eq
    rw [List.length_map, ← hcount] at hlength
    exact hlength

/-- The file that nothing imports is reported dead. -/
theorem deadFiles_run_sampleFiles :
    (basic ⟨"/p"⟩ .disabled).IsPlain ∧ DistinctPaths sampleFiles ∧
      (⟨"/p/b.js"⟩ : Path) ∈
        ((basic ⟨"/p"⟩ .disabled).run (fun _ => .calmAt 0) sampleFiles ()
          .new).report.deadFiles := by
  refine ⟨isPlain_basic _, distinctPaths_sampleFiles, ?_⟩
  obtain ⟨-, -, hmem⟩ := (deadFiles_run_iff_not_live (basic ⟨"/p"⟩ .disabled) (isPlain_basic _)
    (fun _ => .calmAt 0) sampleFiles sampleFiles_ne_nil distinctPaths_sampleFiles () .new).1
    entry_sampleFiles
  exact (hmem _).2 ⟨_, List.mem_cons_self, rfl, not_live_sampleFiles⟩

/-! ## Taking dead files away -/

/-- `unusedIn` of the files that are left is the same as before. -/
private theorem flatMap_unusedIn_without (s : Scanner σ) (files : List SourceFile)
    (gone : List Path) :
    (files.flatMap s.unusedIn).filter (fun i => !i.file.isIn gone) =
      (without files gone).flatMap s.unusedIn := by
  induction files with
  | nil => rfl
  | cons f files ih =>
    -- all issues of a file stay or all are left out
    have hfile : ∀ i ∈ s.unusedIn f, i.file.isIn gone = f.path.isIn gone := fun i hi => by
      rw [(of_mem_unusedIn hi).2]
    rw [List.flatMap_cons, List.filter_append, ih]
    unfold without
    cases hin : f.path.isIn gone with
    | true =>
      rw [List.filter_cons_of_neg (by simp [hin]), List.filter_eq_nil_iff.2, List.nil_append]
      exact fun i hi => by simp [hfile i hi, hin]
    | false =>
      rw [List.filter_cons_of_pos (by simp [hin]), List.filter_eq_self.2, List.flatMap_cons]
      exact fun i hi => by simp [hfile i hi, hin]

/-- `run` reports the unused imports of the files that are not `gone` as if these were all. -/
theorem IsPlain.unusedImports_run {s : Scanner σ} (hs : s.IsPlain) (moments : Nat → Store.Moment)
    {files : List SourceFile} (hne : files ≠ []) (state : σ) (archive : Store.Archive)
    (gone : List Path) :
    ((s.run moments files state archive).report.issuesOfKind .unusedImport).filter
        (fun i => !i.file.isIn gone) =
      Report.dropRepeats none (((without files gone).flatMap s.unusedIn).mergeSort Issue.le) := by
  obtain ⟨r, hr, hissues, -, -⟩ := hs.report_run moments hne state archive
  rw [hr, Report.issuesOfKind, List.filter_filter, Report.filter_issues_finish, hissues]
  · -- of what is found, only unused imports are of their kind
    have hunused : (files.flatMap s.unusedIn).filter (fun i => i.kind == .unusedImport) =
        files.flatMap s.unusedIn := by
      rw [List.filter_eq_self]
      intro i hi
      obtain ⟨f, -, hf⟩ := List.mem_flatMap.1 hi
      simp [(of_mem_unusedIn hf).1]
    have hdead : (s.reachOf files).issues.filter (fun i => i.kind == .unusedImport) = [] := by
      rw [List.filter_eq_nil_iff]
      intro i hi
      obtain ⟨p, -, rfl⟩ := List.mem_map.1 hi
      simp [Issue.ofKind]
    rw [← List.filter_filter, foundIn, List.filter_append, hunused, hdead, List.append_nil,
      flatMap_unusedIn_without]
  · intro a b hfile hkind
    rw [hkind, Path.isIn_congr hfile]

/-- `without` nothing all files are left. -/
private theorem without_nil (files : List SourceFile) : without files [] = files :=
  List.filter_eq_self.2 fun _ _ => rfl

/-- `Live` does not hold of dead files, where some file is an entry point. -/
private theorem not_live_of_gone {s : Scanner σ} {files : List SourceFile}
    (hd : DistinctPaths files) (hentry : ∃ f ∈ files, s.entries.isEntry f.path = true)
    {gone : List Path} (hgone : ∀ p ∈ gone, p ∈ (s.reachOf files).dead) :
    ∀ f ∈ files, f.path.isIn gone = true → ¬ Live s.entries files f := by
  intro f hf hin
  obtain ⟨p, hp, hsame⟩ := Path.isIn_iff.1 hin
  obtain ⟨g, hg, rfl, hnot⟩ := (mem_dead_reachOf_iff hd hentry).1 (hgone p hp)
  rwa [hd.eq_of_same hf hg hsame]

/-- `isEntry` holds of live files only, so no entry point is taken away. -/
private theorem filter_isEntry_without {rules : EntryRules} {files : List SourceFile}
    {gone : List Path} (hgone : ∀ f ∈ files, f.path.isIn gone = true → ¬ Live rules files f) :
    ((without files gone).map (·.path)).filter rules.isEntry =
      (files.map (·.path)).filter rules.isEntry := by
  rw [List.filter_map, List.filter_map, without, List.filter_filter]
  refine congrArg (List.map _) (List.filter_congr fun f hf => ?_)
  cases hentry : rules.isEntry f.path with
  | false => simp [hentry]
  | true =>
    have hkept : ¬ f.path.isIn gone = true := fun hin => hgone f hf hin (.entry hf hentry)
    simp [hentry, hkept]

/-- `reachOf` without dead files has the other dead files, and all others as they are. -/
theorem dead_reachOf_without {s : Scanner σ} {files : List SourceFile} (hd : DistinctPaths files)
    (hentry : ∃ f ∈ files, s.entries.isEntry f.path = true) {gone : List Path}
    (hgone : ∀ p ∈ gone, p ∈ (s.reachOf files).dead) :
    (s.reachOf (without files gone)).dead =
      (s.reachOf files).dead.filter fun p => !p.isIn gone := by
  have hdead := not_live_of_gone hd hentry hgone
  have hentry' : ∃ f ∈ without files gone, s.entries.isEntry f.path = true := by
    obtain ⟨f, hf, hfe⟩ := hentry
    exact ⟨f, ((live_without_iff hdead).2 (.entry hf hfe)).mem, hfe⟩
  -- both lists are in strict order, so it is enough to compare their members
  refine Path.eq_of_pairwise_lt ((Graph.wellFormed_build (without files gone)).pairwise_dead _)
    (((Graph.wellFormed_build files).pairwise_dead _).filter _) fun p => ?_
  rw [mem_dead_reachOf_iff (hd.without gone) hentry', List.mem_filter,
    mem_dead_reachOf_iff hd hentry]
  constructor
  · rintro ⟨f, hf, rfl, hnot⟩
    obtain ⟨hmem, hkept⟩ := mem_without_iff.1 hf
    exact ⟨⟨f, hmem, rfl, fun h => hnot ((live_without_iff hdead).2 h)⟩, by rw [hkept]; rfl⟩
  · rintro ⟨⟨f, hmem, rfl, hnot⟩, hkept⟩
    rw [Bool.not_eq_true'] at hkept
    exact ⟨f, mem_without_iff.2 ⟨hmem, hkept⟩, rfl, fun h => hnot ((live_without_iff hdead).1 h)⟩

/-- `detect` without dead files finds the same entry points. -/
theorem detect_without {s : Scanner σ} {files : List SourceFile} (hd : DistinctPaths files)
    (hentry : ∃ f ∈ files, s.entries.isEntry f.path = true) {gone : List Path}
    (hgone : ∀ p ∈ gone, p ∈ (s.reachOf files).dead) :
    (s.entries.detect ((without files gone).map (·.path))).paths.Perm
        (s.entries.detect (files.map (·.path))).paths ∧
      (s.entries.detect ((without files gone).map (·.path))).fallback =
        (s.entries.detect (files.map (·.path))).fallback := by
  -- no entry point is dead, so all of them are left
  have hsame := filter_isEntry_without (not_live_of_gone hd hentry hgone)
  have hentry₁ : ∃ p ∈ files.map (·.path), s.entries.isEntry p = true := by simpa using hentry
  have hentry₂ : ∃ p ∈ (without files gone).map (·.path), s.entries.isEntry p = true := by
    obtain ⟨p, hp, hpe⟩ := hentry₁
    have hmem := List.mem_filter.2 ⟨hp, hpe⟩
    rw [← hsame] at hmem
    exact ⟨p, List.mem_filter.1 hmem⟩
  obtain ⟨hperm₁, hfallback₁⟩ := EntryRules.detect_of_entry hd.pairwise_paths hentry₁
  obtain ⟨hperm₂, hfallback₂⟩ := EntryRules.detect_of_entry (hd.without gone).pairwise_paths hentry₂
  rw [hsame] at hperm₂
  exact ⟨hperm₂.trans hperm₁.symm, hfallback₂.trans hfallback₁.symm⟩

/-- `reachOf` and `detect` without dead files, whether or not there are entry points. -/
private theorem graph_without {s : Scanner σ} {files : List SourceFile} (hne : files ≠ [])
    (hd : DistinctPaths files) {gone : List Path}
    (hgone : ∀ p ∈ gone, p ∈ (s.reachOf files).dead) :
    without files gone ≠ [] ∧
      (s.reachOf (without files gone)).dead =
        (s.reachOf files).dead.filter (fun p => !p.isIn gone) ∧
      (s.entries.detect ((without files gone).map (·.path))).paths.length =
        (s.entries.detect (files.map (·.path))).paths.length ∧
      (s.entries.detect ((without files gone).map (·.path))).fallback =
        (s.entries.detect (files.map (·.path))).fallback := by
  by_cases hentry : ∃ f ∈ files, s.entries.isEntry f.path = true
  · obtain ⟨hperm, hfallback⟩ := detect_without hd hentry hgone
    refine ⟨?_, dead_reachOf_without hd hentry hgone, hperm.length_eq, hfallback⟩
    have hdead := not_live_of_gone hd hentry hgone
    obtain ⟨f, hf, hfe⟩ := hentry
    exact List.ne_nil_of_mem ((live_without_iff hdead).2 (.entry hf hfe)).mem
  · -- without an entry point nothing is dead, so nothing is taken away
    have hnil : gone = [] := by
      rw [dead_reachOf_eq_nil hd hne hentry] at hgone
      exact List.eq_nil_iff_forall_not_mem.2 fun p hp => nomatch hgone p hp
    rw [hnil, without_nil]
    exact ⟨hne, (List.filter_eq_self.2 fun _ _ => rfl).symm, rfl, rfl⟩

/-- Dead files can be taken away. A scan of the other files reports the other dead files and no
    more, has as many entry points and found them in the same way, and reports the same unused
    imports for the files that are left. -/
theorem run_without_dead (s : Scanner σ) (hs : s.IsPlain) (files : List SourceFile)
    (hne : files ≠ []) (hd : DistinctPaths files) (moments moments' : Nat → Store.Moment)
    (state state' : σ) (archive archive' : Store.Archive) (gone : List Path)
    (hgone : ∀ p ∈ gone, p ∈ (s.run moments files state archive).report.deadFiles) :
    let before := (s.run moments files state archive).report
    let after := (s.run moments' (without files gone) state' archive').report
    after.deadFiles = before.deadFiles.filter (fun p => !p.isIn gone) ∧
      after.stats.entryPoints = before.stats.entryPoints ∧
      after.entryPointFallback = before.entryPointFallback ∧
      after.issuesOfKind .unusedImport =
        (before.issuesOfKind .unusedImport).filter fun i => !i.file.isIn gone := by
  intro before after
  rw [hs.deadFiles_run moments hne state archive] at hgone
  -- what the graph says changes as claimed, and the rest is said file by file
  obtain ⟨hne', hdead, hcount, hfallback⟩ := graph_without hne hd hgone
  obtain ⟨r, hr, -, hrcount, hrfallback⟩ := hs.report_run moments hne state archive
  obtain ⟨r', hr', -, hrcount', hrfallback'⟩ := hs.report_run moments' hne' state' archive'
  rw [Graph.files_build hd] at hrcount hrfallback
  rw [Graph.files_build (hd.without gone)] at hrcount' hrfallback'
  refine ⟨?_, ?_, ?_, ?_⟩
  · rw [hs.deadFiles_run moments' hne', hs.deadFiles_run moments hne, hdead]
  · simp only [before, after, hr, hr']
    exact hrcount'.trans (hcount.trans hrcount.symm)
  · simp only [before, after, hr, hr']
    exact hrfallback'.trans (hfallback.trans hrfallback.symm)
  · have hafter := hs.unusedImports_run moments' hne' state' archive' []
    rw [without_nil] at hafter
    rw [hs.unusedImports_run moments hne, ← hafter]
    exact (List.filter_eq_self.2 fun _ _ => rfl).symm

/-- Without the file that nothing imports, the other dead files are reported. -/
theorem run_without_dead_sampleFiles :
    (∀ p ∈ [(⟨"/p/b.js"⟩ : Path)],
      p ∈ ((basic ⟨"/p"⟩ .disabled).run (fun _ => .calmAt 0) sampleFiles ()
        .new).report.deadFiles) ∧
    ((basic ⟨"/p"⟩ .disabled).run (fun _ => .calmAt 1) (without sampleFiles [⟨"/p/b.js"⟩]) ()
        .new).report.deadFiles =
      ((basic ⟨"/p"⟩ .disabled).run (fun _ => .calmAt 0) sampleFiles ()
        .new).report.deadFiles.filter fun p => !p.isIn [⟨"/p/b.js"⟩] := by
  have hdead : ∀ p ∈ [(⟨"/p/b.js"⟩ : Path)],
      p ∈ ((basic ⟨"/p"⟩ .disabled).run (fun _ => .calmAt 0) sampleFiles ()
        .new).report.deadFiles := by
    intro p hp
    rw [List.mem_singleton.1 hp, (isPlain_basic _).deadFiles_run _ sampleFiles_ne_nil,
      mem_dead_reachOf_iff distinctPaths_sampleFiles entry_sampleFiles]
    exact ⟨_, List.mem_cons_self, rfl, not_live_sampleFiles⟩
  exact ⟨hdead, (run_without_dead (basic ⟨"/p"⟩ .disabled) (isPlain_basic _) sampleFiles
    sampleFiles_ne_nil distinctPaths_sampleFiles (fun _ => .calmAt 0) (fun _ => .calmAt 1) () ()
    .new .new _ hdead).1⟩

end Scanner
end Deadwood
