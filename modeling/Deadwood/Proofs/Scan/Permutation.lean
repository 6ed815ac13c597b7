import Deadwood.Proofs.Graph.Cycle
import Deadwood.Proofs.Scan.DeadFiles

/-!
# Files in another order

A scan goes through the files in the order in which they are given, and numbers the nodes of the
graph by it. Nothing of this is left in the report (`run_perm`): what an outcome adds belongs to its
file, and is put into order together with what the other files add; which files import, are entry
points, dead or in a dead cycle is a matter of the files as a set.
-/

namespace Deadwood

open Scan

variable {files files' : List SourceFile}

/-! ## The graph of files in another order -/

/-- `DistinctPaths` does not depend on the order. -/
theorem DistinctPaths.perm (hd : DistinctPaths files) (hperm : files.Perm files') :
    DistinctPaths files' :=
  List.pairwise_map.1 (Path.pairwise_not_same_perm (hperm.map _) hd.pairwise_paths)

/-- `resolve?` does not depend on the order of the known paths. -/
theorem Resolution.resolve?_perm {known known' : List Path} (hperm : known.Perm known')
    (importer : Path) (specifier : String) :
    resolve? known importer specifier = resolve? known' importer specifier := by
  have hknown : (fun p : Path => p.isIn known) = fun p => p.isIn known' :=
    funext fun p => hperm.any_eq
  simp only [resolve?, hknown]

/-- `Imports` does not depend on the order of the files. -/
theorem imports_perm (hperm : files.Perm files') : Imports files = Imports files' := by
  have hresolve := Resolution.resolve?_perm (hperm.map (·.path))
  funext f g
  simp only [Imports, hresolve]

/-- `Live` does not depend on the order of the files. -/
theorem Live.perm {rules : EntryRules} (hperm : files.Perm files') {f : SourceFile}
    (h : Live rules files f) : Live rules files' f := by
  induction h with
  | entry hf hentry => exact .entry (hperm.mem_iff.1 hf) hentry
  | imported _ hg himports ih =>
    rw [imports_perm hperm] at himports
    exact .imported ih (hperm.mem_iff.1 hg) himports

/-- `Graph.Edge` in the graph of a project is that one file `Imports` the other. -/
theorem Graph.edge_build_iff (hd : DistinctPaths files) {p q : Path} :
    (build files).graph.Edge p q ↔
      ∃ f ∈ files, ∃ g ∈ files, f.path = p ∧ g.path = q ∧ Imports files f g := by
  simp only [Edge, pathOf?, files_build hd, List.getElem?_map, Option.map_eq_some_iff,
    mem_imports_build_iff hd]
  constructor
  · rintro ⟨i, j, ⟨f, hf, rfl⟩, ⟨g, hg, rfl⟩, f', g', hf', hg', himports⟩
    -- a number stands for one file only
    cases hf.symm.trans hf'
    cases hg.symm.trans hg'
    exact ⟨f, List.mem_of_getElem? hf, g, List.mem_of_getElem? hg, rfl, rfl, himports⟩
  · rintro ⟨f, hf, g, hg, rfl, rfl, himports⟩
    obtain ⟨i, hi⟩ := List.getElem?_of_mem hf
    obtain ⟨j, hj⟩ := List.getElem?_of_mem hg
    exact ⟨i, j, ⟨f, hi, rfl⟩, ⟨g, hj, rfl⟩, f, g, hi, hj, himports⟩

/-- `detect` finds as many entry points, in whichever order the paths are. -/
theorem EntryRules.detect_perm (rules : EntryRules) {paths paths' : List Path}
    (hd : paths.Pairwise fun p q => p.same q = false) (hperm : paths.Perm paths') :
    (rules.detect paths).paths.length = (rules.detect paths').paths.length ∧
      (rules.detect paths).fallback = (rules.detect paths').fallback := by
  have hd' := Path.pairwise_not_same_perm hperm hd
  by_cases hne : paths = []
  · subst hne
    rw [hperm.nil_eq]
    exact ⟨rfl, rfl⟩
  · have hne' : paths' ≠ [] := fun h => hne (h ▸ hperm).eq_nil
    -- the entry points are a part of the paths, or all of them if there are none
    by_cases hentry : ∃ p ∈ paths, rules.isEntry p = true
    · obtain ⟨hpaths, hfallback⟩ := detect_of_entry hd hentry
      obtain ⟨hpaths', hfallback'⟩ := detect_of_entry hd' (by simpa [hperm.mem_iff] using hentry)
      rw [hpaths.length_eq, hpaths'.length_eq, hfallback, hfallback']
      exact ⟨(hperm.filter _).length_eq, rfl⟩
    · obtain ⟨hpaths, hfallback⟩ := detect_of_no_entry hd hne hentry
      obtain ⟨hpaths', hfallback'⟩ :=
        detect_of_no_entry hd' hne' (by simpa [hperm.mem_iff] using hentry)
      rw [hpaths.length_eq, hpaths'.length_eq, hfallback, hfallback']
      exact ⟨hperm.length_eq, rfl⟩

namespace Scan

variable {σ : Type}

/-! ## What belongs to a file -/

/-- The issues of the analyzer name the file that it looks at. -/
def Analyzer.NamesFile (a : Analyzer σ) : Prop :=
  ∀ state text file issues, (a.analyze state text file).1 = .issues issues →
    ∀ i ∈ issues, i.file.same file = true

/-- `unusedImports` names the file that it looks at. -/
theorem Analyzer.unusedImports_namesFile (checkTypes : Bool) :
    (unusedImports σ checkTypes).NamesFile := by
  rintro state text file _ ⟨⟩ i hi
  rw [(of_mem_unusedIssues hi).2]
  exact Path.same_refl file

end Scan

namespace Scanner

variable {σ : Type} {s : Scanner σ}

/-- `freshOutcome` names the file in all that it says. -/
theorem names_freshOutcome (hnames : ∀ a ∈ s.extra, a.NamesFile) (state : σ) (f : SourceFile) :
    (∀ i ∈ (s.freshOutcome state f).issues, i.file.same f.path = true) ∧
      ∀ w ∈ (s.freshOutcome state f).warnings, w.file = some f.path := by
  unfold freshOutcome
  cases f.reading with
  | failed reason => exact ⟨List.forall_mem_nil _, by simp [unreadableOutcome, fileWarning]⟩
  | text text =>
    simp only
    cases hpass : s.passOf state f.path text with
    | crashed => exact ⟨List.forall_mem_nil _, by simp [Outcome.ofPass, crashOutcome, fileWarning]⟩
    | hung => exact ⟨List.forall_mem_nil _, by simp [Outcome.ofPass, timeoutOutcome, fileWarning]⟩
    | finished found =>
      obtain ⟨state', hpass⟩ := finished_runPass_of_runAttempts hpass
      -- what is found is put together from issues and warnings, analyzer by analyzer
      refine @finished_induction _ _ _
        (fun found => (∀ i ∈ found.issues, i.file.same f.path = true) ∧
        ∀ w ∈ found.warnings, w.file = some f.path) _
        ⟨List.forall_mem_nil _, List.forall_mem_nil _⟩ ?_ ?_ _ _ hpass
      · intro a ha state issues hissues found hfound
        have hname : a.NamesFile := by
          rcases List.mem_cons.1 ha with rfl | ha
          · exact Analyzer.unusedImports_namesFile _
          · exact hnames a ha
        refine ⟨fun i hi => ?_, hfound.2⟩
        rcases List.mem_append.1 hi with hi | hi
        · exact hname state text f.path issues hissues i hi
        · exact hfound.1 i hi
      · intro a _ reasons found hfound
        refine ⟨hfound.1, fun w hw => ?_⟩
        rcases List.mem_cons.1 hw with rfl | hw
        · rfl
        · exact hfound.2 w hw

/-! ## The report -/

/-- `reachOf` has the same dead files, in whichever order the files are. -/
theorem dead_reachOf_perm (hd : DistinctPaths files) (hperm : files.Perm files') :
    (s.reachOf files).dead = (s.reachOf files').dead := by
  have hd' := hd.perm hperm
  by_cases hne : files = []
  · subst hne
    rw [hperm.nil_eq]
  · have hne' : files' ≠ [] := fun h => hne (h ▸ hperm).eq_nil
    by_cases hentry : ∃ f ∈ files, s.entries.isEntry f.path = true
    · -- both lists are in strict order, so it is enough to compare their members
      refine Path.eq_of_pairwise_lt ((Graph.wellFormed_build files).pairwise_dead _)
        ((Graph.wellFormed_build files').pairwise_dead _) fun p => ?_
      have hlive : ∀ f, Live s.entries files f ↔ Live s.entries files' f := fun f =>
        ⟨fun h => h.perm hperm, fun h => h.perm hperm.symm⟩
      refine (mem_dead_reachOf_iff hd hentry).trans (Iff.trans ?_
        (mem_dead_reachOf_iff hd' (by simpa [hperm.mem_iff] using hentry)).symm)
      simp only [hperm.mem_iff, hlive]
    · rw [dead_reachOf_eq_nil hd hne hentry,
        dead_reachOf_eq_nil hd' hne' (by simpa [hperm.mem_iff] using hentry)]

/-- `Graph.deadCycles` are the same, in whichever order the files are. -/
theorem deadCycles_perm (hd : DistinctPaths files) (hperm : files.Perm files') :
    (Graph.build files).graph.deadCycles (s.reachOf files) =
      (Graph.build files').graph.deadCycles (s.reachOf files') := by
  have hd' := hd.perm hperm
  have hg := Graph.wellFormed_build files
  have hg' := Graph.wellFormed_build files'
  have hfiles : ∀ p, p ∈ (Graph.build files).graph.files ↔ p ∈ (Graph.build files').graph.files :=
    fun p => by rw [Graph.files_build hd, Graph.files_build hd', (hperm.map _).mem_iff]
  -- the graphs differ in the numbers of the files only
  refine hg.deadCycles_congr hg' hfiles (fun p q => ?_) fun p hp => ?_
  · rw [Graph.edge_build_iff hd, Graph.edge_build_iff hd', imports_perm hperm]
    simp only [hperm.mem_iff]
  · rw [Bool.eq_iff_iff, reachOf, reachOf, Graph.isReachable_iff hp,
      Graph.isReachable_iff ((hfiles p).1 hp)]
    exact not_congr (by rw [← reachOf, ← reachOf, dead_reachOf_perm hd hperm])

/-- `Issue.le` brings issues of files in another order into the same order. -/
theorem sorted_issues_perm (hnames : ∀ a ∈ s.extra, a.NamesFile) (hd : DistinctPaths files)
    (hperm : files.Perm files') (state : σ) (more : List Issue) :
    (files.flatMap (fun f => (s.freshOutcome state f).issues) ++ more).mergeSort Issue.le =
      (files'.flatMap (fun f => (s.freshOutcome state f).issues) ++ more).mergeSort Issue.le := by
  refine @List.Perm.mergeSort_flatMap_append_eq _ _ Issue.compare _ _ _ hperm hd.nodup _ ?_ more
  intro f hf g hg i hi j hj heq
  refine hd.eq_of_same hf hg ?_
  -- both paths name the place that both issues are about
  rw [← Path.same_congr ((names_freshOutcome hnames state f).1 i hi),
    Path.same_congr (Issue.same_file_of_compare heq)]
  exact (names_freshOutcome hnames state g).1 j hj

/-- `Warning.le` brings warnings about files in another order into the same order. -/
theorem sorted_warnings_perm (hnames : ∀ a ∈ s.extra, a.NamesFile) (hd : DistinctPaths files)
    (hperm : files.Perm files') (state : σ) :
    (files.flatMap fun f => (s.freshOutcome state f).warnings).mergeSort Warning.le =
      (files'.flatMap fun f => (s.freshOutcome state f).warnings).mergeSort Warning.le := by
  have hsorted := @List.Perm.mergeSort_flatMap_append_eq _ _ Warning.compare _ _ _ hperm hd.nodup
    (fun f => (s.freshOutcome state f).warnings) ?_ []
  · rw [List.append_nil, List.append_nil] at hsorted
    exact hsorted
  · intro f hf g hg v hv w hw heq
    refine hd.eq_of_same hf hg (Path.compare_eq_iff.1 ?_)
    -- warnings that compare equal are about one file
    have hfile := (Ordering.then_eq_eq.1 heq).1
    rwa [(names_freshOutcome hnames state f).2 v hv,
      (names_freshOutcome hnames state g).2 w hw] at hfile

/-- What `addDead` adds to a report. -/
theorem addDead_eq (s : Scanner σ) (files : List SourceFile) (r : Report) :
    addDead s.entries files r =
      { r with
        stats := { r.stats with
          entryPoints := (s.entries.detect (Graph.build files).graph.files).paths.length }
        entryPointFallback := (s.entries.detect (Graph.build files).graph.files).fallback
        issues := r.issues ++ (s.reachOf files).issues
        deadCycles := (Graph.build files).graph.deadCycles (s.reachOf files) } := rfl

/-- The report of a scan does not depend on the order of the files. -/
theorem run_perm (s : Scanner σ) (hstore : s.store.enabled = false)
    (hrun : ∀ state, s.isCancelled state = false) (hpure : ∀ a ∈ s.extra, a.IsPure)
    (hnames : ∀ a ∈ s.extra, a.NamesFile) (files files' : List SourceFile)
    (hd : DistinctPaths files) (hperm : files.Perm files') (moments moments' : Nat → Store.Moment)
    (state state' : σ) (archive archive' : Store.Archive) :
    (s.run moments files state archive).report =
      (s.run moments' files' state' archive').report := by
  have hpure := isPure_of_extra hpure
  by_cases hne : files = []
  · subst hne
    cases hperm.nil_eq
    rw [run_nil, run_nil]
  · have hne' : files' ≠ [] := fun h => hne (h ▸ hperm).eq_nil
    have hfresh : s.freshOutcome state' = s.freshOutcome state :=
      funext fun f => freshOutcome_eq hpure state' state f
    have houtcomes := hperm.map (s.freshOutcome state)
    obtain ⟨hcount, hfallback⟩ := s.entries.detect_perm hd.pairwise_paths (hperm.map (·.path))
    rw [← Graph.files_build hd, ← Graph.files_build (hd.perm hperm)] at hcount hfallback
    have hdead : (s.reachOf files).issues = (s.reachOf files').issues := by
      rw [Graph.Reach.issues, Graph.Reach.issues, dead_reachOf_perm hd hperm]
    rw [report_run_of_disabled hstore hpure hrun moments hne state archive,
      report_run_of_disabled hstore hpure hrun moments' hne' state' archive', hfresh, ← entries,
      addDead_eq, addDead_eq, deadCycles_perm hd hperm, hcount, hfallback, hdead]
    -- counters are counted over the same outcomes; issues and warnings are sorted
    refine Report.finish_congr ?_ ?_ ?_ rfl rfl rfl
    · simp only [reportOf, houtcomes.length_eq, houtcomes.countP_eq]
    · simp only [reportOf, List.flatMap_map]
      exact sorted_issues_perm hnames hd hperm state _
    · simp only [reportOf, List.flatMap_map]
      exact sorted_warnings_perm hnames hd hperm state

/-- A scanner with an analyzer that has something to say about some files, gives up on others, and
    hangs on empty ones. -/
def remarking : Scanner Unit where
  root := ⟨"/p"⟩
  settings := Settings.standard
  extra := [{
    name := "remark"
    analyze := fun state text file =>
      (if text = "" then .hang
        else if file = ⟨"/p/b.js"⟩ then .failure ["no remark"]
        else .issues
          [.ofKind (.external "remark") file "found", .ofKind .unusedImport file "found"],
        state) }]
  isCancelled _ := false
  ownStore := some Store.disabled

/-- The sample and its reverse are reported alike by a scanner with an analyzer of its own. -/
theorem run_perm_sampleFiles :
    DistinctPaths sampleFiles ∧ sampleFiles.Perm sampleFiles.reverse ∧
      (remarking.run (fun _ => .calmAt 0) sampleFiles () .new).report =
        (remarking.run (fun _ => .calmAt 7) sampleFiles.reverse ()
          { Store.Archive.new with shelf := .blocked }).report := by
  have hperm := (List.reverse_perm sampleFiles).symm
  refine ⟨distinctPaths_sampleFiles, hperm, run_perm remarking rfl (fun _ => rfl) ?_ ?_
    sampleFiles _ distinctPaths_sampleFiles hperm (fun _ => .calmAt 0) (fun _ => .calmAt 7) ()
      () .new
    { Store.Archive.new with shelf := .blocked }⟩
  · intro a ha state state' text file
    cases List.mem_singleton.1 ha
    rfl
  · intro a ha state text file issues hissues i hi
    cases List.mem_singleton.1 ha
    simp only at hissues
    split at hissues
    · cases hissues
    · split at hissues
      · cases hissues
      · cases hissues
        simp only [List.mem_cons, List.not_mem_nil, or_false] at hi
        rcases hi with rfl | rfl
        · exact Path.same_refl file
        · exact Path.same_refl file

end Scanner
end Deadwood
