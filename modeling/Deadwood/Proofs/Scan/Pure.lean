import Deadwood.Scan.Run

/-!
# Analyzers without memory

An analyzer is pure if what it comes to depends on the text and the path alone. With pure analyzers
the outcome of a file does not depend on what was analyzed before (`Scanner.freshOutcome`), so a
scan without a store is told by its files: `report_run_of_disabled`.

Of analyzers with memory it can still be said what a finished pass is made of: `finished_induction`.
-/

namespace Deadwood

open Scan

/-- `SourceFile.text?` is there if the reading has come to a text. -/
theorem SourceFile.text?_eq_some_iff {f : SourceFile} {text : String} :
    f.text? = some text ↔ f.reading = .text text := by
  unfold text?
  cases f.reading <;> simp

namespace Scan

variable {σ : Type}

/-! ## Finished passes -/

/-- `Pass.map` makes a finished pass of a finished one only. -/
theorem Pass.map_eq_finished_iff {f : Findings → Findings} {p : Pass} {found : Findings} :
    p.map f = .finished found ↔ ∃ found', p = .finished found' ∧ f found' = found := by
  cases p <;> simp [Pass.map]

/-- `runPass` that finishes has found what is put together from the issues of analyzers and from
    warnings about those that gave up. -/
theorem finished_induction {text : String} {file : Path} {motive : Findings → Prop}
    {analyzers : List (Analyzer σ)} (hempty : motive .empty)
    (hissues : ∀ a ∈ analyzers, ∀ state issues, (a.analyze state text file).1 = .issues issues →
      ∀ found, motive found → motive (found.addIssues issues))
    (hfailure : ∀ a ∈ analyzers, ∀ reasons found, motive found →
      motive (found.addWarning (failureWarning a.name file reasons)))
    {state : σ} {found : Findings} (h : (runPass text file analyzers state).1 = .finished found) :
    motive found := by
  induction analyzers generalizing state found with
  | nil =>
    cases h
    exact hempty
  | cons a rest ih =>
    have ih := @ih (fun b hb => hissues b (List.mem_cons_of_mem a hb))
      (fun b hb => hfailure b (List.mem_cons_of_mem a hb))
    have hissues := hissues a List.mem_cons_self state
    have hfailure := hfailure a List.mem_cons_self
    unfold runPass at h
    -- what the first analyzer comes to decides whether the others are asked
    generalize a.analyze state text file = r at h hissues
    obtain ⟨verdict, next⟩ := r
    cases verdict with
    | issues issues =>
      obtain ⟨found', hrest, rfl⟩ := Pass.map_eq_finished_iff.1 h
      exact hissues issues rfl found' (ih hrest)
    | failure reasons =>
      obtain ⟨found', hrest, rfl⟩ := Pass.map_eq_finished_iff.1 h
      exact hfailure reasons found' (ih hrest)
    | crash => cases h
    | hang => cases h

/-- `runAttempts` that end with findings end with those of one pass. -/
theorem finished_runPass_of_runAttempts {text : String} {file : Path}
    {analyzers : List (Analyzer σ)} {n : Nat} {state : σ} {found : Findings}
    (h : (runAttempts text file analyzers n state).1 = .finished found) :
    ∃ state', (runPass text file analyzers state').1 = .finished found := by
  induction n generalizing state with
  | zero => cases h
  | succ n ih =>
    unfold runAttempts at h
    split at h
    · exact ih h
    · exact ⟨state, h⟩

/-- `unusedIssues` are of one kind and about the file. -/
theorem of_mem_unusedIssues {checkTypes : Bool} {file : Path} {text : String} {i : Issue}
    (hi : i ∈ Import.unusedIssues checkTypes file text) :
    i.kind = .unusedImport ∧ i.file = file := by
  simp only [Import.unusedIssues, List.mem_flatMap, List.mem_map] at hi
  obtain ⟨statement, -, binding, -, rfl⟩ := hi
  exact ⟨rfl, rfl⟩

/-! ## Pure analyzers -/

/-- What the analyzer comes to depends on the text and the path alone. -/
def Analyzer.IsPure (a : Analyzer σ) : Prop :=
  ∀ state state' text file, (a.analyze state text file).1 = (a.analyze state' text file).1

/-- `unusedImports` is pure. -/
theorem Analyzer.unusedImports_isPure (checkTypes : Bool) : (unusedImports σ checkTypes).IsPure :=
  fun _ _ _ _ => rfl

/-- `runPass` of pure analyzers ends in a way that does not depend on the state it starts with. -/
theorem runPass_fst_eq {analyzers : List (Analyzer σ)} (hpure : ∀ a ∈ analyzers, a.IsPure)
    (text : String) (file : Path) (state state' : σ) :
    (runPass text file analyzers state).1 = (runPass text file analyzers state').1 := by
  induction analyzers generalizing state state' with
  | nil => rfl
  | cons a rest ih =>
    have ha := hpure a List.mem_cons_self state state' text file
    have hrest := ih fun b hb => hpure b (List.mem_cons_of_mem a hb)
    unfold runPass
    generalize a.analyze state text file = r at ha
    generalize a.analyze state' text file = r' at ha
    -- the verdicts are the same, only the states that they leave may differ
    obtain ⟨verdict, s⟩ := r
    obtain ⟨verdict', s'⟩ := r'
    cases ha
    cases verdict with
    | issues found => exact congrArg (Pass.map (Findings.addIssues found)) (hrest s s')
    | failure reasons =>
      exact congrArg (Pass.map (Findings.addWarning (failureWarning a.name file reasons)))
        (hrest s s')
    | crash => rfl
    | hang => rfl

/-- `runAttempts` of pure analyzers end in a way that does not depend on the state they start with.
    -/
theorem runAttempts_fst_eq {analyzers : List (Analyzer σ)} (hpure : ∀ a ∈ analyzers, a.IsPure)
    (text : String) (file : Path) (n : Nat) (state state' : σ) :
    (runAttempts text file analyzers n state).1 = (runAttempts text file analyzers n state').1 := by
  induction n generalizing state state' with
  | zero => rfl
  | succ n ih =>
    have hpass := runPass_fst_eq hpure text file state state'
    unfold runAttempts
    -- only a crash leads to another attempt, from whatever state it leaves
    generalize runPass text file analyzers state = r at hpass
    generalize runPass text file analyzers state' = r' at hpass
    obtain ⟨pass, s⟩ := r
    obtain ⟨pass', s'⟩ := r'
    cases hpass
    cases pass with
    | finished found => rfl
    | crashed => exact ih s s'
    | hung => rfl

/-- The outcome of a file on which the attempts ended like this, apart from the store. -/
def Outcome.ofPass (limit : Nat) (file : Path) : Pass → Outcome
  | .finished found => analyzedOutcome found
  | .crashed => crashOutcome file
  | .hung => timeoutOutcome file limit

end Scan

namespace Scanner

variable {σ : Type}

/-- How the attempts at a file end. -/
def passOf (s : Scanner σ) (state : σ) (file : Path) (text : String) : Pass :=
  (runAttempts text file s.analyzers maxAttempts state).1

/-- The outcome of a file that is not looked up in a store. -/
def freshOutcome (s : Scanner σ) (state : σ) (f : SourceFile) : Outcome :=
  match f.reading with
  | .failed reason => unreadableOutcome f.path reason
  | .text text => .ofPass s.settings.analyzerTimeout f.path (s.passOf state f.path text)

/-- The analyzers of the scanner are pure. -/
def IsPure (s : Scanner σ) : Prop := ∀ a ∈ s.analyzers, a.IsPure

/-- `passOf` does not depend on the state, if the analyzers are pure. -/
theorem passOf_eq {s : Scanner σ} (hpure : s.IsPure) (state state' : σ) (file : Path)
    (text : String) : s.passOf state file text = s.passOf state' file text :=
  runAttempts_fst_eq hpure text file maxAttempts state state'

/-- `freshOutcome` does not depend on the state, if the analyzers are pure. -/
theorem freshOutcome_eq {s : Scanner σ} (hpure : s.IsPure) (state state' : σ) (f : SourceFile) :
    s.freshOutcome state f = s.freshOutcome state' f := by
  unfold freshOutcome
  split
  · rfl
  · rw [passOf_eq hpure state state']

/-- `IsPure` is a matter of the analyzers that are added, as the built-in one is pure. -/
theorem isPure_of_extra {s : Scanner σ} (h : ∀ a ∈ s.extra, a.IsPure) : s.IsPure := by
  intro a ha
  rcases List.mem_cons.1 ha with rfl | ha
  · exact Analyzer.unusedImports_isPure _
  · exact h a ha

/-- A scan of a project that sets nothing, with the built-in analyzer alone. -/
def basic (root : Path) (store : Store) : Scanner Unit where
  root
  settings := Settings.standard
  extra := []
  isCancelled _ := false
  ownStore := some store

/-- `basic` has pure analyzers. -/
theorem isPure_basic (root : Path) (store : Store) : (basic root store).IsPure :=
  isPure_of_extra nofun

/-! ## Scans without a store -/

/-- `outcomeOf` without a store is the outcome of analyzing the file, and the shelf stays. -/
theorem outcomeOf_of_disabled {s : Scanner σ} (hstore : s.store.enabled = false)
    (asked kept : Store.Moment) (f : SourceFile) (state : σ) (archive : Store.Archive) :
    ∃ state', s.outcomeOf asked kept f state archive =
      (s.freshOutcome state f, state', archive) := by
  unfold outcomeOf freshOutcome
  cases f.reading with
  | failed reason => exact ⟨state, rfl⟩
  | text text =>
    -- a store that is off finds nothing and keeps nothing
    simp only [readableOutcome, Store.get, Store.find, hstore, analyzeFile, Store.set, passOf]
    generalize runAttempts text f.path s.analyzers maxAttempts state = r
    obtain ⟨pass, state'⟩ := r
    refine ⟨state', ?_⟩
    cases pass with
    | finished found => simp [Outcome.ofPass]
    | crashed => rfl
    | hung => rfl

/-- `runFiles` without a store, told by nobody to stop, goes through all files. -/
theorem runFiles_of_disabled {s : Scanner σ} (hstore : s.store.enabled = false) (hpure : s.IsPure)
    (hrun : ∀ state, s.isCancelled state = false) (moments : Nat → Store.Moment)
    (files : List SourceFile) (state : σ) (archive : Store.Archive) :
    (s.runFiles moments files state archive).outcomes = files.map (s.freshOutcome state) := by
  induction files generalizing moments state with
  | nil => rfl
  | cons f rest ih =>
    obtain ⟨state', hf⟩ := outcomeOf_of_disabled hstore (moments 0) (moments 1) f state archive
    rw [runFiles, hrun state, if_neg (by simp), hf]
    show _ :: (s.runFiles (fun n => moments (n + 2)) rest state' archive).outcomes = _
    rw [ih _ state', List.map_cons]
    congr 1
    -- the state that the first file leaves makes no difference to the others
    exact List.map_congr_left fun g _ => freshOutcome_eq hpure state' state g

/-- A `run` over no files says so, and does nothing. -/
theorem run_nil (s : Scanner σ) (moments : Nat → Store.Moment) (state : σ)
    (archive : Store.Archive) :
    s.run moments [] state archive = { report := emptyReport s.root, state, archive } := by
  simp only [run, List.isEmpty_nil, if_true]

/-- `run` without a store reports what the files come to when each is analyzed. -/
theorem report_run_of_disabled {s : Scanner σ} (hstore : s.store.enabled = false)
    (hpure : s.IsPure) (hrun : ∀ state, s.isCancelled state = false)
    (moments : Nat → Store.Moment) {files : List SourceFile} (hne : files ≠ []) (state : σ)
    (archive : Store.Archive) :
    (s.run moments files state archive).report =
      (addDead (entryRules s.root s.settings) files
        (reportOf (files.map (s.freshOutcome state)))).finish := by
  have hempty : files.isEmpty = false := by simpa using hne
  simp only [run, hempty, Bool.false_eq_true, if_false, hrun, pruneShelf, Store.prune,
    Store.onItems, hstore, List.append_nil, runFiles_of_disabled hstore hpure hrun]

end Scanner
end Deadwood
