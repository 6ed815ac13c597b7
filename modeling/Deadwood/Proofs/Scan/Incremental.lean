import Deadwood.Proofs.Graph.Build
import Deadwood.Proofs.Scan.Accounting
import Deadwood.Proofs.Scan.Transparent
import Deadwood.Proofs.Store.Kept

/-!
# Scans that follow another one

A scan leaves the results of the files on whose analysis nothing went wrong on the shelf. A later
scan finds exactly these, as long as path and text are the same, and analyzes the other files again
(`run_incremental`). What is on the shelf meanwhile is said by `Stocked`: the results of the files
up to some place, and nothing else, young enough for those who will ask for them. Going through one
more file keeps this, whatever the file comes to.
-/

namespace Deadwood

open Scan

/-- The texts of files, with their paths. -/
def textsOf (files : List SourceFile) : Set (Path × String) :=
  {u | ∃ f ∈ files, f.path = u.1 ∧ f.text? = some u.2}

/-- What the results for the files are kept under. -/
def subjectsOf (files : List SourceFile) : Set Store.Subject :=
  {t | ∃ u ∈ textsOf files, t = subjectOf u.1 u.2}

/-- A file with a text is told by its path and its text. -/
theorem SourceFile.eq_of_text {f g : SourceFile} {text : String} (hpath : f.path = g.path)
    (hf : f.text? = some text) (hg : g.text? = some text) : f = g := by
  have hreading : f.reading = g.reading :=
    (text?_eq_some_iff.1 hf).trans (text?_eq_some_iff.1 hg).symm
  obtain ⟨path, reading⟩ := f
  cases hpath
  cases hreading
  rfl

/-- The issues of a pass in which nothing went wrong. -/
def Scan.Pass.clean? : Pass → Option (List Issue)
  | .finished found => if found.warnings.isEmpty then some found.issues else none
  | _ => none

/-- `Pass.clean?` gives the issues of a finished pass without warnings. -/
theorem Scan.Pass.clean?_eq_some_iff {p : Pass} {issues : List Issue} :
    p.clean? = some issues ↔ p = .finished { issues, warnings := [] } := by
  cases p with
  | finished found =>
    obtain ⟨found, warnings⟩ := found
    cases warnings <;> simp [clean?]
  | crashed => simp [clean?]
  | hung => simp [clean?]

namespace Scanner

variable {σ : Type} (s : Scanner σ)

/-! ## What a scan finds and what it does again -/

/-- The issues of a file that has a text and on whose analysis nothing goes wrong. -/
def cleanIssues? (state : σ) (f : SourceFile) : Option (List Issue) :=
  f.text?.bind fun text => (s.passOf state f.path text).clean?

/-- The issues that are found for a file when the earlier files have been scanned. -/
def served? (state : σ) (earlier : List SourceFile) (f : SourceFile) : Option (List Issue) :=
  if f ∈ earlier then s.cleanIssues? state f else none

/-- Has the file a text, but no result that could be found? -/
def isPending (state : σ) (earlier : List SourceFile) (f : SourceFile) : Bool :=
  f.text?.isSome && !(s.served? state earlier f).isSome

/-- The outcome of a file when the earlier files have been scanned. -/
def outcomeGiven (state : σ) (earlier : List SourceFile) (f : SourceFile) : Outcome :=
  (s.served? state earlier f).elim (s.freshOutcome state f) hitOutcome

/-- The state that the analysis of a file leaves behind. -/
def stateAfter (state : σ) (f : SourceFile) : σ :=
  f.text?.elim state fun text => (runAttempts text f.path s.analyzers maxAttempts state).2

/-- `served?` depends on whether the file itself was scanned earlier. -/
theorem served?_congr {state : σ} {earlier earlier' : List SourceFile} {f : SourceFile}
    (h : f ∈ earlier ↔ f ∈ earlier') : s.served? state earlier f = s.served? state earlier' f := by
  simp only [served?, h]

/-! ## The shelf between two files -/

/-- A kept result shows the issues to a scan that asks for it at one of these times. -/
def Shows (asked : Set UInt64) (record : Store.Record) (issues : List Issue) : Prop :=
  record.schema = s.store.schema ∧
    (∀ now ∈ asked, now.toNat - record.createdAt.toNat ≤ s.store.maxAge) ∧
    record.payload.value = Issue.listToJson issues

/-- Of the files that are wanted, the map keeps the results of those that were scanned earlier and
    on whose analysis nothing went wrong, young enough to be asked for at these times, and of no
    others. -/
def Supplies (state : σ) (asked : Set UInt64) (wanted earlier : List SourceFile)
    (kept : Store.Kept) : Prop :=
  ∀ f ∈ wanted, ∀ text, f.text? = some text →
    Option.Rel (s.Shows asked) (kept (subjectOf f.path text)) (s.served? state earlier f)

/-- The shelf holds such a map, with results of the files in use. -/
def Stocked (state : σ) (asked : Set UInt64) (used wanted earlier : List SourceFile)
    (shelf : Shelf) : Prop :=
  ∃ kept, Store.Holds (subjectsOf used) kept shelf ∧ s.Supplies state asked wanted earlier kept

/-- `Stocked` holds of a bare shelf, before any file was scanned. -/
theorem stocked_of_bare {shelf : Shelf} (h : Store.Bare shelf) (state : σ) (asked : Set UInt64)
    (used wanted : List SourceFile) : s.Stocked state asked used wanted [] shelf :=
  ⟨.empty, h.holds _, fun _ _ _ _ => .none⟩

variable {s} {state₀ : σ} {asked : Set UInt64} {used wanted earlier : List SourceFile}

/-- `Stocked` is kept when fewer files are wanted. -/
theorem Stocked.mono {shelf : Shelf} (h : s.Stocked state₀ asked used wanted earlier shelf)
    {wanted' : List SourceFile} (hsub : wanted' ⊆ wanted) :
    s.Stocked state₀ asked used wanted' earlier shelf := by
  obtain ⟨kept, hholds, hkept⟩ := h
  exact ⟨kept, hholds, fun f hf => hkept f (hsub hf)⟩

/-- `Suits` makes the keys of the files in use differ. -/
theorem Suits.injOn_key (hs : s.Suits (textsOf used)) :
    (subjectsOf used).InjOn Store.Subject.key := by
  rintro _ ⟨u, hu, rfl⟩ _ ⟨v, hv, rfl⟩ heq
  rw [hs.distinctKeys hu hv heq]

/-- `subjectOf` tells files in use apart. -/
theorem Suits.eq_of_subjectOf_eq (hs : s.Suits (textsOf used)) {f g : SourceFile} (hf : f ∈ used)
    (hg : g ∈ used) {text text' : String} (hft : f.text? = some text) (hgt : g.text? = some text')
    (heq : subjectOf f.path text = subjectOf g.path text') : f = g := by
  have hu : (f.path, text) = (g.path, text') :=
    hs.distinctKeys ⟨f, hf, rfl, hft⟩ ⟨g, hg, rfl, hgt⟩ (congrArg Store.Subject.key heq)
  obtain ⟨hpath, rfl⟩ := Prod.mk.inj hu
  exact SourceFile.eq_of_text hpath hft hgt

/-- `subjectsOf` the files in use has the subject of each of them. -/
theorem mem_subjectsOf {f : SourceFile} (hf : f ∈ used) {text : String}
    (htext : f.text? = some text) : subjectOf f.path text ∈ subjectsOf used :=
  ⟨(f.path, text), ⟨f, hf, rfl, htext⟩, rfl⟩

/-- `Supplies` holds with one more file of a map that differs at most at the result of this file,
    and has that as it should be if the file is wanted again. -/
theorem Supplies.cons {kept kept' : Store.Kept} {f : SourceFile} {lasting rest : List SourceFile}
    (h : s.Supplies state₀ asked (lasting ++ f :: rest) earlier kept) (hf : f ∉ rest)
    (hothers : ∀ g ∈ lasting ++ rest, g ≠ f → ∀ text, g.text? = some text →
      kept' (subjectOf g.path text) = kept (subjectOf g.path text))
    (hfile : f ∈ lasting → ∀ text, f.text? = some text →
      Option.Rel (s.Shows asked) (kept' (subjectOf f.path text)) (s.cleanIssues? state₀ f)) :
    s.Supplies state₀ asked (lasting ++ rest) (f :: earlier) kept' := by
  intro g hg text htext
  -- only the file itself has become an earlier one
  by_cases heq : g = f
  · subst heq
    have hlasting : g ∈ lasting := (List.mem_append.1 hg).resolve_right hf
    rw [served?, if_pos List.mem_cons_self]
    exact hfile hlasting text htext
  · rw [hothers g hg heq text htext, s.served?_congr (List.mem_cons.trans (or_iff_right heq))]
    exact h g (((List.sublist_cons_self f rest).append_left lasting).subset hg) text htext

/-- `analyzeFile` on a file of which nothing is kept puts its result on the shelf if nothing went
    wrong. -/
theorem Stocked.analyzeFile (hs : s.Suits (textsOf used)) (henabled : s.store.enabled = true)
    {archive : Store.Archive} {kept : Store.Kept}
    (hholds : Store.Holds (subjectsOf used) kept archive.shelf) {f : SourceFile}
    {lasting rest : List SourceFile}
    (hkept : s.Supplies state₀ asked (lasting ++ f :: rest) earlier kept) (hfrest : f ∉ rest)
    (hused : lasting ++ f :: rest ⊆ used) {m : Store.Moment} (hcalm : m.IsCalm)
    (hage : f ∈ lasting → ∀ now ∈ asked, now.toNat - m.now.toNat ≤ s.store.maxAge) {text : String}
    (htext : f.text? = some text) (hnone : kept (subjectOf f.path text) = none) (state : σ) :
    ∃ archive', s.analyzeFile m f.path text state archive =
        (s.freshOutcome state₀ f, s.stateAfter state f, archive') ∧
      s.Stocked state₀ asked used (lasting ++ rest) (f :: earlier) archive'.shelf := by
  have hf : f ∈ used := hused (List.mem_append_right _ List.mem_cons_self)
  have hreading := SourceFile.text?_eq_some_iff.1 htext
  have hpass : s.passOf state₀ f.path text = s.passOf state f.path text :=
    passOf_eq hs.pure state₀ state f.path text
  simp only [freshOutcome, hreading, stateAfter, htext, Option.elim_some, hpass]
  have hclean : s.cleanIssues? state₀ f = (s.passOf state f.path text).clean? := by
    rw [cleanIssues?, htext, Option.bind_some, hpass]
  have hrun : ∀ state', s.passOf state' f.path text = s.passOf state f.path text := fun state' =>
    passOf_eq hs.pure state' state f.path text
  -- from here on it does not matter how the pass came about
  unfold passOf at hclean hrun ⊢
  unfold Scanner.analyzeFile
  generalize runAttempts text f.path s.analyzers maxAttempts state = r at hclean hrun
  obtain ⟨pass, state'⟩ := r
  -- the result of a pass in which something went wrong is not kept
  have hskip : pass.clean? = none →
      s.Stocked state₀ asked used (lasting ++ rest) (f :: earlier) archive.shelf := by
    intro hwrong
    refine ⟨kept, hholds, hkept.cons hfrest (fun _ _ _ _ _ => rfl) fun _ text' htext' => ?_⟩
    cases htext.symm.trans htext'
    rw [hclean, hwrong, hnone]
    exact .none
  cases pass with
  | crashed => exact ⟨archive, rfl, hskip rfl⟩
  | hung => exact ⟨archive, rfl, hskip rfl⟩
  | finished found =>
    obtain ⟨issues, warnings⟩ := found
    cases warnings with
    | cons w warnings => exact ⟨archive, rfl, hskip rfl⟩
    | nil =>
      have hlines := hs.wordLines (f.path, text) ⟨f, hf, rfl, htext⟩ issues hrun
      obtain ⟨shelf', hset, hholds'⟩ := hholds.set hs.injOn_key henabled hcalm
        (mem_subjectsOf hf htext)
          ⟨Issue.listToJson issues, Issue.fits_listToJson hlines (by decide)⟩
      refine ⟨{ archive with shelf := shelf', drafts := archive.drafts + 1 },
        by simp [hset, Outcome.ofPass], _, hholds',
        hkept.cons hfrest (fun g hg hne text' htext' => ?_) fun hlasting text' htext' => ?_⟩
      · have hgused := hused (((List.sublist_cons_self f rest).append_left lasting).subset hg)
        refine Function.update_of_ne (fun heq => hne ?_) _ _
        exact hs.eq_of_subjectOf_eq hgused hf htext' htext heq
      · cases htext.symm.trans htext'
        rw [Function.update_self, hclean]
        exact .some ⟨rfl, hage hlasting, rfl⟩

/-- `outcomeOf`: what was found for a file before is found again, anything else is done as if
    nothing were there; then the shelf has its result. -/
theorem Stocked.outcomeOf (hs : s.Suits (textsOf used)) (henabled : s.store.enabled = true)
    {archive : Store.Archive} {f : SourceFile} {lasting rest : List SourceFile}
    (h : s.Stocked state₀ asked used (lasting ++ f :: rest) earlier archive.shelf)
    (hfrest : f ∉ rest)
    (hused : lasting ++ f :: rest ⊆ used) {first second : Store.Moment} (hfirst : first.IsCalm)
    (hsecond : second.IsCalm) (hasked : f ∈ earlier → first.now ∈ asked)
    (hage : f ∈ lasting → ∀ now ∈ asked, now.toNat - second.now.toNat ≤ s.store.maxAge)
    (state : σ) :
    ∃ archive', s.outcomeOf first second f state archive =
        (s.outcomeGiven state₀ earlier f,
          if s.isPending state₀ earlier f then s.stateAfter state f else state, archive') ∧
      s.Stocked state₀ asked used (lasting ++ rest) (f :: earlier) archive'.shelf := by
  obtain ⟨kept, hholds, hkept⟩ := h
  have hmem : f ∈ lasting ++ f :: rest := List.mem_append_right _ List.mem_cons_self
  unfold Scanner.outcomeOf
  cases hreading : f.reading with
  | failed reason =>
    have hnone : f.text? = none := by rw [SourceFile.text?, hreading]
    have hserved : s.served? state₀ earlier f = none := by simp [served?, cleanIssues?, hnone]
    refine ⟨archive, ?_, kept, hholds,
      hkept.cons hfrest (fun _ _ _ _ _ => rfl) fun _ text htext => ?_⟩
    · simp [outcomeGiven, isPending, hserved, hnone, freshOutcome, hreading]
    · rw [hnone] at htext
      cases htext
  | text text =>
    have htext := SourceFile.text?_eq_some_iff.2 hreading
    have hsubject := mem_subjectsOf (hused hmem) htext
    have hfile := hkept f hmem text htext
    simp only [outcomeGiven, isPending, htext, Option.isSome_some, Bool.true_and, readableOutcome,
      Store.get]
    -- something is kept of the file exactly if it is served
    generalize hrecord : kept (subjectOf f.path text) = record? at hfile
    generalize hserved : s.served? state₀ earlier f = issues? at hfile
    cases hfile with
    | none =>
      rw [hholds.find_of_none hfirst hsubject hrecord]
      exact Stocked.analyzeFile hs henabled hholds hkept hfrest hused hsecond hage htext hrecord
        state
    | @some record issues hshows =>
      obtain ⟨hbefore, hclean⟩ : f ∈ earlier ∧ s.cleanIssues? state₀ f = some issues := by
        simpa [served?] using hserved
      have hyoung := hshows.2.1 first.now (hasked hbefore)
      rw [hholds.find_of_some hfirst henabled hsubject hrecord, if_pos ⟨hshows.1, hyoung⟩]
      simp only [hshows.2.2, Issue.listOfJson?_listToJson]
      refine ⟨archive, rfl, kept, hholds,
        hkept.cons hfrest (fun _ _ _ _ _ => rfl) fun _ text' htext' => ?_⟩
      cases htext.symm.trans htext'
      rw [hrecord, hclean]
      exact .some hshows

/-! ## Whole scans -/

/-- `runFiles` on files that are all different. The files that are to come are wanted, and those
    that a later scan asks for. -/
theorem Stocked.runFiles (hs : s.Suits (textsOf used)) (henabled : s.store.enabled = true)
    {archive : Store.Archive} {files lasting : List SourceFile}
    (h : s.Stocked state₀ asked used (lasting ++ files) earlier archive.shelf)
    (hnodup : files.Nodup) (hused : lasting ++ files ⊆ used) {moments : Nat → Store.Moment}
    (hcalm : ∀ n, (moments n).IsCalm)
    (hasked : ∀ f ∈ files, f ∈ earlier → ∀ n, (moments n).now ∈ asked)
    (hage : lasting ≠ [] → ∀ now ∈ asked, ∀ n, now.toNat - (moments n).now.toNat ≤ s.store.maxAge)
    (state : σ) :
    (s.runFiles moments files state archive).outcomes = files.map (s.outcomeGiven state₀ earlier) ∧
      (s.runFiles moments files state archive).state =
        (files.filter (s.isPending state₀ earlier)).foldl s.stateAfter state ∧
      s.Stocked state₀ asked used lasting (files.reverse ++ earlier)
        (s.runFiles moments files state archive).archive.shelf := by
  induction files generalizing earlier moments state archive with
  | nil =>
    rw [List.append_nil] at h
    exact ⟨rfl, rfl, h⟩
  | cons f rest ih =>
    obtain ⟨hf, hrest⟩ := List.nodup_cons.1 hnodup
    obtain ⟨archive', houtcome, hstocked⟩ := h.outcomeOf hs henabled hf hused (hcalm 0) (hcalm 1)
      (fun hbefore => hasked f List.mem_cons_self hbefore 0)
      (fun hlasting now hnow => hage (List.ne_nil_of_mem hlasting) now hnow 1) state
    -- the files that follow are other ones, so this one changes nothing for them
    have hother : ∀ g ∈ rest, (g ∈ f :: earlier ↔ g ∈ earlier) := fun g hg =>
      List.mem_cons.trans (or_iff_right fun heq => hf (heq ▸ hg))
    have hserved : ∀ g ∈ rest, s.served? state₀ (f :: earlier) g = s.served? state₀ earlier g :=
      fun g hg => s.served?_congr (hother g hg)
    have hsub : lasting ++ rest ⊆ used :=
      fun g hg => hused (((List.sublist_cons_self f rest).append_left lasting).subset hg)
    obtain ⟨houtcomes, hstate, hshelf⟩ := ih hstocked hrest hsub (fun n => hcalm (n + 2))
      (fun g hg hmem n => hasked g (List.mem_cons_of_mem f hg) ((hother g hg).1 hmem) (n + 2))
      (fun hne now hnow n => hage hne now hnow (n + 2))
      (if s.isPending state₀ earlier f then s.stateAfter state f else state)
    have hgiven : rest.map (s.outcomeGiven state₀ (f :: earlier)) =
        rest.map (s.outcomeGiven state₀ earlier) :=
      List.map_congr_left fun g hg => by rw [outcomeGiven, outcomeGiven, hserved g hg]
    have hpending : rest.filter (s.isPending state₀ (f :: earlier)) =
        rest.filter (s.isPending state₀ earlier) :=
      List.filter_congr fun g hg => by rw [isPending, isPending, hserved g hg]
    rw [hgiven] at houtcomes
    rw [hpending] at hstate
    simp only [Scanner.runFiles, hs.unstopped, Bool.false_eq_true, if_false, houtcome, houtcomes,
      hstate, List.map_cons, List.filter_cons, List.reverse_cons, List.append_assoc, true_and]
    refine ⟨?_, hshelf⟩
    split <;> rfl

/-- `pruneShelf` takes off the results of files that are not there any more, and nothing goes
    wrong. -/
theorem Stocked.pruneShelf (henabled : s.store.enabled = true) {shelf : Shelf}
    (h : s.Stocked state₀ asked used wanted earlier shelf) {m : Store.Moment} (hcalm : m.IsCalm)
    (files : List SourceFile) :
    (s.pruneShelf m files shelf).1 = [] ∧
      (earlier ⊆ files →
        s.Stocked state₀ asked used wanted earlier (s.pruneShelf m files shelf).2) := by
  obtain ⟨kept, hholds, hkept⟩ := h
  obtain ⟨shelf', hprune, hholds'⟩ := hholds.prune hcalm henabled (liveKeys files)
  unfold Scanner.pruneShelf
  rw [hprune]
  refine ⟨rfl, fun hsub => ⟨_, hholds', fun f hf text htext => ?_⟩⟩
  have hfile := hkept f hf text htext
  -- an earlier file is one of those that stay
  by_cases hbefore : f ∈ earlier
  · have hlive : (subjectOf f.path text).key ∈ liveKeys files :=
      List.mem_filterMap.2 ⟨f, hsub hbefore, by rw [htext, Option.map_some]⟩
    rwa [if_pos hlive]
  · -- nothing is kept of the file in the first place
    rw [served?, if_neg hbefore] at hfile ⊢
    generalize kept (subjectOf f.path text) = record? at hfile
    cases hfile
    rw [ite_self]
    exact .none

/-- `Stocked` does not depend on the order in which the earlier files were scanned. -/
theorem Stocked.congr {shelf : Shelf} (h : s.Stocked state₀ asked used wanted earlier shelf)
    {earlier' : List SourceFile} (hmem : ∀ f, f ∈ earlier ↔ f ∈ earlier') :
    s.Stocked state₀ asked used wanted earlier' shelf := by
  obtain ⟨kept, hholds, hkept⟩ := h
  refine ⟨kept, hholds, fun f hf text htext => ?_⟩
  rw [← s.served?_congr (hmem f)]
  exact hkept f hf text htext

/-- A `run` over a shelf with the results of earlier files. -/
theorem Stocked.run (hs : s.Suits (textsOf used)) (henabled : s.store.enabled = true)
    {archive : Store.Archive} {files lasting : List SourceFile}
    (h : s.Stocked state₀ asked used (lasting ++ files) earlier archive.shelf) (hne : files ≠ [])
    (hd : DistinctPaths files) (hused : lasting ++ files ⊆ used) {moments : Nat → Store.Moment}
    (hcalm : ∀ n, (moments n).IsCalm)
    (hasked : ∀ f ∈ files, f ∈ earlier → ∀ n, (moments n).now ∈ asked)
    (hage : lasting ≠ [] → ∀ now ∈ asked, ∀ n, now.toNat - (moments n).now.toNat ≤ s.store.maxAge)
    (state : σ) :
    (s.run moments files state archive).report =
        (addDead (entryRules s.root s.settings) files
          (reportOf (files.map (s.outcomeGiven state₀ earlier)))).finish ∧
      (s.run moments files state archive).state =
        (files.filter (s.isPending state₀ earlier)).foldl s.stateAfter state ∧
      (earlier = [] → s.Stocked state₀ asked used lasting files
        (s.run moments files state archive).archive.shelf) := by
  obtain ⟨houtcomes, hstate, hstocked⟩ :=
    h.runFiles hs henabled hd.nodup hused hcalm hasked hage state
  -- what is pruned is not of these files
  obtain ⟨hwarnings, hpruned⟩ := hstocked.pruneShelf henabled (hcalm (2 * files.length)) files
  rw [s.run_of_unstopped hne (hs.unstopped _)]
  refine ⟨?_, hstate, ?_⟩
  · rw [hwarnings, houtcomes, List.append_nil]
  · rintro rfl
    have hmem : ∀ f, f ∈ files.reverse ++ [] ↔ f ∈ files := by simp
    exact (hpruned fun f hf => (hmem f).1 hf).congr hmem

/-! ## What an outcome says, served or not -/

variable (s)

/-- `freshOutcome` is no hit, and says that the file was analyzed if there is a text. -/
theorem flags_freshOutcome (state : σ) (f : SourceFile) :
    (s.freshOutcome state f).hit = false ∧
      (s.freshOutcome state f).analyzed = f.text?.isSome := by
  unfold freshOutcome SourceFile.text?
  cases f.reading with
  | failed reason => exact ⟨rfl, rfl⟩
  | text text =>
    simp only
    cases s.passOf state f.path text <;> exact ⟨rfl, rfl⟩

/-- `outcomeGiven` is a hit if a result is found for the file, and says that the file was analyzed
    if it is pending. -/
theorem flags_outcomeGiven (state : σ) (earlier : List SourceFile) (f : SourceFile) :
    (s.outcomeGiven state earlier f).hit = (s.served? state earlier f).isSome ∧
      (s.outcomeGiven state earlier f).analyzed = s.isPending state earlier f := by
  obtain ⟨hhit, hanalyzed⟩ := s.flags_freshOutcome state f
  unfold outcomeGiven isPending
  cases s.served? state earlier f with
  | some issues => simp [hitOutcome]
  | none => simp [hhit, hanalyzed]

/-- `outcomeGiven` has the issues and warnings of `freshOutcome`, also where that is not done. -/
theorem outcomeGiven_fresh (state : σ) (earlier : List SourceFile) (f : SourceFile) :
    (s.outcomeGiven state earlier f).issues = (s.freshOutcome state f).issues ∧
      (s.outcomeGiven state earlier f).warnings = (s.freshOutcome state f).warnings := by
  unfold outcomeGiven
  cases hserved : s.served? state earlier f with
  | none => exact ⟨rfl, rfl⟩
  | some issues =>
    -- what is served is what a clean pass over the file would find
    have hclean : s.cleanIssues? state f = some issues := by
      rw [served?] at hserved
      split at hserved
      · exact hserved
      · cases hserved
    unfold cleanIssues? SourceFile.text? at hclean
    unfold freshOutcome
    cases hreading : f.reading with
    | failed reason => simp [hreading] at hclean
    | text text =>
      simp only [hreading, Option.bind_some, Pass.clean?_eq_some_iff] at hclean
      simp only [hclean]
      exact ⟨rfl, rfl⟩

/-- `outcomeGiven` leads to the same issues, warnings and dead cycles, whichever files are served.
    -/
theorem report_outcomeGiven (state : σ) (files earlier earlier' : List SourceFile) :
    let report (earlier : List SourceFile) := (addDead (entryRules s.root s.settings) files
      (reportOf (files.map (s.outcomeGiven state earlier)))).finish
    (report earlier).issues = (report earlier').issues ∧
      (report earlier).warnings = (report earlier').warnings ∧
      (report earlier).deadCycles = (report earlier').deadCycles := by
  -- issues and warnings are put together from those of a fresh analysis either way
  have hissues : (reportOf (files.map (s.outcomeGiven state earlier))).issues =
      (reportOf (files.map (s.outcomeGiven state earlier'))).issues := by
    simp only [reportOf, List.flatMap_map, outcomeGiven_fresh]
  have hwarnings : (reportOf (files.map (s.outcomeGiven state earlier))).warnings =
      (reportOf (files.map (s.outcomeGiven state earlier'))).warnings := by
    simp only [reportOf, List.flatMap_map, outcomeGiven_fresh]
  intro report
  simp only [report, addDead, Report.finish, hissues, hwarnings, and_self]

/-- A scan after another one. The second scan finds the results of exactly those files that the
    first scan was given with the same path and text, and on whose analysis nothing went wrong. It
    runs the analyzers on exactly the other files with a text, in their order. Its issues, warnings
    and dead cycles are those of a scan that finds nothing. So where nothing has changed and nothing
    went wrong, it runs no analyzer and says what the first one said. -/
theorem run_incremental (henabled : s.store.enabled = true) (first second : List SourceFile)
    (hfirst : first ≠ []) (hsecond : second ≠ []) (hd₁ : DistinctPaths first)
    (hd₂ : DistinctPaths second) (hs : s.Suits (textsOf (first ++ second)))
    (moments₁ moments₂ moments₃ : Nat → Store.Moment) (hcalm₁ : ∀ n, (moments₁ n).IsCalm)
    (hcalm₂ : ∀ n, (moments₂ n).IsCalm) (hcalm₃ : ∀ n, (moments₃ n).IsCalm)
    (hage : ∀ m n, (moments₂ m).now.toNat - (moments₁ n).now.toNat ≤ s.store.maxAge)
    (state₁ state₂ state₃ : σ) (archive₁ archive₃ : Store.Archive) (process drafts : Nat)
    (hbare₁ : Store.Bare archive₁.shelf) (hbare₃ : Store.Bare archive₃.shelf) :
    let result₁ := s.run moments₁ first state₁ archive₁
    let archive₂ : Store.Archive := { shelf := result₁.archive.shelf, process, drafts }
    let result₂ := s.run moments₂ second state₂ archive₂
    let result₃ := s.run moments₃ second state₃ archive₃
    let outcomes := (s.runFiles moments₂ second state₂ archive₂).outcomes
    let isServed (f : SourceFile) := (s.served? state₁ first f).isSome
    let pending := second.filter fun f => f.text?.isSome && !isServed f
    (outcomes.map (·.hit) = second.map isServed ∧
      result₂.report.stats.cacheHits = second.countP isServed ∧
      outcomes.map (·.analyzed) = second.map (fun f => f.text?.isSome && !isServed f) ∧
      result₂.report.stats.cacheMisses = pending.length ∧
      result₂.state = pending.foldl s.stateAfter state₂) ∧
    (result₂.report.issues = result₃.report.issues ∧
      result₂.report.warnings = result₃.report.warnings ∧
      result₂.report.deadCycles = result₃.report.deadCycles) ∧
    (second = first → (∀ f ∈ first, f.text?.isSome → (s.cleanIssues? state₁ f).isSome) →
      result₂.state = state₂ ∧
      result₂.report.issues = result₁.report.issues ∧
      result₂.report.warnings = result₁.report.warnings ∧
      result₂.report.deadCycles = result₁.report.deadCycles) := by
  intro result₁ archive₂ result₂ result₃ outcomes isServed pending
  have hall₁ : (first ++ second) ++ first ⊆ first ++ second := by simp
  have hall₂ : [] ++ second ⊆ first ++ second := List.subset_append_right _ _
  -- the first scan stocks the shelf, with results that are young enough for the second one
  obtain ⟨hreport₁, -, hshelf⟩ :=
    (s.stocked_of_bare hbare₁ state₁ (Set.range fun n => (moments₂ n).now)
    (first ++ second) ((first ++ second) ++ first)).run hs henabled hfirst hd₁ hall₁ hcalm₁
      (fun _ _ => nofun) (fun _ => by rintro _ ⟨m, rfl⟩ n; exact hage m n) state₁
  have hstocked : s.Stocked state₁ (Set.range fun n => (moments₂ n).now) (first ++ second)
      ([] ++ second) first archive₂.shelf := (hshelf rfl).mono hall₂
  have hasked : ∀ f ∈ second, f ∈ first →
      ∀ n, (moments₂ n).now ∈ Set.range fun n => (moments₂ n).now :=
    fun _ _ _ n => ⟨n, rfl⟩
  obtain ⟨houtcomes, -, -⟩ := hstocked.runFiles hs henabled hd₂.nodup hall₂ hcalm₂ hasked
    (absurd rfl) state₂
  obtain ⟨hreport₂, hstate₂, -⟩ := hstocked.run hs henabled hsecond hd₂ hall₂ hcalm₂ hasked
    (absurd rfl) state₂
  obtain ⟨hreport₃, -, -⟩ := (s.stocked_of_bare hbare₃ state₁ ∅ (first ++ second)
    ([] ++ second)).run hs henabled hsecond hd₂ hall₂ hcalm₃ (fun _ _ => nofun) (absurd rfl) state₃
  have hflags : ∀ f, (s.outcomeGiven state₁ first f).hit = isServed f ∧
      (s.outcomeGiven state₁ first f).analyzed = (f.text?.isSome && !isServed f) :=
    s.flags_outcomeGiven state₁ first
  refine ⟨⟨?_, ?_, ?_, ?_, hstate₂⟩, ?_, ?_⟩
  · simp only [outcomes, houtcomes, List.map_map, Function.comp_def, hflags]
  · rw [hreport₂]
    show (second.map _).countP _ = _
    simp only [List.countP_map, Function.comp_def, hflags]
  · simp only [outcomes, houtcomes, List.map_map, Function.comp_def, hflags]
  · rw [hreport₂, ← List.countP_eq_length_filter]
    show (second.map _).countP _ = _
    simp only [List.countP_map, Function.comp_def, hflags]
  · rw [hreport₂, hreport₃]
    exact s.report_outcomeGiven state₁ second first []
  · rintro rfl hclean
    -- every file with a text is served
    have hpending : pending = [] := List.filter_eq_nil_iff.2 fun f hf hpending => by
      simp only [Bool.and_eq_true, Bool.not_eq_true', isServed, served?, if_pos hf] at hpending
      rw [hclean f hf hpending.1] at hpending
      cases hpending.2
    refine ⟨hstate₂.trans (congrArg (List.foldl s.stateAfter state₂) hpending), ?_⟩
    rw [hreport₂, hreport₁]
    exact s.report_outcomeGiven state₁ second second []

/-- A file with an unused import. -/
def oldFiles : List SourceFile := [⟨⟨"/p/a.js"⟩, .text "import a from 'x'\n"⟩]

/-- The same file, one that is new, and one without a text. -/
def newFiles : List SourceFile :=
  [⟨⟨"/p/a.js"⟩, .text "import a from 'x'\n"⟩, ⟨⟨"/p/b.js"⟩, .text ""⟩,
    ⟨⟨"/p/c.js"⟩, .failed "denied"⟩]

/-- `textsOf` the sample files are two. -/
theorem textsOf_newFiles_subset :
    textsOf (oldFiles ++ newFiles) ⊆
      {u | u ∈ [(⟨"/p/a.js"⟩, "import a from 'x'\n"), (⟨"/p/b.js"⟩, "")]} := by
  rintro ⟨path, text⟩ h
  simp only [textsOf, oldFiles, newFiles, Set.mem_ofPred_eq, List.mem_append, List.mem_cons,
    List.not_mem_nil, or_false, SourceFile.text?] at h
  obtain ⟨f, (rfl | rfl | rfl | rfl), rfl, htext⟩ := h <;> simp_all

/-- `basic` suits the sample files, with any store. -/
theorem suits_newFiles (store : Store) :
    (basic ⟨"/p"⟩ store).Suits (textsOf (oldFiles ++ newFiles)) :=
  (suits_basic _ store (by decide +kernel) (by decide +kernel)).mono textsOf_newFiles_subset

/-- After a scan of one file, that file is served and the new one is analyzed. -/
theorem run_incremental_newFiles :
    let earlier := keeping.run (fun _ => .calmAt 5) oldFiles () .new
    let result := keeping.run (fun _ => .calmAt 7) newFiles () ⟨earlier.archive.shelf, 8, 0⟩
    result.report.stats.cacheHits = 1 ∧ result.report.stats.cacheMisses = 1 ∧
      result.report.issues = (keeping.run (fun _ => .calmAt 9) newFiles () .new).report.issues := by
  have hd : DistinctPaths oldFiles ∧ DistinctPaths newFiles := by
    unfold DistinctPaths
    decide +kernel
  have hserved : newFiles.countP (fun f => (keeping.served? () oldFiles f).isSome) = 1 := by
    decide +kernel
  have hpending : (newFiles.filter fun f =>
      f.text?.isSome && !(keeping.served? () oldFiles f).isSome).length = 1 := by
    decide +kernel
  have henabled : keeping.store.enabled = true := rfl
  have hs : keeping.Suits (textsOf (oldFiles ++ newFiles)) := suits_newFiles _
  have hage : (7 : UInt64).toNat - (5 : UInt64).toNat ≤ keeping.store.maxAge := by decide
  -- from here on the scans must not be computed
  generalize keeping = s at *
  obtain ⟨⟨-, hhits, -, hmisses, -⟩, ⟨hissues, -⟩, -⟩ :=
    run_incremental s henabled oldFiles newFiles
    (List.cons_ne_nil _ _) (List.cons_ne_nil _ _) hd.1 hd.2 hs (fun _ => .calmAt 5)
    (fun _ => .calmAt 7) (fun _ => .calmAt 9) (fun _ => Store.Moment.isCalm_calmAt 5)
    (fun _ => Store.Moment.isCalm_calmAt 7) (fun _ => Store.Moment.isCalm_calmAt 9)
    (fun _ _ => hage) () () () .new .new 8 0 Store.bare_missing Store.bare_missing
  rw [hserved] at hhits
  rw [hpending] at hmisses
  exact ⟨hhits, hmisses, hissues⟩

end Scanner
end Deadwood
