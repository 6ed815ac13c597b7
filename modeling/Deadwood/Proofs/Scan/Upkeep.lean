import Deadwood.Proofs.Issue.Encoding
import Deadwood.Proofs.Scan.Accounting

/-!
# What scans leave on the shelf

Scans take turns at one shelf: of any files, with scanners of any kind, told to stop or not. The
shelf stays tidy all the time: what is named as an entry is a file, and what is not is left alone,
apart from left-over drafts whose names are used again. An entry that was found or made by a scan
stays until the scan ends. So the shelf never outgrows the last scan that came to its end. What lies
there then belongs to the files of that scan, and every result that it has found or made lies there:
`shelf_of_last_turn`.
-/

namespace Deadwood

namespace Store

/-! ## Tidy shelves -/

/-- What is on the shelf and not named as an entry. -/
def foreignItems (shelf : Shelf) : Folder := shelf.items.filter fun i => (entryKey? i.1).isNone

/-- The shelf can be used, and what is named as an entry or as a draft is a file. Of the other items
    that were there at first, only some with names of this kind are gone. -/
structure Tidy (taken : String → Bool) (foreign : Folder) (shelf : Shelf) : Prop where
  isOpen : shelf ≠ .blocked
  entries : ∀ i ∈ shelf.items, (entryKey? i.1).isSome = true → i.2.isFile = true
  drafts : ∀ i ∈ shelf.items, isDraftName i.1 = true → i.2.isFile = true
  foreign : foreign.TakenOut (fun i => taken i.1) (foreignItems shelf)

/-- The names of the drafts that are still to be made are of this kind. -/
def Archive.DraftsFrom (taken : String → Bool) (a : Archive) : Prop :=
  ∀ (t : Subject) (count : Nat), a.drafts ≤ count →
    taken (Store.draftName t.key a.process count) = true

namespace Tidy

variable {s : Store} {m : Moment} {taken : String → Bool} {foreign : Folder} {shelf : Shelf}

/-- `Tidy` is kept when files are added as entries, and entries or items with names of the kind are
    taken off. -/
theorem of_items (h : Tidy taken foreign shelf) {shelf' : Shelf} (hopen : shelf' ≠ .blocked)
    (hitems : ∀ i ∈ shelf'.items, i ∈ shelf.items ∨ i.2.isFile = true)
    (hforeign : (foreignItems shelf).TakenOut (fun i => taken i.1) (foreignItems shelf')) :
    Tidy taken foreign shelf' where
  isOpen := hopen
  entries i hi hname := (hitems i hi).elim (fun hold => h.entries i hold hname) id
  drafts i hi hname := (hitems i hi).elim (fun hold => h.drafts i hold hname) id
  foreign := h.foreign.trans hforeign

/-- `find` keeps the shelf tidy. -/
theorem find (h : Tidy taken foreign shelf) (m : Moment) (t : Subject) :
    Tidy taken foreign (s.find m t shelf).2 := by
  rcases s.find_cases m t shelf with ⟨_, hfind, -⟩ | ⟨items, _, rfl, -, -, hfind⟩
  · rw [hfind]
    exact h
  · rw [hfind]
    refine h.of_items (Shelf.folder_ne_blocked _)
      (fun i hi => .inl (m.discard_subset items _ hi)) ?_
    rcases m.discard_cases items (entryName t.key) with heq | ⟨heq, -⟩
    · rw [heq]
      exact .refl _ _
    · -- what is discarded is named as an entry
      have hsame : foreignItems (.folder (items.erase (entryName t.key))) =
          foreignItems (.folder items) :=
        Folder.filter_erase (fun name => (entryKey? name).isNone) (by simp) items
      simp only [heq, hsame]
      exact .refl _ _

/-- `Archive.IsReadyFor` holds of a tidy shelf and any subject. -/
theorem isReadyFor {a : Archive} (h : Tidy taken foreign a.shelf) (t : Subject) :
    a.IsReadyFor t where
  isOpen := h.isOpen
  draft item hitem := h.drafts _ (Folder.mem_of_get? hitem) (isDraftName_draftName t _ _)
  noFolder := by
    cases hget : a.items.get? (entryName t.key) with
    | none => rfl
    | some item =>
      have hfile := h.entries _ (Folder.mem_of_get? hget) (by simp)
      cases item with
      | folder sub => cases hfile
      | file | link => rfl

/-- `set` keeps the shelf tidy. A file that was left over under the name of its draft is gone. -/
theorem set {a : Archive} (h : Tidy taken foreign a.shelf) (hdrafts : a.DraftsFrom taken)
    (hcalm : m.IsCalm) (t : Subject) (payload : Json) :
    Tidy taken foreign (s.set m t payload a).2.shelf ∧
      (s.set m t payload a).2.DraftsFrom taken := by
  cases henabled : s.enabled with
  | false =>
    rw [set_of_disabled henabled]
    exact ⟨h, hdrafts⟩
  | true =>
    rw [set_of_calm hcalm henabled payload (h.isReadyFor t)]
    refine ⟨h.of_items (Shelf.folder_ne_blocked _) (fun i hi => ?_) ?_, fun t' count hcount =>
      hdrafts t' count (Nat.le_of_succ_le hcount)⟩
    · rcases Folder.mem_put hi with rfl | hi
      · exact .inr rfl
      · exact .inl (List.mem_filter.1 hi).1
    · -- the entry is not among the other items, and of these only the draft goes
      have hput := Folder.filter_put (fun name => (entryKey? name).isNone)
        (by simp : (entryKey? (entryName t.key)).isNone = false) (a.items.erase (a.draftName t.key))
        (.file (.text (s.entryFor m.now t payload).encode))
      have hcomm : (a.items.erase (a.draftName t.key)).filter (fun i => (entryKey? i.1).isNone) =
          (foreignItems a.shelf).erase (a.draftName t.key) :=
        Folder.filter_erase_comm _ a.items (a.draftName t.key)
      have htaken : taken (a.draftName t.key) = true := hdrafts t a.drafts (Nat.le_refl _)
      have hforeign := hput.trans hcomm
      generalize Folder.put _ _ _ = items' at hforeign
      rw [show foreignItems (.folder items') = _ from hforeign]
      exact .erase (fun _ => htaken) _

/-- On a tidy shelf `prune` works, and just the live entries are left. -/
theorem prune (h : Tidy taken foreign shelf) (hcalm : m.IsCalm) (henabled : s.enabled = true)
    (live : List String) :
    ∃ count shelf', s.prune m live shelf = (.ok count, shelf') ∧ Tidy taken foreign shelf' ∧
      shelf'.items = shelf.items.filter fun i => !isStale live i.1 := by
  obtain ⟨shelf', hprune, hopen, hitems⟩ :=
    prune_of_calm hcalm henabled live h.isOpen fun i hi hstale => by
      have hfile := h.entries i hi (isSome_of_isStale hstale)
      cases hitem : i.2 with
      | folder sub => simp [hitem, Item.isFile] at hfile
      | file | link => rfl
  refine ⟨_, shelf', hprune, h.of_items hopen (fun i hi => ?_) ?_, hitems⟩
  · rw [hitems] at hi
    exact .inl (List.mem_filter.1 hi).1
  · -- what is not named as an entry is not stale
    have hsame : foreignItems shelf' = foreignItems shelf := by
      rw [foreignItems, foreignItems, hitems, List.filter_filter]
      refine List.filter_congr fun i _ => ?_
      cases hname : entryKey? i.1 <;> simp [isStale, hname]
    rw [hsame]
    exact .refl _ _

end Tidy

/-! ## Current entries -/

/-- The shelf has an entry of the subject in a file, with its key and the version of the store. -/
def Current (s : Store) (t : Subject) (shelf : Shelf) : Prop :=
  ∃ content e, shelf.items.get? (entryName t.key) = some (.file content) ∧
    content.text?.bind Entry.decode? = some e ∧ e.key = t.key ∧ e.schema = s.schema

section

variable {s : Store} {m : Moment} {t : Subject} {taken : String → Bool} {foreign : Folder}

/-- `Store.find` for another key leaves a current entry where it is. -/
theorem Current.find {shelf : Shelf} (h : s.Current t shelf) (m : Moment) {t' : Subject}
    (hkey : t'.key ≠ t.key) : s.Current t (s.find m t' shelf).2 := by
  rcases s.find_cases m t' shelf with ⟨_, hfind, -⟩ | ⟨items, _, rfl, -, -, hfind⟩
  · rwa [hfind]
  · obtain ⟨content, e, hget, hentry⟩ := h
    rw [hfind]
    refine ⟨content, e, ?_, hentry⟩
    rcases m.discard_cases items (entryName t'.key) with heq | ⟨heq, -⟩
    · rwa [heq]
    · rwa [heq, Shelf.items, Folder.get?_erase,
        if_neg fun hname => hkey (entryName_injective hname).symm]

/-- `set` for another key leaves the entry where it is. -/
theorem Current.set {a : Archive} (h : s.Current t a.shelf) (htidy : Tidy taken foreign a.shelf)
    (hcalm : m.IsCalm) {t' : Subject} (hkey : t'.key ≠ t.key) (payload : Json) :
    s.Current t (s.set m t' payload a).2.shelf := by
  cases henabled : s.enabled with
  | false =>
    rwa [set_of_disabled henabled]
  | true =>
    obtain ⟨content, e, hget, hentry⟩ := h
    rw [set_of_calm hcalm henabled payload (htidy.isReadyFor t')]
    -- neither the entry nor the draft that is written has this name
    have hdraft : entryName t.key ≠ a.draftName t'.key := (draftName_ne_entryName t' t _ _).symm
    refine ⟨content, e, ?_, hentry⟩
    rw [Shelf.items, Folder.get?_put, if_neg fun hname => hkey (entryName_injective hname),
      Folder.get?_erase, if_neg hdraft]
    exact hget

end

end Store

open Scan

/-! ## The shelf during a scan -/

/-- There is a result for the file: it was found, or nothing went wrong when it was analyzed. -/
def Scan.Outcome.isSettled (o : Outcome) : Bool :=
  o.hit || (o.analyzed && !o.failed && o.warnings.all fun w => w.kind != .analyzerFailed)

namespace Scanner

variable {σ : Type} (s : Scanner σ)

/-- A property of archives that holds on when a scan of the files looks for results, and when it
    keeps those of clean runs, at calm moments. -/
structure Carries (files : List SourceFile) (holds : Store.Archive → Prop) : Prop where
  find : ∀ f ∈ files, ∀ text, f.text? = some text → ∀ m archive, holds archive →
    holds { archive with shelf := (s.store.find m (subjectOf f.path text) archive.shelf).2 }
  set : ∀ f ∈ files, ∀ text, f.text? = some text → ∀ m : Store.Moment, m.IsCalm →
    ∀ state issues, s.passOf state f.path text = .finished { issues, warnings := [] } →
      ∀ archive, holds archive →
        holds (s.store.set m (subjectOf f.path text) (Issue.listToJson issues) archive).2

/-- `analyzeFile` keeps the issues of a clean run, and leaves the shelf as it is after any other.
    There is a result in the first case only. -/
theorem analyzeFile_cases (m : Store.Moment) (file : Path) (text : String) (state : σ)
    (archive : Store.Archive) :
    ((∀ issues, s.passOf state file text ≠ .finished { issues, warnings := [] }) ∧
      (s.analyzeFile m file text state archive).2.2 = archive ∧
      (s.analyzeFile m file text state archive).1.isSettled = false) ∨
    ∃ issues, s.passOf state file text = .finished { issues, warnings := [] } ∧
      (s.analyzeFile m file text state archive).2.2 =
        (s.store.set m (subjectOf file text) (Issue.listToJson issues) archive).2 ∧
      (s.analyzeFile m file text state archive).1.isSettled = true := by
  unfold analyzeFile passOf
  generalize hrun : runAttempts text file s.analyzers maxAttempts state = r
  obtain ⟨pass, state'⟩ := r
  cases pass with
  | crashed => exact .inl ⟨fun _ => nofun, rfl, rfl⟩
  | hung => exact .inl ⟨fun _ => nofun, rfl, rfl⟩
  | finished found =>
    have hkinds := kind_of_mem_runAttempts (congrArg Prod.fst hrun)
    obtain ⟨issues, warnings⟩ := found
    cases warnings with
    | nil =>
      refine .inr ⟨issues, rfl, ?_⟩
      simp only [List.isEmpty_nil, if_true]
      generalize s.store.set m (subjectOf file text) (Issue.listToJson issues) archive = kept
      obtain ⟨answer, archive'⟩ := kept
      cases answer <;> exact ⟨rfl, rfl⟩
    | cons w rest =>
      -- the warnings of a run are about analyzers that gave up
      refine .inl ⟨fun _ => by simp, rfl, ?_⟩
      simp [Outcome.isSettled, analyzedOutcome, hkinds w List.mem_cons_self]

/-- The archive after the store has been asked for the result of a file. -/
def archiveAsked (asked : Store.Moment) (file : Path) (text : String) (archive : Store.Archive) :
    Store.Archive :=
  { archive with shelf := (s.store.find asked (subjectOf file text) archive.shelf).2 }

/-- `outcomeOf` a file with a text is found, or it is that of `analyzeFile`, apart from warnings
    about the store. -/
theorem outcomeOf_cases (asked kept : Store.Moment) {f : SourceFile} {text : String}
    (htext : f.text? = some text) (state : σ) (archive : Store.Archive) :
    ((∃ payload, (s.store.find asked (subjectOf f.path text) archive.shelf).1 =
        .ok (some payload)) ∧
      (s.outcomeOf asked kept f state archive).2.2 = s.archiveAsked asked f.path text archive ∧
      (s.outcomeOf asked kept f state archive).1.isSettled = true) ∨
    ((s.outcomeOf asked kept f state archive).2 =
        (s.analyzeFile kept f.path text state (s.archiveAsked asked f.path text archive)).2 ∧
      (s.outcomeOf asked kept f state archive).1.isSettled =
        (s.analyzeFile kept f.path text state
          (s.archiveAsked asked f.path text archive)).1.isSettled) := by
  simp only [outcomeOf, SourceFile.text?_eq_some_iff.1 htext, readableOutcome, Store.get,
    archiveAsked]
  -- whatever the store answers, other than with issues, the file is analyzed
  generalize s.store.find asked (subjectOf f.path text) archive.shelf = r
  obtain ⟨answer, shelf'⟩ := r
  cases answer with
  | error fault => exact .inr ⟨rfl, rfl⟩
  | ok found =>
    cases found with
    | none => exact .inr ⟨rfl, rfl⟩
    | some payload =>
      simp only
      cases Issue.listOfJson? payload with
      | none => exact .inr ⟨rfl, rfl⟩
      | some issues => exact .inl ⟨⟨payload, rfl⟩, rfl, rfl⟩

/-- `outcomeOf` a file without a text leaves the shelf as it is. -/
theorem outcomeOf_of_no_text (asked kept : Store.Moment) {f : SourceFile} (hnone : f.text? = none)
    (state : σ) (archive : Store.Archive) :
    (s.outcomeOf asked kept f state archive).2.2 = archive ∧
      (s.outcomeOf asked kept f state archive).1.isSettled = false := by
  unfold outcomeOf
  cases hreading : f.reading with
  | failed reason => exact ⟨rfl, rfl⟩
  | text text =>
    rw [SourceFile.text?_eq_some_iff.2 hreading] at hnone
    cases hnone

namespace Carries

variable {s} {files : List SourceFile} {holds : Store.Archive → Prop}

/-- `Carries` is about fewer files as well. -/
theorem mono (h : s.Carries files holds) {rest : List SourceFile} (hsub : rest ⊆ files) :
    s.Carries rest holds where
  find f hf := h.find f (hsub hf)
  set f hf := h.set f (hsub hf)

/-- `outcomeOf` keeps what is carried over lookups and clean results. -/
theorem outcomeOf (h : s.Carries files holds) {f : SourceFile} (hf : f ∈ files)
    (asked : Store.Moment) {kept : Store.Moment} (hcalm : kept.IsCalm) (state : σ)
    {archive : Store.Archive} (harchive : holds archive) :
    holds (s.outcomeOf asked kept f state archive).2.2 := by
  cases htext : f.text? with
  | none => rwa [(s.outcomeOf_of_no_text asked kept htext state archive).1]
  | some text =>
    have hasked : holds (s.archiveAsked asked f.path text archive) :=
      h.find f hf text htext asked archive harchive
    -- found, analyzed with a result to keep, or analyzed without one
    rcases s.outcomeOf_cases asked kept htext state archive with ⟨-, hout, -⟩ | ⟨hout, -⟩
    · rwa [hout]
    · rw [hout]
      rcases s.analyzeFile_cases kept f.path text state
          (s.archiveAsked asked f.path text archive) with
        ⟨-, heq, -⟩ | ⟨issues, hclean, heq, -⟩
      · rwa [heq]
      · rw [heq]
        exact h.set f hf text htext kept hcalm state issues hclean _ hasked

/-- `runFiles` keeps what is carried over lookups and clean results. -/
theorem runFiles (h : s.Carries files holds) {moments : Nat → Store.Moment}
    (hcalm : ∀ n, (moments n).IsCalm) (state : σ) {archive : Store.Archive}
    (harchive : holds archive) : holds (s.runFiles moments files state archive).archive := by
  -- two moments are taken up by each file
  induction files generalizing moments state archive with
  | nil => exact harchive
  | cons f rest ih =>
    unfold Scanner.runFiles
    split
    · exact harchive
    · exact ih (h.mono (List.subset_cons_self f rest)) (fun n => hcalm (n + 2)) _
        (h.outcomeOf List.mem_cons_self (moments 0) (hcalm 1) state harchive)

end Carries

/-- The lines of the issues that can be found in a file are numbers of 64 bits. -/
def HasWordLines (f : SourceFile) : Prop :=
  ∀ text, f.text? = some text → ∀ state found, s.passOf state f.path text = .finished found →
    ∀ i ∈ found.issues, i.HasWordLine

section

variable {s} {taken : String → Bool} {foreign : Folder} {moments : Nat → Store.Moment}

/-- `Issue.listToJson` of issues with such lines fits into an entry. -/
theorem HasWordLines.fits {f : SourceFile} (h : s.HasWordLines f) {text : String}
    (htext : f.text? = some text) {state : σ} {issues : List Issue}
    (hclean : s.passOf state f.path text = .finished { issues, warnings := [] }) :
    (Issue.listToJson issues).fits 1 = true :=
  Issue.fits_listToJson (h text htext state _ hclean) (by decide)

end

end Scanner

/-! ## Scans that take turns at a shelf -/

namespace Scan

/-- A scan with all that it depends on, apart from the shelf. The system refuses it nothing. -/
structure Turn where
  /-- The states of the analyzers. -/
  σ : Type
  scanner : Scanner σ
  state : σ
  /-- The number of the process. -/
  process : Nat
  /-- How many drafts the process has made before. -/
  drafts : Nat
  moments : Nat → Store.Moment
  calm : ∀ n, (moments n).IsCalm
  files : List SourceFile

namespace Turn

/-- The shelf as the scan finds it. -/
def archive (turn : Turn) (shelf : Shelf) : Store.Archive :=
  { shelf, process := turn.process, drafts := turn.drafts }

/-- What the scan leaves behind. -/
def result (turn : Turn) (shelf : Shelf) : Result turn.σ :=
  turn.scanner.run turn.moments turn.files turn.state (turn.archive shelf)

/-- The files that the scan comes to. -/
def visits (turn : Turn) (shelf : Shelf) : List (Visit turn.σ) :=
  turn.scanner.visits turn.moments turn.files turn.state (turn.archive shelf)

/-- The outcome of a file that the scan comes to. -/
def outcomeAt (turn : Turn) (v : Visit turn.σ) : Outcome := (turn.scanner.outcomeAt v).1

end Turn

end Scan
end Deadwood
