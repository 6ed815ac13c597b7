import Deadwood.Issue.Encoding
import Deadwood.Proofs.Store.Basic

/-!
# Issues that are written and read back

A list of issues is read back from its JSON as it was, also after the JSON itself has been written
and read back. For the latter the lines have to fit into 64 bits, the size of numbers that are read
as such: then the JSON is one that the format can hold (`fits_listToJson`). So issues are read back
from a text, from an entry and from a store (`issues_read_back`).
-/

namespace Deadwood

/-! ## Kinds and severities -/

/-- `Severity.ofJson?` reads a severity back. -/
theorem Severity.ofJson?_toJson (s : Severity) : Severity.ofJson? s.toJson = some s := by
  cases s <;> decide

/-- `IssueKind.ofJson?` reads a kind back. -/
theorem IssueKind.ofJson?_toJson (k : IssueKind) : IssueKind.ofJson? k.toJson = some k := by
  cases k with
  | deadFile => decide
  | unusedImport => decide
  | external n => rfl

/-- `Severity.toJson` fits at any depth, as it is a text. -/
theorem Severity.fits_toJson (s : Severity) (level : Nat) : s.toJson.fits level = true := by
  simp only [toJson, Json.fits]

/-- `IssueKind.toJson` fits, where one more value may be opened. -/
theorem IssueKind.fits_toJson (k : IssueKind) {level : Nat} (hlevel : level < Json.maxDepth) :
    k.toJson.fits level = true := by
  cases k <;> simp [toJson, Json.fits, Json.membersFit, hlevel]

namespace Issue

/-- The line of the issue, if it has one, is a number of 64 bits. -/
def HasWordLine (i : Issue) : Prop := ∀ n ∈ i.line, n < 0x10000000000000000

/-- `Issue.ofJson?` reads an issue back. -/
theorem ofJson?_toJson (i : Issue) : ofJson? i.toJson = some i := by
  obtain ⟨kind, file, line, symbol, message, severity, flavor⟩ := i
  have hkind := IssueKind.ofJson?_toJson kind
  have hseverity := Severity.ofJson?_toJson severity
  -- each of the three members that can be left out is there or not
  cases line <;> cases symbol <;> cases flavor <;>
    simp [ofJson?, toJson, Json.record?, Json.single?, Json.valuesOf, Json.optional,
      Json.optional?, Json.isNull, Json.nat?, Json.text?, Json.ofNat, hkind, hseverity]

/-- `Issue.toJson` fits, where two more values may be opened. -/
theorem fits_toJson {i : Issue} (hline : i.HasWordLine) {level : Nat}
    (hlevel : level + 1 < Json.maxDepth) : i.toJson.fits level = true := by
  have hkind := IssueKind.fits_toJson i.kind hlevel
  have hseverity := Severity.fits_toJson i.severity (level + 1)
  have hnumber : ∀ n ∈ i.line, (Json.ofNat n).fits (level + 1) = true := fun n hn =>
    Json.fits_ofNat (hline n hn) (level + 1)
  obtain ⟨kind, file, line, symbol, message, severity, flavor⟩ := i
  have hlevel' : level < Json.maxDepth := Nat.lt_of_succ_lt hlevel
  -- only the line is a number whose size counts
  cases line with
  | none =>
    cases symbol <;> cases flavor <;>
      simp [toJson, Json.optional, Json.fits, Json.membersFit, hlevel', hkind, hseverity]
  | some n =>
    have hn := hnumber n rfl
    cases symbol <;> cases flavor <;>
      simp [toJson, Json.optional, Json.fits, Json.membersFit, hlevel', hkind, hseverity, hn]

/-! ## Lists of issues -/

/-- `Issue.listOfJson?` reads a list of issues back. -/
theorem listOfJson?_listToJson (issues : List Issue) :
    listOfJson? (listToJson issues) = some issues := by
  show (issues.map toJson).mapM ofJson? = some issues
  induction issues with
  | nil => rfl
  | cons i issues ih => simp [ofJson?_toJson, ih]

/-- `Issue.listToJson` fits, where three more values may be opened. -/
theorem fits_listToJson {issues : List Issue} (hlines : ∀ i ∈ issues, i.HasWordLine)
    {level : Nat} (hlevel : level + 2 < Json.maxDepth) : (listToJson issues).fits level = true := by
  have hitems : Json.itemsFit (level + 1) (issues.map toJson) = true :=
    Json.itemsFit_map fun i hi => fits_toJson (hlines i hi) hlevel
  rw [listToJson, Json.fits, hitems, Bool.and_true, decide_eq_true_eq]
  omega

/-- `Json.reread?` leaves `Issue.listToJson` as it is. -/
theorem reread?_listToJson {issues : List Issue} (hlines : ∀ i ∈ issues, i.HasWordLine)
    {level : Nat} (hlevel : level + 2 < Json.maxDepth) :
    (listToJson issues).reread? level = some (listToJson issues) :=
  Json.reread?_of_fits level _ (fits_listToJson hlines hlevel)

/-! ## Issues in texts, entries and stores -/

/-- `Json.parse?` and `Issue.listOfJson?` read issues back from a text. -/
theorem read_text {issues : List Issue} (hlines : ∀ i ∈ issues, i.HasWordLine) :
    (Json.parse? (listToJson issues).render).bind listOfJson? = some issues := by
  have hlevel : 0 + 2 < Json.maxDepth := by decide
  rw [Json.parse?_render, reread?_listToJson hlines hlevel, Option.bind_some,
    listOfJson?_listToJson]

/-- `Entry.decode?` and `Issue.listOfJson?` read issues back from the text of an entry. -/
theorem read_entry {issues : List Issue} (hlines : ∀ i ∈ issues, i.HasWordLine) (s : Store)
    (now : UInt64) (subject : Store.Subject) :
    (Store.Entry.decode? (s.entryFor now subject (listToJson issues)).encode).bind
      (fun e => listOfJson? e.payload) = some issues := by
  have hfits : (listToJson issues).fits 1 = true := fits_listToJson hlines (by decide)
  rw [Store.Entry.decode?_encode_of_fits now.toNat_lt hfits, Option.bind_some]
  exact listOfJson?_listToJson issues

/-- Issues are read back as they were, down to the spelling of their files: from the text of their
    JSON, from the text of an entry, and from a store that can keep them, until they are too old.
    The store can keep them if the system refuses nothing and the archive is ready for the entry:
    no folder has the name of it, and what has the name of its draft is at most a file. -/
theorem issues_read_back (issues : List Issue) (hlines : ∀ i ∈ issues, i.HasWordLine) :
    (Json.parse? (listToJson issues).render).bind listOfJson? = some issues ∧
    ∀ (s : Store) (m : Store.Moment) (subject : Store.Subject),
      (Store.Entry.decode? (s.entryFor m.now subject (listToJson issues)).encode).bind
        (fun e => listOfJson? e.payload) = some issues ∧
      (s.enabled = true → m.IsCalm → ∀ later : Store.Moment, later.IsCalm →
        later.now.toNat - m.now.toNat ≤ s.maxAge → ∀ a : Store.Archive, a.IsReadyFor subject →
        (s.get listOfJson? later subject
          (s.set m subject (listToJson issues) a).2.shelf).1 = .ok (some issues)) := by
  refine ⟨read_text hlines, fun s m subject => ⟨read_entry hlines s m.now subject, ?_⟩⟩
  intro henabled hcalm later hlater hage a hready
  -- one level below the entry
  have hfits : (listToJson issues).fits 1 = true := fits_listToJson hlines (by decide)
  rw [Store.get, Store.find_set hcalm henabled hfits hlater hage hready]
  simp only [listOfJson?_listToJson]

/-- An issue of another origin that is named like a built-in kind, with the last line that there is
    and with characters that are escaped, and one with nothing that can be left out. -/
def sampleIssues : List Issue :=
  [⟨.external "dead-file", ⟨"/p//\"a\\b.js/"⟩, some 0xffffffffffffffff, some "\x00é\x1f",
      "\t\n", .error, none⟩,
    ⟨.deadFile, ⟨""⟩, none, none, "", .info, some "😀\x7f"⟩]

/-- The sample is read back from a text and from a store that it was put into. -/
theorem issues_read_back_sampleIssues :
    (∀ i ∈ sampleIssues, i.HasWordLine) ∧
      (Json.parse? (listToJson sampleIssues).render).bind listOfJson? = some sampleIssues ∧
      ((Store.ofSchema "1").get listOfJson? (.calmAt 7)
        { operation := "scan", path := ⟨"/p/a.js"⟩, contentHash := "h" }
        ((Store.ofSchema "1").set (.calmAt 5)
          { operation := "scan", path := ⟨"/p/a.js"⟩, contentHash := "h" }
          (listToJson sampleIssues) { shelf := .missing, process := 7, drafts := 0 }).2.shelf).1 =
        .ok (some sampleIssues) := by
  have hlines : ∀ i ∈ sampleIssues, i.HasWordLine := by
    simp [sampleIssues, HasWordLine]
  obtain ⟨htext, hstore⟩ := issues_read_back sampleIssues hlines
  obtain ⟨-, hget⟩ := hstore (.ofSchema "1") (.calmAt 5)
    { operation := "scan", path := ⟨"/p/a.js"⟩, contentHash := "h" }
  have hage : (7 : UInt64).toNat - (5 : UInt64).toNat ≤ Store.defaultMaxAge := by decide
  exact ⟨hlines, htext, hget rfl (Store.Moment.isCalm_calmAt 5) (.calmAt 7)
    (Store.Moment.isCalm_calmAt 7) hage { shelf := .missing, process := 7, drafts := 0 }
    ⟨nofun, nofun, rfl⟩⟩

end Issue
end Deadwood
