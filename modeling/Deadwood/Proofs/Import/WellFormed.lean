import Mathlib.Data.List.Destutter
import Deadwood.Proofs.Order
import Deadwood.Proofs.Import.Printed
import Deadwood.Proofs.Import.Span
import Deadwood.Proofs.Import.Unused

/-!
# Extractions are well formed

What is found in a text, whatever the text is, keeps a number of laws, which `Extraction.WellFormed`
collects: `extract_wellFormed`.

The references are found by five recognisers that know nothing of each other, and then sorted. No
two of them are at the same offset. Those of one form do not overlap, and forms that share a keyword
do not read the same text behind it (`form_eq_of_reads`).
-/

namespace Deadwood.Import

open Text

/-! ## Where references stand -/

/-- Between the end of this text and its start, a line end or a `;` there are only blanks. -/
def OpensStatement (before : List Char) : Prop :=
  ∃ earlier blanks, before = earlier ++ blanks ∧ (∀ c ∈ blanks, isBlank c = true) ∧
    ∀ c ∈ earlier.getLast?, c = '\n' ∨ c = ';'

/-- The keyword of the reference stands between the two texts, and its specifier in quotes in the
    second one. -/
structure Reference.Stands (text before body : List Char) (ref : Reference) : Prop where
  text_eq : text = before ++ (ref.form.keyword ++ body)
  offset_eq : ref.offset = byteLength before
  line_eq : ref.line = before.count '\n' + 1
  opens : ref.form.isStatement = true → OpensStatement before
  quotes : ∃ rest, Quotes ref.specifier.toList rest body

/-- `LeadsStatement` texts open a statement. -/
theorem LeadsStatement.opensStatement {pre lead : List Char}
    (h : LeadsStatement pre.getLast? lead) : OpensStatement (pre ++ lead) := by
  obtain ⟨blanks, hblanks, rfl | ⟨rfl, hline⟩⟩ := h
  · exact ⟨pre ++ [';'], blanks, by simp, hblanks, by simp⟩
  · exact ⟨pre, lead, rfl, hblanks, fun c hc => .inl (by simpa [Option.mem_def.1 hc] using hline)⟩

/-- The reference is what its form reads somewhere in the text. -/
def Reference.Reads (text : List Char) (ref : Reference) : Prop :=
  ∃ before body, ref.Stands text before body ∧ ∃ found, ref.form.read body = some found

/-- References of one form, in the order of the text. -/
structure AreOf (text : List Char) (form : Form) (refs : List Reference) : Prop where
  form_eq : ∀ ref ∈ refs, ref.form = form
  reads : ∀ ref ∈ refs, ref.Reads text
  ordered : refs.Pairwise fun a b => a.offset < b.offset

/-- `findAll` gives references of a form, if each find is what the form `Takes`. -/
theorem areOf_findAll {α : Type} {form : Form} {r : Recogniser α} (specifier : α → List Char)
    (htakes : ∀ {before text f}, r before text = some f →
      ∃ rest, Takes form before text (specifier f.value) rest f) (text : List Char) :
    AreOf text form ((findAll r text).map fun found =>
      Reference.at text form found.start (specifier found.value)) := by
  obtain ⟨places, hfinds, hplaces, hpairs⟩ := exists_places r text
  rw [hfinds, List.map_map]
  refine ⟨fun ref href => ?_, fun ref href => ?_, ?_⟩
  · obtain ⟨p, -, rfl⟩ := List.mem_map.1 href
    rfl
  · obtain ⟨p, hp, rfl⟩ := List.mem_map.1 href
    obtain ⟨rest, htaken⟩ := htakes (hplaces p hp).found
    obtain ⟨lead, body, hrest, hlead, hread, hstart, -⟩ := htaken.exists_pieces
    obtain ⟨behind, hquotes, -⟩ := quotes_of_read hread
    have htext : text = (p.pre ++ lead) ++ (form.keyword ++ body) := by
      rw [(hplaces p hp).text_eq, hrest, List.append_assoc]
    refine ⟨p.pre ++ lead, body, ⟨htext, hstart, ?_, fun h => (hlead h).opensStatement, behind, ?_⟩,
      _, hread⟩
    · rw [← lineOf_byteLength _ (form.keyword ++ body), ← htext, ← hstart]
      rfl
    · rw [Function.comp_apply, Reference.at, String.toList_ofList]
      exact hquotes
  · -- each find starts behind the end of the one before, which is not empty
    rw [List.pairwise_map]
    refine hpairs.imp_of_mem fun {p q} hp _ hpq => ?_
    obtain ⟨rest, htaken⟩ := htakes (hplaces p hp).found
    exact Nat.lt_of_lt_of_le htaken.start_lt_stop (Place.stop_le_start hpq)

/-- The references of one form. -/
def referencesOf (text : List Char) : Form → List Reference
  | .static => (findAll static? text).map fun found =>
      Reference.at text .static found.start found.value.1.specifier
  | .sideEffect => referencesBy text .sideEffect sideEffect?
  | .reExport => referencesBy text .reExport reExport?
  | .require => referencesBy text .require require?
  | .dynamic => referencesBy text .dynamic dynamic?

/-- `referencesByForm` goes through the forms. -/
theorem referencesByForm_eq_flatMap (text : List Char) :
    referencesByForm text =
      [Form.static, .sideEffect, .reExport, .require, .dynamic].flatMap (referencesOf text) := by
  simp [referencesByForm, referencesOf]

/-- `referencesOf` a form gives references of this form. -/
theorem areOf_referencesOf (text : List Char) (form : Form) :
    AreOf text form (referencesOf text form) := by
  cases form with
  | static => exact areOf_findAll (·.1.specifier) (fun h => ⟨_, takes_static? h⟩) text
  | sideEffect => exact areOf_findAll (fun specifier => specifier) takes_sideEffect? text
  | reExport => exact areOf_findAll (fun specifier => specifier) takes_reExport? text
  | require => exact areOf_findAll (fun specifier => specifier) takes_require? text
  | dynamic => exact areOf_findAll (fun specifier => specifier) takes_dynamic? text

/-! ## No two references at one offset -/

/-- `byteLength` tells where a text is cut. -/
theorem append_inj_of_byteLength {xs ys xs' ys' : List Char} (h : xs ++ ys = xs' ++ ys')
    (hbytes : byteLength xs = byteLength xs') : xs = xs' ∧ ys = ys' := by
  rcases List.append_eq_append_iff.1 h with ⟨mid, rfl, rfl⟩ | ⟨mid, rfl, rfl⟩
  · rw [byteLength_append, Nat.left_eq_add, byteLength_eq_zero_iff] at hbytes
    simp [hbytes]
  · rw [byteLength_append, Nat.add_eq_left, byteLength_eq_zero_iff] at hbytes
    simp [hbytes]

/-- `Form.keyword`: a text starts with one keyword only. -/
theorem Form.keyword_append_inj {form form' : Form} {body body' : List Char}
    (h : form.keyword ++ body = form'.keyword ++ body') :
    form.keyword = form'.keyword ∧ body = body' := by
  have hkeyword : form.keyword = form'.keyword := by
    -- different keywords have different first letters
    have hhead := congrArg List.head? h
    cases form <;> cases form' <;>
      first | rfl | simp [keyword, importWord, exportWord, requireWord] at hhead
  rw [hkeyword] at h
  exact ⟨hkeyword, List.append_cancel_left h⟩

/-- `Reference.Reads` at one offset is of one form. -/
theorem form_eq_of_reads {text : List Char} {a b : Reference} (ha : a.Reads text)
    (hb : b.Reads text) (h : a.offset = b.offset) : a.form = b.form := by
  obtain ⟨before, body, hstands, found, hfound⟩ := ha
  obtain ⟨before', body', hstands', found', hfound'⟩ := hb
  have hbytes : byteLength before = byteLength before' := by
    rw [← hstands.offset_eq, ← hstands'.offset_eq, h]
  -- both keywords stand at the same place, with the same text behind them
  obtain ⟨-, htail⟩ :=
    append_inj_of_byteLength (hstands.text_eq.symm.trans hstands'.text_eq) hbytes
  obtain ⟨hkeyword, rfl⟩ := Form.keyword_append_inj htail
  exact form_eq_of_read hkeyword hfound hfound'

/-- `referencesByForm` has no two references at one offset. -/
theorem pairwise_referencesByForm (text : List Char) :
    (referencesByForm text).Pairwise fun a b => a.offset ≠ b.offset := by
  rw [referencesByForm_eq_flatMap, List.pairwise_flatMap]
  refine ⟨fun form _ => (areOf_referencesOf text form).ordered.imp Nat.ne_of_lt, ?_⟩
  have hforms : [Form.static, .sideEffect, .reExport, .require, .dynamic].Nodup := by decide
  -- references of two forms are at different offsets, as otherwise the forms were the same
  refine hforms.imp fun {form form'} hne a ha b hb heq => hne ?_
  have haof := areOf_referencesOf text form
  have hbof := areOf_referencesOf text form'
  rw [← haof.form_eq a ha, ← hbof.form_eq b hb]
  exact form_eq_of_reads (haof.reads a ha) (hbof.reads b hb) heq

/-- `referencesByForm`, sorted by the offsets, is in strict order. -/
theorem pairwise_mergeSort_referencesByForm (text : List Char) :
    ((referencesByForm text).mergeSort fun a b => a.offset ≤ b.offset).Pairwise fun a b =>
      a.offset < b.offset := by
  have hsorted := List.pairwise_mergeSort offset_le_trans offset_le_total (referencesByForm text)
  have hperm := List.mergeSort_perm (referencesByForm text) fun a b => a.offset ≤ b.offset
  have hne := (hperm.pairwise_iff Ne.symm).2 (pairwise_referencesByForm text)
  refine (hsorted.and hne).imp fun {a b} h => ?_
  exact Nat.lt_of_le_of_ne (of_decide_eq_true h.1) h.2

/-- `extract` gives all references by form, sorted: none of them repeats another one, so
    `dropRepeated` keeps all. -/
theorem references_extract (text : String) :
    (extract text).references =
      (referencesByForm text.toList).mergeSort fun a b => a.offset ≤ b.offset :=
  dropRepeated_eq_self (by simp) (pairwise_mergeSort_referencesByForm text.toList)

/-- `extract` gives references that stand where one of the forms has read them. -/
theorem exists_stands_of_mem_references {text : String} {ref : Reference}
    (h : ref ∈ (extract text).references) : ∃ before body, ref.Stands text.toList before body := by
  rw [references_extract, List.mem_mergeSort, referencesByForm_eq_flatMap] at h
  obtain ⟨form, -, href⟩ := List.mem_flatMap.1 h
  obtain ⟨before, body, hstands, -⟩ := (areOf_referencesOf _ form).reads ref href
  exact ⟨before, body, hstands⟩

/-! ## Statements and their references -/

/-- `extract` gives the references of imports that bind names in the order in which `static?` finds
    them. -/
theorem filter_static_references (text : String) :
    (extract text).references.filter (·.form = .static) = referencesOf text.toList .static := by
  -- each form is kept as a whole or left out as a whole
  have hfilter (form : Form) : (referencesOf text.toList form).filter (·.form = .static) =
      if form = .static then referencesOf text.toList form else [] := by
    have hform := (areOf_referencesOf text.toList form).form_eq
    split
    · rename_i hstatic
      exact List.filter_eq_self.2 fun ref href => by simp [hform ref href, hstatic]
    · rename_i hne
      exact List.filter_eq_nil_iff.2 fun ref href => by simp [hform ref href, hne]
  have hstatic : (referencesByForm text.toList).filter (·.form = .static) =
      referencesOf text.toList .static := by
    rw [referencesByForm_eq_flatMap, List.filter_flatMap]
    simp [hfilter]
  rw [references_extract, List.filter_mergeSort offset_le_trans offset_le_total, hstatic]
  exact mergeSort_eq_of_perm (.refl _) (areOf_referencesOf _ _).ordered

/-! ## Well-formed extractions -/

/-- The laws of what is extracted from a text. -/
structure Extraction.WellFormed (text : String) (e : Extraction) : Prop where
  /-- All references that the forms read are there: dropping repeated ones takes none away. -/
  complete : e.references.Perm (referencesByForm text.toList)
  /-- The references are in the order of their offsets, no two at the same one. -/
  ordered : e.references.Pairwise fun a b => a.offset < b.offset
  /-- No reference repeats the one before it. -/
  distinct :
    e.references.destutter (fun a b => ¬(a.offset = b.offset ∧ a.specifier = b.specifier)) =
    e.references
  /-- Every reference stands in the text. -/
  stands : ∀ ref ∈ e.references, ∃ before body, ref.Stands text.toList before body
  /-- The statements are the static references, in the same order. -/
  statements : (e.references.filter (·.form = .static)).map (fun ref =>
      (ref.specifier, ref.line, ref.offset)) =
        e.statements.map fun s => (s.specifier, s.line, s.start)
  /-- No two statements overlap. -/
  disjoint : e.statements.Pairwise fun s t => s.stop ≤ t.start
  /-- A statement has text, and it starts and stops between characters. -/
  spans : ∀ s ∈ e.statements, s.start < s.stop ∧ s.stop ≤ text.utf8ByteSize ∧
    String.Pos.Raw.IsValid text ⟨s.start⟩ ∧ String.Pos.Raw.IsValid text ⟨s.stop⟩
  /-- What is bound can be bound. -/
  names : ∀ s ∈ e.statements, ∀ b ∈ s.bindings, isIdentifier b.name.toList = true

/-- `extract` gives a well-formed extraction, whatever the text is. -/
theorem extract_wellFormed (text : String) : (extract text).WellFormed text where
  complete := by
    rw [references_extract]
    exact List.mergeSort_perm _ _
  ordered := by
    rw [references_extract]
    exact pairwise_mergeSort_referencesByForm text.toList
  distinct := by
    rw [references_extract]
    refine List.destutter_of_isChain _ _ (List.Pairwise.isChain ?_)
    -- no two references share an offset, so none is dropped
    refine (pairwise_mergeSort_referencesByForm text.toList).imp fun hlt => ?_
    rintro ⟨hoffset, -⟩
    exact Nat.ne_of_lt hlt hoffset
  stands ref href := exists_stands_of_mem_references href
  statements := by
    rw [filter_static_references, referencesOf, extract, Extraction.ofChars, List.map_map,
      List.map_map]
    rfl
  disjoint := pairwise_statements text
  spans s hs := by
    obtain ⟨pre, inside, post, htext, hne, hstart, hstop⟩ := exists_pieces_of_mem_statements hs
    obtain ⟨-, hvalid, hvalid'⟩ := isValid_of_mem_statements hs
    refine ⟨?_, hvalid'.le_rawEndPos, hvalid, hvalid'⟩
    -- a statement is not empty
    have hinside : byteLength inside ≠ 0 := byteLength_eq_zero_iff.not.2 hne
    rw [hstart, hstop, byteLength_append]
    omega
  names s hs b hb := by
    obtain ⟨n, hn⟩ := exists_name_of_mem_bindings hs hb
    rw [hn, String.toList_ofList]
    exact n.isIdentifier

end Deadwood.Import
