import Deadwood.Proofs.Store.Folder
import Deadwood.Proofs.Text.Octets
import Deadwood.Store.Moment

/-!
# What the calls of the system do

One lemma for each call, whatever the system refuses. `replace_cases` puts them together: a text
that is written through a draft comes to stand under its name, or fails and leaves at most a part of
itself in the draft. At a calm moment nothing of the draft is left (`replace_of_calm`).
-/

namespace Deadwood

/-- `Content.ofOctets` reads the octets of a text as that text. -/
theorem Content.ofOctets_octets (s : String) : Content.ofOctets (Text.octets s) = .text s := by
  rw [Content.ofOctets, Text.ofOctets?_octets]

namespace Store.Moment

variable {m : Moment} {items : Folder} {name draft text : String}

/-- At a calm moment `refused?` finds nothing that is refused. -/
theorem IsCalm.refused?_eq_none (hcalm : m.IsCalm) (call : Call) : m.refused? call = none := by
  rw [refused?, hcalm call, if_neg Bool.false_ne_true]

/-- A calm moment at a time, with no link that leads anywhere. -/
def calmAt (now : UInt64) : Moment where
  now
  refuses _ := false
  torn := none
  behind _ _ := .error .missing
  wording _ := ""

/-- `calmAt` makes a calm moment. -/
theorem isCalm_calmAt (now : UInt64) : (calmAt now).IsCalm := fun _ => rfl

/-- A calm moment at which all links lead to a file with this content. -/
def leadingTo (now : UInt64) (content : Content) : Moment :=
  { calmAt now with behind := fun _ _ => .ok (.file content) }

/-- `leadingTo` makes a calm moment. -/
theorem isCalm_leadingTo (now : UInt64) (content : Content) : (leadingTo now content).IsCalm :=
  fun _ => rfl

/-! ## Reading -/

/-- What `read` gives is in the file of that name, or in a file behind the link of that name. -/
theorem exists_of_read {content : Content} (h : m.read items name = .ok (some content)) :
    items.get? name = some (.file content) ∨
      ∃ target, items.get? name = some (.link target) ∧
        m.behind items name = .ok (.file content) := by
  -- every other way through the call gives no content
  unfold read at h
  split at h
  · cases h
  · split at h
    · cases h
    · rename_i hget
      cases h
      exact .inl hget
    · cases h
    · rename_i target hget
      refine .inr ⟨target, hget, ?_⟩
      split at h
      · rename_i hbehind
        cases h
        exact hbehind
      all_goals cases h

/-- `read` gives the content of a file. -/
theorem read_of_file (hread : m.refuses (.read name) = false) {content : Content}
    (hfile : items.get? name = some (.file content)) :
    m.read items name = .ok (some content) := by
  rw [read, hread, if_neg Bool.false_ne_true, hfile]

/-- `read` gives the content of the file behind a link. -/
theorem read_leadingTo (now : UInt64) (content : Content) {target : Path}
    (hlink : items.get? name = some (.link target)) :
    (leadingTo now content).read items name = .ok (some content) := by
  rw [read, isCalm_leadingTo now content, if_neg Bool.false_ne_true, hlink]
  rfl

/-- `read` gives nothing for a name that is not there. -/
theorem read_of_none (hread : m.refuses (.read name) = false) (hnone : items.get? name = none) :
    m.read items name = .ok none := by
  rw [read, hread, if_neg Bool.false_ne_true, hnone]

/-! ## Removing -/

/-- `discard` leaves the folder as it is, or takes out an item that is no folder. -/
theorem discard_cases (m : Moment) (items : Folder) (name : String) :
    m.discard items name = items ∨
      m.discard items name = items.erase name ∧ (items.get? name).any Item.isFolder = false := by
  unfold discard
  split
  · exact .inl rfl
  · rename_i hnone
    refine .inr ⟨rfl, ?_⟩
    -- it is removed as a file, which fails for a folder
    cases hget : items.get? name with
    | none => rfl
    | some item =>
      rw [hget, Option.bind_some, removeFails?] at hnone
      simpa using (Option.or_eq_none_iff.1 hnone).2

/-- `discard` adds nothing. -/
theorem discard_subset (m : Moment) (items : Folder) (name : String) :
    m.discard items name ⊆ items := by
  rcases m.discard_cases items name with heq | ⟨heq, -⟩
  · rw [heq]
    exact List.Subset.refl _
  · rw [heq]
    exact List.filter_sublist.subset

/-- At a calm moment `discard` takes out what is no folder. -/
theorem IsCalm.discard_eq (hcalm : m.IsCalm)
    (hfolder : (items.get? name).any Item.isFolder = false) :
    m.discard items name = items.erase name := by
  have hnone : (items.get? name).bind (m.removeFails? name) = none := by
    cases hget : items.get? name with
    | none => rfl
    | some item =>
      rw [hget, Option.any_some] at hfolder
      rw [Option.bind_some, removeFails?, hcalm.refused?_eq_none, hfolder]
      rfl
  rw [discard, hnone]

/-! ## Writing through a draft -/

/-- The file with the first octets of a text. -/
def part (text : String) (count : Nat) : Item :=
  .file (Content.ofOctets ((Text.octets text).take count))

/-- `part` with all octets of a text is the text. -/
theorem part_length (text : String) : part text (Text.octets text).length = .file (.text text) := by
  rw [part, List.take_length, Content.ofOctets_octets]

/-- `write` fails and leaves at most a part of the text, or the text is in the file then, or behind
    the link that is there. -/
theorem write_cases (m : Moment) (items : Folder) (name text : String) :
    (∃ cause, (m.write items name text).1 = .error cause ∧
      ((m.write items name text).2 = items ∨
        ∃ count, (m.write items name text).2 = items.put name (part text count))) ∨
    m.write items name text = (.ok (), items.put name (.file (.text text))) ∨
    m.write items name text = (.ok (), items) ∧ (items.get? name).any Item.isLink = true := by
  -- a folder, a link, and what can be written over
  unfold write
  split
  · exact .inl ⟨_, rfl, .inl rfl⟩
  · rename_i hget
    split
    · exact .inl ⟨_, rfl, .inl rfl⟩
    · exact .inr (.inr ⟨rfl, by rw [hget]; rfl⟩)
  · split
    · refine .inl ⟨_, rfl, ?_⟩
      cases m.torn with
      | none => exact .inl rfl
      | some count => exact .inr ⟨count, rfl⟩
    · exact .inr (.inl rfl)

/-- `rename` fails, or moves the item to its new name, where no folder was. -/
theorem rename_cases (m : Moment) (items : Folder) (old new : String) :
    (∃ cause, m.rename items old new = .error cause) ∨
    ∃ item, items.get? old = some item ∧ (items.get? new).any Item.isFolder = false ∧
      m.rename items old new = .ok ((items.erase old).put new item) := by
  -- it is refused, or a folder is in the way, or there is nothing to be moved
  unfold rename
  split
  · exact .inl ⟨_, rfl⟩
  · split
    · exact .inl ⟨_, rfl⟩
    · rename_i hfolder
      split
      · exact .inl ⟨_, rfl⟩
      · rename_i item hget
        exact .inr ⟨item, hget, Bool.eq_false_iff.2 hfolder, rfl⟩

/-- `replace` fails and changes at most the draft, in which a part of the text may be left. Or what
    is under the name then is the text, or a link that the draft was already, and no draft is
    left. -/
theorem replace_cases (m : Moment) (items : Folder) (name draft text : String) :
    (∃ cause, (m.replace items name draft text).1 = .error cause ∧
      ((m.replace items name draft text).2 = items ∨
        (m.replace items name draft text).2 = items.erase draft ∨
        ∃ count, (m.replace items name draft text).2 = items.put draft (part text count))) ∨
    ∃ item, m.replace items name draft text = (.ok (), (items.erase draft).put name item) ∧
      (item = .file (.text text) ∨ item.isLink = true ∧ items.get? draft = some item) := by
  unfold replace
  rcases m.write_cases items draft text with
    ⟨cause, hfailed, hleft⟩ | hwritten | ⟨hwritten, hlink⟩
  · generalize m.write items draft text = written at hfailed hleft
    obtain ⟨answer, items'⟩ := written
    cases hfailed
    refine .inl ⟨cause, rfl, ?_⟩
    rcases hleft with hsame | hpart
    · exact .inl hsame
    · exact .inr (.inr hpart)
  · rw [hwritten]
    rcases m.rename_cases (items.put draft (.file (.text text))) draft name with
      ⟨cause, hrename⟩ | ⟨item, hitem, -, hrename⟩
    · -- the draft is complete, and removed again if that works
      simp only [hrename]
      refine .inl ⟨cause, rfl, .inr ?_⟩
      rcases m.discard_cases (items.put draft (.file (.text text))) draft with hleft | ⟨hleft, -⟩
      · exact .inr ⟨_, by rw [hleft, part_length]⟩
      · exact .inl (by rw [hleft, Folder.erase_put_self])
    · rw [Folder.get?_put, if_pos rfl] at hitem
      cases hitem
      simp only [hrename, Folder.erase_put_self]
      exact .inr ⟨_, rfl, .inl rfl⟩
  · rw [hwritten]
    rcases m.rename_cases items draft name with ⟨cause, hrename⟩ | ⟨item, hitem, -, hrename⟩
    · simp only [hrename]
      refine .inl ⟨cause, rfl, ?_⟩
      rcases m.discard_cases items draft with hleft | ⟨hleft, -⟩
      · exact .inl hleft
      · exact .inr (.inl hleft)
    · rw [hitem, Option.any_some] at hlink
      simp only [hrename]
      exact .inr ⟨item, rfl, .inr ⟨hlink, hitem⟩⟩

/-- At a calm moment `replace` puts the text under its name, where no folder is in the way and the
    draft is new or a file that is left over. Nothing of the draft is left. -/
theorem IsCalm.replace_eq (hcalm : m.IsCalm) (text : String) (hne : draft ≠ name)
    (hdraft : ∀ item, items.get? draft = some item → item.isFile = true)
    (hfolder : (items.get? name).any Item.isFolder = false) :
    m.replace items name draft text =
      (.ok (), (items.erase draft).put name (.file (.text text))) := by
  -- what is left over under the name of the draft is written over
  have hwrite : m.write items draft text = (.ok (), items.put draft (.file (.text text))) := by
    have hcall := hcalm (.write draft)
    unfold write
    split
    · rename_i sub hget
      cases hdraft _ hget
    · rename_i target hget
      cases hdraft _ hget
    · rw [hcall, if_neg Bool.false_ne_true]
  have hrename : m.rename (items.put draft (.file (.text text))) draft name =
      .ok ((items.erase draft).put name (.file (.text text))) := by
    rw [rename, hcalm, if_neg Bool.false_ne_true, Folder.get?_put, if_neg hne, hfolder,
      if_neg Bool.false_ne_true, Folder.get?_put, if_pos rfl, Folder.erase_put_self]
  rw [replace, hwrite]
  simp only [hrename]

/-- At a calm moment `replace` changes nothing where a folder has the name, and the draft is new. -/
theorem IsCalm.replace_of_folder (hcalm : m.IsCalm) (text : String) (hne : draft ≠ name)
    (hdraft : items.get? draft = none) (hfolder : (items.get? name).any Item.isFolder = true) :
    m.replace items name draft text = (.error (.isFolder name), items) := by
  have hwrite : m.write items draft text = (.ok (), items.put draft (.file (.text text))) := by
    simp only [write, hdraft, hcalm (.write draft), Bool.false_eq_true, if_false]
  -- the draft is written before the folder is found in the way
  have hrename : m.rename (items.put draft (.file (.text text))) draft name =
      .error (.isFolder name) := by
    rw [rename, hcalm, if_neg Bool.false_ne_true, Folder.get?_put, if_neg hne, if_pos hfolder]
  -- and it is removed again
  have hdiscard : m.discard (items.put draft (.file (.text text))) draft = items := by
    rw [hcalm.discard_eq, Folder.erase_put_self, Folder.erase_eq_self hdraft]
    rw [Folder.get?_put, if_pos rfl]
    rfl
  rw [replace, hwrite]
  simp only [hrename, hdiscard]

end Store.Moment
end Deadwood
