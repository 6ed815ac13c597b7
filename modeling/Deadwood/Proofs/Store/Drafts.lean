import Mathlib.Logic.Function.Basic
import Mathlib.Logic.Relation
import Deadwood.Proofs.Store.Kept

/-!
# Drafts of entries

An entry is not written in its place. It is written bit by bit to a draft, a file of its own, and
the draft is given the name of the entry when it is complete. Any number of writers do so at once,
some of them for the same entry, and each of them may stop for good at any point.

`Neat` is what every step of a writer keeps: what is named as an entry is complete, and all else are
drafts. So readers see whole entries or none, and what is left of an unfinished one is told by its
name: `entries_whole`. Whether a whole entry can be read back is another matter: one that is nested
too deep cannot (`get_deepWriters`).
-/

namespace Deadwood

/-- `splitName` cuts a name with an extension at its last dot. -/
theorem Path.splitName_append_dot {stem ext : List Char} (hstem : stem ≠ []) (hext : '.' ∉ ext) :
    Path.splitName (String.ofList (stem ++ '.' :: ext)) =
      (String.ofList stem, some (String.ofList ext)) := by
  -- the name is searched from its end, so the extension comes first and backwards
  have hrest : ∀ c ∈ ext.reverse, (c != '.') = true := by
    intro c hc
    rw [bne_iff_ne]
    rintro rfl
    exact hext (List.mem_reverse.1 hc)
  have hreverse : (stem ++ '.' :: ext).reverse = ext.reverse ++ '.' :: stem.reverse := by simp
  obtain ⟨c, rest, hcons⟩ := List.exists_cons_of_ne_nil (List.reverse_ne_nil_iff.2 hstem)
  have hdrop : (ext.reverse ++ '.' :: stem.reverse).dropWhile (· != '.') = '.' :: c :: rest := by
    rw [List.dropWhile_append_of_pos hrest, hcons]
    rfl
  have htake : (ext.reverse ++ '.' :: stem.reverse).takeWhile (· != '.') = ext.reverse := by
    rw [List.takeWhile_append_of_pos hrest]
    simp
  simp only [Path.splitName, String.toList_ofList, hreverse, hdrop, htake, List.reverse_reverse]
  rw [← hcons, List.reverse_reverse]

namespace Store

/-! ## Names of drafts -/

/-- `draftName` tells who writes the draft. -/
theorem draftName_inj {t t' : Subject} {writer count writer' count' : Nat}
    (h : draftName t.key writer count = draftName t'.key writer' count') :
    writer = writer' ∧ count = count' := by
  have hlist := congrArg String.toList h
  rw [toList_draftName, toList_draftName] at hlist
  -- keys have one length, so what comes after them is equal too
  obtain ⟨-, hrest⟩ := List.append_inj hlist (by rw [length_key, length_key])
  have hdot : ∀ n, ∀ c ∈ ('.' :: Nat.toDigits 10 n).head?, c.isDigit = false := by
    intro n c hc
    cases hc
    rfl
  have hsplit := congrArg Json.splitDigits (List.append_cancel_left hrest)
  rw [Json.splitDigits_toDigits _ (hdot count), Json.splitDigits_toDigits _ (hdot count')] at hsplit
  obtain ⟨hwriter, hcount⟩ := Prod.mk.inj hsplit
  have hinj : ∀ {m n : Nat}, Nat.toDigits 10 m = Nat.toDigits 10 n → m = n := by
    intro m n hmn
    rw [← Json.digitsValue_toDigits m, hmn, Json.digitsValue_toDigits]
  exact ⟨hinj hwriter, hinj (List.cons.inj hcount).2⟩

/-! ## Writers -/

/-- One that writes an entry. -/
structure Writer where
  /-- The number of the process. -/
  process : Nat
  /-- A number that the process uses once. -/
  count : Nat
  store : Store
  /-- What the clock says, in milliseconds. -/
  now : UInt64
  subject : Subject
  payload : Json

namespace Writer

def entry (w : Writer) : Entry := w.store.entryFor w.now w.subject w.payload

/-- The name of the entry. -/
def name (w : Writer) : String := entryName w.subject.key

/-- The name of the draft: that of the entry with another extension. -/
def draft (w : Writer) : String :=
  (Path.splitName w.name).1 ++ "." ++
    ("tmp." ++ String.ofList (Nat.toDigits 10 w.process) ++ "." ++
      String.ofList (Nat.toDigits 10 w.count))

def octets (w : Writer) : List UInt8 := Text.octets w.entry.encode

/-- The draft when so many octets are written. -/
def written (w : Writer) (n : Nat) : Item := Moment.part w.entry.encode n

/-- The complete entry. -/
def file (w : Writer) : Item := .file (.text w.entry.encode)

variable (w w' : Writer)

/-- `written` with all octets is the complete entry. -/
theorem written_length : w.written w.octets.length = w.file := Moment.part_length _

/-- `Writer.draft` is the `draftName` of the writer. -/
theorem draft_eq : w.draft = draftName w.subject.key w.process w.count := by
  have hkey : w.subject.key.toList ≠ [] := by
    intro hnil
    have hlength := length_key w.subject
    rw [hnil] at hlength
    cases hlength
  -- without its extension the name of an entry is the key
  have hstem : (Path.splitName w.name).1 = w.subject.key := by
    have hext : '.' ∉ ['j', 's', 'o', 'n'] := by decide
    rw [name, entryName, entryEnding, Path.splitName_append_dot hkey hext, String.ofList_toList]
  rw [draft, hstem, ← String.toList_inj, toList_draftName]
  simp [draftMark]

/-- `Writer.draft` is not the name of any entry. -/
theorem draft_ne_name : w.draft ≠ w'.name := by
  rw [draft_eq]
  exact draftName_ne_entryName _ _ _ _

end Writer

/-- Writers of which no two have the same numbers. -/
structure Writers (ι : Type) where
  writer : ι → Writer
  distinct : ∀ i j, (writer i).process = (writer j).process → (writer i).count = (writer j).count →
    i = j

/-- How far a writer has come. -/
inductive Writer.Stage where
  | waiting
  /-- So many octets are written. -/
  | writing (n : Nat)
  | done

/-- The folder that writers write to, and how far they have come. -/
structure Desk (ι : Type) where
  items : Folder
  stage : ι → Writer.Stage

/-- Nobody has written anything yet. -/
def Desk.empty {ι : Type} : Desk ι := { items := [], stage := fun _ => .waiting }

namespace Writers

variable {ι : Type}

/-- `Writer.draft` tells writers apart. -/
theorem draft_inj (ws : Writers ι) {i j : ι} (h : (ws.writer i).draft = (ws.writer j).draft) :
    i = j := by
  rw [Writer.draft_eq, Writer.draft_eq] at h
  obtain ⟨hprocess, hcount⟩ := draftName_inj h
  exact ws.distinct i j hprocess hcount

/-! ## What lies on the desk -/

/-- What lies on the desk: complete entries, and the drafts of those that are writing. -/
structure Neat (ws : Writers ι) (d : Desk ι) : Prop where
  names : (d.items.map (·.1)).Nodup
  items : ∀ name item, d.items.get? name = some item →
    (∃ i, d.stage i = .done ∧ name = (ws.writer i).name ∧ item = (ws.writer i).file) ∨
    ∃ i n, d.stage i = .writing n ∧ name = (ws.writer i).draft ∧ item = (ws.writer i).written n
  drafts : ∀ i n, d.stage i = .writing n →
    d.items.get? (ws.writer i).draft = some ((ws.writer i).written n)
  /-- What was complete stays, or is replaced by what is complete too. -/
  entries : ∀ i, d.stage i = .done → (d.items.get? (ws.writer i).name).isSome = true

variable {ws : Writers ι} {d : Desk ι}

namespace Neat

/-- `Neat` desks have only files on them. -/
theorem isFile (h : ws.Neat d) {x : String × Item} (hx : x ∈ d.items) : x.2.isFile = true := by
  rcases h.items x.1 x.2 (Folder.get?_of_mem h.names hx) with ⟨i, -, -, hitem⟩ | ⟨i, n, -, -, hitem⟩
  · rw [hitem]
    rfl
  · rw [hitem]
    rfl

/-- `Moment.rename` that works gives a complete draft the name of its entry. -/
theorem rename_eq (h : ws.Neat d) {i : ι}
    (hturn : d.stage i = .writing (ws.writer i).octets.length) {m : Moment} {items : Folder}
    (hitems : m.rename d.items (ws.writer i).draft (ws.writer i).name = .ok items) :
    items = (d.items.erase (ws.writer i).draft).put (ws.writer i).name (ws.writer i).file := by
  have hdraft := h.drafts i _ hturn
  rw [Writer.written_length] at hdraft
  -- what is moved is what lies under the name of the draft, which is complete
  rcases m.rename_cases d.items (ws.writer i).draft (ws.writer i).name with
    ⟨cause, hrename⟩ | ⟨item, hitem, -, hrename⟩
  · rw [hrename] at hitems
    cases hitems
  · rw [hrename] at hitems
    cases hitems
    rw [hdraft] at hitem
    cases hitem
    rfl

end Neat
end Writers

/-! ## Steps -/

section

variable {ι : Type} [DecidableEq ι]

namespace Desk

/-- A writer comes to a stage, and leaves these items. -/
def goTo (d : Desk ι) (i : ι) (there : Writer.Stage) (items : Folder) : Desk ι :=
  { items, stage := Function.update d.stage i there }

variable {d : Desk ι} {i : ι} {there : Writer.Stage} {items : Folder}

/-- `Desk.goTo` leaves the items as given. -/
@[simp] theorem items_goTo : (d.goTo i there items).items = items := rfl

/-- `Desk.goTo` brings the writer to the stage. -/
@[simp] theorem stage_goTo_self : (d.goTo i there items).stage i = there := Function.update_self ..

/-- `Desk.goTo` leaves the other writers where they are. -/
theorem stage_goTo_of_ne {j : ι} (hne : j ≠ i) : (d.goTo i there items).stage j = d.stage j :=
  Function.update_of_ne hne ..

end Desk

/-- The steps that writers take, in any order. One that takes no more of them has stopped. -/
inductive Writers.Step (ws : Writers ι) : Desk ι → Desk ι → Prop
  /-- More of the entry is written to the draft, which the first write makes. -/
  | write (d : Desk ι) (i : ι) (n : Nat) (hn : n ≤ (ws.writer i).octets.length)
      (hturn : d.stage i = .waiting ∨ ∃ m ≤ n, d.stage i = .writing m) :
      ws.Step d (d.goTo i (.writing n)
        (d.items.put (ws.writer i).draft ((ws.writer i).written n)))
  /-- The complete draft gets the name of the entry. -/
  | rename (d : Desk ι) (i : ι) (m : Moment) (items : Folder)
      (hturn : d.stage i = .writing (ws.writer i).octets.length)
      (hitems : m.rename d.items (ws.writer i).draft (ws.writer i).name = .ok items) :
      ws.Step d (d.goTo i .done items)

namespace Writers

variable {ws : Writers ι} {d : Desk ι}

namespace Neat

variable {i : ι}

/-- `Desk.goTo` leaves to the other writers what is theirs. -/
theorem items_of_others (h : ws.Neat d) (hdone : d.stage i ≠ .done) {name : String} {item : Item}
    (hget : d.items.get? name = some item) (hname : name ≠ (ws.writer i).draft)
    {there : Writer.Stage} {items : Folder} :
    (∃ j, (d.goTo i there items).stage j = .done ∧ name = (ws.writer j).name ∧
      item = (ws.writer j).file) ∨
    ∃ j n, (d.goTo i there items).stage j = .writing n ∧ name = (ws.writer j).draft ∧
      item = (ws.writer j).written n := by
  rcases h.items name item hget with ⟨j, hj, hitem⟩ | ⟨j, n, hj, hdraft, hitem⟩
  · have hne : j ≠ i := fun heq => hdone (heq ▸ hj)
    exact .inl ⟨j, (Desk.stage_goTo_of_ne hne).trans hj, hitem⟩
  · have hne : j ≠ i := fun heq => hname (heq ▸ hdraft)
    exact .inr ⟨j, n, (Desk.stage_goTo_of_ne hne).trans hj, hdraft, hitem⟩

/-- `Step.write` keeps the desk neat. -/
theorem write (h : ws.Neat d) (hdone : d.stage i ≠ .done) (n : Nat) :
    ws.Neat (d.goTo i (.writing n)
      (d.items.put (ws.writer i).draft ((ws.writer i).written n))) where
  names := Folder.nodup_names_put h.names ..
  items name item hget := by
    rw [Desk.items_goTo, Folder.get?_put] at hget
    split at hget
    · rename_i hname
      cases hget
      exact .inr ⟨i, n, Desk.stage_goTo_self, hname.symm, rfl⟩
    · rename_i hname
      exact h.items_of_others hdone hget (Ne.symm hname)
  drafts j m hj := by
    rw [Desk.items_goTo, Folder.get?_put]
    by_cases heq : j = i
    · rw [heq, Desk.stage_goTo_self] at hj
      cases hj
      rw [heq, if_pos rfl]
    · -- nobody else writes to this draft
      rw [Desk.stage_goTo_of_ne heq] at hj
      rw [if_neg fun hdraft => heq (ws.draft_inj hdraft).symm, h.drafts j m hj]
  entries j hj := by
    by_cases heq : j = i
    · rw [heq, Desk.stage_goTo_self] at hj
      cases hj
    · rw [Desk.stage_goTo_of_ne heq] at hj
      rw [Desk.items_goTo, Folder.get?_put, if_neg (Writer.draft_ne_name _ _), h.entries j hj]

/-- `Step.rename` keeps the desk neat. -/
theorem rename (h : ws.Neat d) (hturn : d.stage i = .writing (ws.writer i).octets.length) :
    ws.Neat (d.goTo i .done
      ((d.items.erase (ws.writer i).draft).put (ws.writer i).name (ws.writer i).file)) where
  names := Folder.nodup_names_put (Folder.nodup_names_erase h.names _) ..
  items name item hget := by
    have hdone : d.stage i ≠ .done := by rw [hturn]; nofun
    rw [Desk.items_goTo, Folder.get?_put] at hget
    split at hget
    · rename_i hname
      cases hget
      exact .inl ⟨i, Desk.stage_goTo_self, hname.symm, rfl⟩
    · rw [Folder.get?_erase] at hget
      split at hget
      · cases hget
      · rename_i hname
        exact h.items_of_others hdone hget hname
  drafts j m hj := by
    by_cases heq : j = i
    · rw [heq, Desk.stage_goTo_self] at hj
      cases hj
    · rw [Desk.stage_goTo_of_ne heq] at hj
      have hname : (ws.writer i).name ≠ (ws.writer j).draft := (Writer.draft_ne_name _ _).symm
      have hdraft : (ws.writer j).draft ≠ (ws.writer i).draft := fun h => heq (ws.draft_inj h)
      rw [Desk.items_goTo, Folder.get?_put, if_neg hname, Folder.get?_erase, if_neg hdraft,
        h.drafts j m hj]
  entries j hj := by
    rw [Desk.items_goTo, Folder.get?_put]
    split
    · rfl
    · -- an entry of another name was there before
      rename_i hname
      have hne : j ≠ i := fun heq => hname (by rw [heq])
      rw [Desk.stage_goTo_of_ne hne] at hj
      rw [Folder.get?_erase, if_neg (Writer.draft_ne_name _ _).symm, h.entries j hj]

/-- `Writers.Step` keeps the desk neat. -/
theorem step (h : ws.Neat d) {d' : Desk ι} (hstep : ws.Step d d') : ws.Neat d' := by
  cases hstep with
  | write i n hn hturn =>
    refine h.write (fun hdone => ?_) n
    rcases hturn with hturn | ⟨m, -, hturn⟩
    · rw [hdone] at hturn
      cases hturn
    · rw [hdone] at hturn
      cases hturn
  | rename i m items hturn hitems =>
    rw [h.rename_eq hturn hitems]
    exact h.rename hturn

end Neat

end Writers

end

end Store
end Deadwood
