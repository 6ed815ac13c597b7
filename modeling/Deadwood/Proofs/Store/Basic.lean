import Deadwood.Proofs.Json.Fits
import Deadwood.Proofs.Store.Key
import Deadwood.Proofs.Store.Moment
import Deadwood.Store.Basic

/-!
# What the store does to its shelf

Each operation is told by what it leaves on the shelf and by what has to lie there for a result to
be found, whatever the system refuses: `find_cases`, `set_cases` and `sweep_cases` say all that can
happen. At a calm moment the operations work (`find_of_entry`, `set_of_calm`, `prune_of_calm`).
`Entry.decode?_encode` says what is read back of an entry that was written.
-/

namespace Deadwood

/-- `Shelf.folder` can be used. -/
theorem Shelf.folder_ne_blocked (items : Folder) : Shelf.folder items ≠ .blocked := nofun

namespace Store

/-- `Entry.decode?` gives back of an entry what the reader of JSON makes of its time and of its
    result. -/
theorem Entry.decode?_encode (e : Entry) :
    Entry.decode? e.encode =
      ((Json.ofNat e.createdAt).reread? 1).bind fun time =>
        (e.payload.reread? 1).bind fun payload =>
          time.nat?.map fun createdAt =>
            { e with createdAt, payload := payload.lastMembers } := by
  -- the four members are read one level deeper, and only two of them can fail
  have hread : e.toJson.reread? 0 =
      ((Json.ofNat e.createdAt).reread? 1).bind fun time =>
        (e.payload.reread? 1).map fun payload =>
          .obj [("key", .str e.key), ("created_at", time), ("schema_version", .str e.schema),
            ("payload", payload)] := by
    simp only [toJson, Json.reread?, Json.rereadMembers?, Json.maxDepth]
    cases (Json.ofNat e.createdAt).reread? 1 <;> cases e.payload.reread? 1 <;> rfl
  have hparse : Json.parseAs? (.ofNames memberNames) e.toJson.render = e.toJson.reread? 0 :=
    Json.parseAs?_ofNames_render (by simp [memberNames])
  rw [encode, decode?, hparse, hread, Option.bind_assoc]
  refine congrArg (Option.bind _) (funext fun time => ?_)
  cases e.payload.reread? 1 with
  | none => rfl
  | some payload =>
    cases htime : time.nat? <;>
      simp [ofJson?, memberNames, Json.record?, Json.single?, Json.valuesOf, Json.text?, htime]

/-- `Entry.decode?` gives an entry back that the format can hold. -/
theorem Entry.decode?_encode_of_fits {e : Entry} (htime : e.createdAt < 0x10000000000000000)
    (hpayload : e.payload.fits 1 = true) : Entry.decode? e.encode = some e := by
  rw [Entry.decode?_encode, Json.reread?_of_fits 1 _ (Json.fits_ofNat htime 1),
    Json.reread?_of_fits 1 _ hpayload]
  simp only [Option.bind_some, Json.lastMembers_of_fits 1 _ hpayload]
  rfl

/-! ## Looking for a result -/

/-- What the system reads under the name of a subject's entry is this entry. -/
def Moment.ReadsEntry (m : Moment) (t : Subject) (items : Folder) (e : Entry) : Prop :=
  ∃ content, m.read items (entryName t.key) = .ok (some content) ∧
    content.text?.bind Entry.decode? = some e

section

variable (s : Store) (m : Moment) (t : Subject) (shelf : Shelf)

/-- What comes of `find`: either the shelf stays as it is, and a result that is found is that of an
    accepted entry, or an entry that is not accepted is taken off and nothing is found. -/
theorem find_cases :
    (∃ answer, s.find m t shelf = (answer, shelf) ∧ ∀ payload, answer = .ok (some payload) →
      ∃ e, m.ReadsEntry t shelf.items e ∧ s.accepts m.now t.key e = true ∧ e.payload = payload) ∨
    ∃ items e, shelf = .folder items ∧ m.ReadsEntry t items e ∧
      s.accepts m.now t.key e = false ∧
      s.find m t shelf = (.ok none, .folder (m.discard items (entryName t.key))) := by
  simp only [find]
  -- down to an entry that can be read every way out leaves the shelf alone
  split
  · split
    · exact .inl ⟨_, rfl, fun _ h => nomatch h⟩
    · exact .inl ⟨_, rfl, fun _ h => nomatch h⟩
    · rename_i items
      split
      · exact .inl ⟨_, rfl, fun _ h => nomatch h⟩
      · exact .inl ⟨_, rfl, fun _ h => nomatch h⟩
      · rename_i content hread
        split
        · exact .inl ⟨_, rfl, fun _ h => nomatch h⟩
        · rename_i e hdecode
          split
          · rename_i haccepts
            refine .inl ⟨_, rfl, fun payload h => ?_⟩
            exact ⟨e, ⟨content, hread, hdecode⟩, haccepts, by simpa using h⟩
          · rename_i hrefused
            exact .inr ⟨items, e, rfl, ⟨content, hread, hdecode⟩, by simpa using hrefused, rfl⟩
  · exact .inl ⟨_, rfl, fun _ h => nomatch h⟩

/-- `find` adds nothing to the shelf. -/
theorem items_find_subset : (s.find m t shelf).2.items ⊆ shelf.items := by
  rcases s.find_cases m t shelf with ⟨answer, hfind, -⟩ | ⟨items, _, rfl, -, -, hfind⟩
  · rw [hfind]
    exact List.Subset.refl _
  · rw [hfind]
    exact m.discard_subset items _

/-- `makeShelf` gives the items of the shelf, and none for a shelf that is made new. -/
theorem Moment.items_of_makeShelf {items : Folder} (h : m.makeShelf shelf = .ok items) :
    shelf.items = items := by
  -- only where there is no folder anything has to be made
  cases shelf with
  | missing =>
    rw [makeShelf] at h
    split at h
    · cases h
    · cases h
      rfl
  | blocked => cases h
  | folder items' =>
    cases h
    rfl

end

/-! ## Keeping a result -/

/-- `set` does nothing where the store is off. -/
theorem set_of_disabled {s : Store} (hdisabled : s.enabled = false) (m : Moment) (t : Subject)
    (payload : Json) (a : Archive) : s.set m t payload a = (.ok (), a) := by
  rw [set, hdisabled, if_neg Bool.false_ne_true]

/-- What comes of `set`: nothing, where the store is off; a fault, where at most the draft has
    changed and may hold a part of the entry; or the entry is under its name, or behind a link that
    the draft was already, and no draft is left. -/
theorem set_cases (s : Store) (m : Moment) (t : Subject) (payload : Json) (a : Archive) :
    (s.enabled = false ∧ s.set m t payload a = (.ok (), a)) ∨
    (∃ cause shelf drafts, s.set m t payload a = (.error (.io cause), { a with shelf, drafts }) ∧
      (shelf.items = a.items ∨ shelf.items = a.items.erase (a.draftName t.key) ∨
        ∃ count, shelf.items = a.items.put (a.draftName t.key)
          (Moment.part (s.entryFor m.now t payload).encode count))) ∨
    ∃ item, s.set m t payload a = (.ok (), { a with
        shelf := .folder ((a.items.erase (a.draftName t.key)).put (entryName t.key) item)
        drafts := a.drafts + 1 }) ∧
      (item = .file (.text (s.entryFor m.now t payload).encode) ∨
        item.isLink = true ∧ a.items.get? (a.draftName t.key) = some item) := by
  unfold set
  split
  · right
    split
    · exact .inl ⟨_, a.shelf, a.drafts, rfl, .inl rfl⟩
    · rename_i items hmake
      cases m.items_of_makeShelf a.shelf hmake
      -- all that can still go wrong does so while the entry is written through its draft
      rcases m.replace_cases a.items (entryName t.key) (a.draftName t.key)
          (s.entryFor m.now t payload).encode with ⟨cause, hfailed, hleft⟩ | ⟨item, hdone, hitem⟩
      · left
        simp only [Archive.items] at hfailed hleft ⊢
        generalize m.replace a.shelf.items (entryName t.key) (a.draftName t.key)
          (s.entryFor m.now t payload).encode = replaced at hfailed hleft
        obtain ⟨answer, items⟩ := replaced
        cases hfailed
        exact ⟨cause, .folder items, a.drafts + 1, rfl, hleft⟩
      · right
        simp only [Archive.items] at hdone hitem ⊢
        rw [hdone]
        exact ⟨item, rfl, hitem⟩
  · rename_i hdisabled
    exact .inl ⟨Bool.eq_false_iff.2 hdisabled, rfl⟩

section

variable {selected : String × Item → Bool} {wrong? : String × Item → Option Cause}

/-- `sweep` goes on behind an item with which nothing is wrong, and leaves it out if it is selected.
    -/
theorem sweep_cons_of_none {x : String × Item} (hx : wrong? x = none) {rest kept : Folder}
    {count : Except Fault Nat} (hrest : sweep selected wrong? rest = (count, kept)) :
    sweep selected wrong? (x :: rest) =
      (if selected x then count.map (· + 1) else count,
        [x].filter (fun y => !selected y) ++ kept) := by
  rw [sweep, hx, hrest]
  by_cases hselected : selected x = true
  · simp [hselected]
  · simp [hselected]

/-- `sweep` comes to its end, or to the first item with which something is wrong. -/
theorem sweep_cases (selected : String × Item → Bool) (wrong? : String × Item → Option Cause)
    (items : Folder) :
    (∀ x ∈ items, wrong? x = none) ∧ sweep selected wrong? items =
      (.ok (items.countP selected), items.filter fun x => !selected x) ∨
    ∃ before x after cause, items = before ++ x :: after ∧ (∀ y ∈ before, wrong? y = none) ∧
      wrong? x = some cause ∧ sweep selected wrong? items =
        (.error (.io cause), before.filter (fun y => !selected y) ++ x :: after) := by
  -- the items are taken one by one, and the first bad one ends it
  induction items with
  | nil => exact .inl ⟨fun _ hx => (List.not_mem_nil hx).elim, rfl⟩
  | cons x rest ih =>
    cases hx : wrong? x with
    | some cause =>
      refine .inr ⟨[], x, rest, cause, rfl, fun _ hy => (List.not_mem_nil hy).elim, hx, ?_⟩
      rw [sweep, hx]
      rfl
    | none =>
      rcases ih with ⟨hrest, hsweep⟩ | ⟨before, y, after, cause, rfl, hbefore, hy, hsweep⟩
      · refine .inl ⟨List.forall_mem_cons.2 ⟨hx, hrest⟩, ?_⟩
        rw [sweep_cons_of_none hx hsweep, List.countP_cons, ← List.filter_append]
        by_cases hselected : selected x = true <;> simp [hselected, Except.map]
      · refine .inr ⟨x :: before, y, after, cause, rfl, List.forall_mem_cons.2 ⟨hx, hbefore⟩,
          hy, ?_⟩
        rw [sweep_cons_of_none hx hsweep, ← List.append_assoc, ← List.filter_append]
        simp [Except.map]

/-- Wherever `sweep` ends, only selected items with which nothing is wrong are taken out. -/
theorem takenOut_sweep (selected : String × Item → Bool) (wrong? : String × Item → Option Cause)
    (items : Folder) :
    items.TakenOut (fun x => selected x && (wrong? x).isNone) (sweep selected wrong? items).2 := by
  have hothers : ∀ {swept : Folder}, (∀ x ∈ swept, wrong? x = none) →
      (swept.filter fun x => !selected x).filter (fun x => !(selected x && (wrong? x).isNone)) =
        swept.filter fun x => !(selected x && (wrong? x).isNone) := by
    intro swept hswept
    rw [List.filter_filter]
    refine List.filter_congr fun x hx => ?_
    simp [hswept x hx]
  rcases sweep_cases selected wrong? items with
    ⟨hnone, hsweep⟩ | ⟨before, x, after, cause, rfl, hbefore, -, hsweep⟩
  · rw [hsweep]
    exact ⟨List.filter_sublist, hothers hnone⟩
  · -- from the item that ends the work on, nothing has changed
    rw [hsweep]
    refine ⟨List.filter_sublist.append_right _, ?_⟩
    rw [List.filter_append, List.filter_append, hothers hbefore]

/-- Where nothing is wrong with any item, `sweep` takes out all that are selected. -/
theorem sweep_of_none (selected : String × Item → Bool) {wrong? : String × Item → Option Cause}
    {items : Folder} (h : ∀ x ∈ items, wrong? x = none) :
    sweep selected wrong? items =
      (.ok (items.countP selected), items.filter fun x => !selected x) := by
  rcases sweep_cases selected wrong? items with
    ⟨-, hsweep⟩ | ⟨before, x, after, cause, rfl, -, hx, -⟩
  · exact hsweep
  · rw [h x (List.mem_append_right _ List.mem_cons_self)] at hx
    cases hx

/-- A `sweep` that comes to its end has counted the selected items, and leaves the others. -/
theorem sweep_of_ok {items : Folder} {count : Nat}
    (hcount : (sweep selected wrong? items).1 = .ok count) :
    count = items.countP selected ∧
      (sweep selected wrong? items).2 = items.filter fun x => !selected x := by
  rcases sweep_cases selected wrong? items with
    ⟨-, hsweep⟩ | ⟨before, x, after, cause, -, -, -, hsweep⟩
  · rw [hsweep] at hcount ⊢
    cases hcount
    exact ⟨rfl, rfl⟩
  · rw [hsweep] at hcount
    cases hcount

end

/-- `onItems` does its work only for an enabled store and a shelf that can be listed; otherwise the
    shelf stays, and the answer is good only where there is no shelf. -/
theorem onItems_cases {α : Type} (s : Store) (m : Moment) (idle : α) (shelf : Shelf)
    (work : Folder → Except Fault α × Shelf) :
    ((s.onItems m idle shelf work).2 = shelf ∧ (s.enabled = true →
      ∀ answer, (s.onItems m idle shelf work).1 = .ok answer → shelf = .missing ∧ answer = idle)) ∨
    ∃ items, shelf = .folder items ∧ s.onItems m idle shelf work = work items := by
  -- the ways out are: no shelf, one in the way, one that cannot be listed, and a store that is off
  unfold onItems
  split
  · split
    · refine .inl ⟨rfl, fun _ answer hok => ⟨rfl, ?_⟩⟩
      cases hok
      rfl
    · exact .inl ⟨rfl, fun _ _ hok => nomatch hok⟩
    · split
      · exact .inl ⟨rfl, fun _ _ hok => nomatch hok⟩
      · exact .inr ⟨_, rfl, rfl⟩
  · rename_i hdisabled
    exact .inl ⟨rfl, fun henabled => absurd henabled hdisabled⟩

/-- `pruneFails?` finds something wrong with every stale folder. -/
theorem isFolder_of_pruneFails? {m : Moment} {live : List String} {x : String × Item}
    (hstale : isStale live x.1 = true) (h : pruneFails? m live x = none) :
    x.2.isFolder = false := by
  rw [pruneFails?, if_pos hstale, Option.or_eq_none_iff, Moment.removeFails?,
    Option.or_eq_none_iff] at h
  simpa using h.2.2

/-- `prune` takes out stale entries that are no folders, and nothing else. -/
theorem takenOut_prune (s : Store) (m : Moment) (live : List String) (shelf : Shelf) :
    shelf.items.TakenOut (fun x => isStale live x.1 && !x.2.isFolder)
      (s.prune m live shelf).2.items := by
  rcases s.onItems_cases m 0 shelf fun items =>
      ((sweep (fun x => isStale live x.1) (pruneFails? m live) items).1,
        .folder (sweep (fun x => isStale live x.1) (pruneFails? m live) items).2) with
    ⟨hsame, -⟩ | ⟨items, rfl, hwork⟩
  · rw [prune, hsame]
    exact .refl _ _
  · rw [prune, hwork]
    -- a folder cannot be removed as a file, so `sweep` ends at it
    refine (takenOut_sweep _ _ items).mono fun x hx => ?_
    simp only [Bool.and_eq_true, Option.isNone_iff_eq_none] at hx
    rw [hx.1, isFolder_of_pruneFails? hx.1 hx.2]
    rfl

/-- `isStale` tells of an entry that its key is not live. -/
theorem isStale_entryName_key (live : List String) (t : Subject) :
    isStale live (entryName t.key) = !live.contains t.key := by
  rw [isStale, entryKey?_entryName, Option.any_some]

/-- `isStale` holds only of what is named as an entry. -/
theorem isSome_of_isStale {live : List String} {name : String} (h : isStale live name = true) :
    (entryKey? name).isSome = true := by
  rw [isStale] at h
  cases hname : entryKey? name with
  | none => simp [hname] at h
  | some key => rfl

/-! ## What enabled stores do at calm moments -/

section

variable {s : Store} {m : Moment} {t : Subject} {shelf : Shelf}

/-- `find` finds nothing where nothing has the name of the entry. -/
theorem find_of_none (hcalm : m.IsCalm) (hopen : shelf ≠ .blocked)
    (hnone : shelf.items.get? (entryName t.key) = none) :
    s.find m t shelf = (.ok none, shelf) := by
  unfold find
  cases shelf with
  | missing => split <;> rfl
  | blocked => exact absurd rfl hopen
  | folder items =>
    rw [Shelf.items] at hnone
    simp only [Moment.read_of_none (hcalm _) hnone]
    split <;> rfl

/-- `find` finds an entry that is accepted, and discards one that is not. -/
theorem find_of_readsEntry (henabled : s.enabled = true) {items : Folder} {e : Entry}
    (hreads : m.ReadsEntry t items e) :
    s.find m t (.folder items) =
      if s.accepts m.now t.key e then (.ok (some e.payload), .folder items)
      else (.ok none, .folder (m.discard items (entryName t.key))) := by
  obtain ⟨content, hread, hdecode⟩ := hreads
  simp only [find, henabled, if_true, hread, hdecode]

/-- `find` finds an accepted entry in a file, and takes off one that is not accepted. -/
theorem find_of_entry (hcalm : m.IsCalm) (henabled : s.enabled = true) {text : String} {e : Entry}
    (hfile : shelf.items.get? (entryName t.key) = some (.file (.text text)))
    (hdecode : Entry.decode? text = some e) :
    s.find m t shelf =
      if s.accepts m.now t.key e then (.ok (some e.payload), shelf)
      else (.ok none, .folder (shelf.items.erase (entryName t.key))) := by
  cases shelf with
  | missing => cases hfile
  | blocked => cases hfile
  | folder items =>
    rw [Shelf.items] at hfile ⊢
    -- a file can always be removed at a calm moment
    have hdiscard : m.discard items (entryName t.key) = items.erase (entryName t.key) :=
      hcalm.discard_eq (by rw [hfile]; rfl)
    rw [find_of_readsEntry henabled ⟨.text text, Moment.read_of_file (hcalm _) hfile, hdecode⟩,
      hdiscard]

/-- The archive can take the entry of a subject. -/
structure Archive.IsReadyFor (a : Archive) (t : Subject) : Prop where
  isOpen : a.shelf ≠ .blocked
  /-- What has the name of the draft is a file that is left over, if there is anything. -/
  draft : ∀ item, a.items.get? (a.draftName t.key) = some item → item.isFile = true
  /-- No folder is in the way of the entry. -/
  noFolder : (a.items.get? (entryName t.key)).any Item.isFolder = false

/-- `IsReadyFor` holds where the draft has a new name, and no folder is in the way of the entry. -/
theorem Archive.isReadyFor_of_none {a : Archive} (hopen : a.shelf ≠ .blocked)
    (hdraft : a.items.get? (a.draftName t.key) = none)
    (hfolder : (a.items.get? (entryName t.key)).any Item.isFolder = false) : a.IsReadyFor t where
  isOpen := hopen
  draft item hitem := by
    rw [hdraft] at hitem
    cases hitem
  noFolder := hfolder

/-- A shelf that is not there, as a process finds it that has made no drafts. -/
def Archive.new : Archive := { shelf := .missing, process := 7, drafts := 0 }

/-- `IsReadyFor` holds of a new archive and any subject. -/
theorem Archive.isReadyFor_new (t : Subject) : Archive.new.IsReadyFor t := ⟨nofun, nofun, rfl⟩

/-- `set` puts the entry under its name, and nothing is left of the draft. -/
theorem set_of_calm (hcalm : m.IsCalm) (henabled : s.enabled = true) (payload : Json) {a : Archive}
    (hready : a.IsReadyFor t) :
    s.set m t payload a = (.ok (), { a with
      shelf := .folder ((a.items.erase (a.draftName t.key)).put (entryName t.key)
        (.file (.text (s.entryFor m.now t payload).encode)))
      drafts := a.drafts + 1 }) := by
  -- the shelf is made if it is not there
  have hmake : m.makeShelf a.shelf = .ok a.items := by
    cases hshelf : a.shelf with
    | missing =>
      rw [Moment.makeShelf, hcalm, if_neg Bool.false_ne_true, Archive.items, hshelf]
      rfl
    | blocked => exact absurd hshelf hready.isOpen
    | folder items =>
      rw [Archive.items, hshelf]
      rfl
  have hne : a.draftName t.key ≠ entryName t.key := draftName_ne_entryName t t a.process a.drafts
  -- the draft is written over what was left of an older one, if anything
  have hreplace : m.replace a.items (entryName t.key) (a.draftName t.key)
      (s.entryFor m.now t payload).encode = _ :=
    hcalm.replace_eq _ hne hready.draft hready.noFolder
  simp only [set, henabled, if_true, hmake, hreplace]
  rfl

/-- `find` gives what `set` has kept, as long as it is young enough and is one that an entry can
    hold. -/
theorem find_set (hcalm : m.IsCalm) (henabled : s.enabled = true) {payload : Json}
    (hpayload : payload.fits 1 = true) {later : Moment} (hlater : later.IsCalm)
    (hage : later.now.toNat - m.now.toNat ≤ s.maxAge) {a : Archive} (hready : a.IsReadyFor t) :
    s.find later t (s.set m t payload a).2.shelf =
      (.ok (some payload), (s.set m t payload a).2.shelf) := by
  have hdecode : Entry.decode? (s.entryFor m.now t payload).encode =
      some (s.entryFor m.now t payload) := Entry.decode?_encode_of_fits m.now.toNat_lt hpayload
  -- key and version are those of the store itself
  have haccepts : s.accepts later.now t.key (s.entryFor m.now t payload) = true := by
    simp [accepts, entryFor, hage]
  rw [set_of_calm hcalm henabled payload hready, find_of_entry hlater henabled ?_ hdecode,
    haccepts]
  · rfl
  · rw [Shelf.items, Folder.get?_put, if_pos rfl]

/-- `pruneFails?` finds nothing wrong at a calm moment with items that are not stale, or no folders.
    -/
theorem pruneFails?_of_calm (hcalm : m.IsCalm) {live : List String} {x : String × Item}
    (hx : isStale live x.1 = true → x.2.isFolder = false) : pruneFails? m live x = none := by
  rw [pruneFails?, hcalm.refused?_eq_none, Option.none_or]
  split
  · rename_i hstale
    rw [Moment.removeFails?, hcalm.refused?_eq_none, hx hstale]
    rfl
  · rfl

/-- `prune` takes all stale entries off at a calm moment, where no folder is named as one. -/
theorem prune_of_calm (hcalm : m.IsCalm) (henabled : s.enabled = true) (live : List String)
    (hopen : shelf ≠ .blocked)
    (hfiles : ∀ i ∈ shelf.items, isStale live i.1 = true → i.2.isFolder = false) :
    ∃ shelf', s.prune m live shelf =
        (.ok (shelf.items.countP fun i => isStale live i.1), shelf') ∧
      shelf' ≠ .blocked ∧ shelf'.items = shelf.items.filter fun i => !isStale live i.1 := by
  unfold prune onItems
  rw [if_pos henabled]
  cases shelf with
  | missing => exact ⟨.missing, rfl, nofun, rfl⟩
  | blocked => exact absurd rfl hopen
  | folder items =>
    -- nothing is refused and nothing stale is a folder, so `sweep` comes to its end
    have hsweep := sweep_of_none (fun x => isStale live x.1)
      fun x (hx : x ∈ items) => pruneFails?_of_calm hcalm (hfiles x hx)
    refine ⟨.folder (items.filter fun i => !isStale live i.1), ?_, Shelf.folder_ne_blocked _, rfl⟩
    simp only [hcalm .list, hsweep, Bool.false_eq_true, if_false, Shelf.items]

/-- `clearFails?` finds nothing wrong at a calm moment with any item. -/
theorem clearFails?_of_calm (hcalm : m.IsCalm) (x : String × Item) : clearFails? m x = none := by
  simp only [clearFails?, Moment.removeFails?, hcalm.refused?_eq_none, Option.none_or]
  split
  · split
    · -- a file is no folder
      rename_i hfile
      cases hitem : x.2 with
      | file => rfl
      | folder | link => simp [hitem, Item.isFile] at hfile
    · rfl
  · rfl

/-- `clear` leaves what the store has not made, and no shelf where nothing is left. -/
theorem clear_of_calm (hcalm : m.IsCalm) (henabled : s.enabled = true) (items : Folder) :
    s.clear m (.folder items) = (.ok (),
      if (items.filter fun x => !isOwn x.1 x.2).isEmpty then .missing
      else .folder (items.filter fun x => !isOwn x.1 x.2)) := by
  have hsweep := sweep_of_none (fun x => isOwn x.1 x.2)
    fun x (_ : x ∈ items) => clearFails?_of_calm hcalm x
  simp only [clear, onItems, henabled, if_true, hcalm .list, Bool.false_eq_true, if_false, hsweep,
    hcalm .removeShelf, Bool.not_false, Bool.and_true]

end

end Store
end Deadwood
