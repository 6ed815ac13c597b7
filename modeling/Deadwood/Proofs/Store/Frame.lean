import Deadwood.Proofs.Store.Drafts

/-!
# What the store leaves alone

A shelf may hold anything besides entries: other files, folders, links, drafts. And the system may
refuse to do what an operation asks of it, at any point. `operations_touch_own` says what each
operation may do to a shelf at most, whatever lies there, and also when the operation fails.

Three things are touched that are not files of the store's own making, or are left behind: `prune`
and `get` take off links that are named as entries (`prune_takes_link`, `get_takes_link`), and a
write that breaks off leaves its draft (`set_leaves_part`).
-/

namespace Deadwood.Store

section

variable (s : Store) (m : Moment) (shelf : Shelf)

/-! ## Keeping and finding a result -/

/-- Keeping a result changes at most its entry and its draft. -/
structure Keeps (t : Subject) (payload : Json) (before : Archive)
    (result : Except Fault Unit × Archive) : Prop where
  others : (result.2.items.erase (entryName t.key)).erase (before.draftName t.key) =
    before.items.erase (entryName t.key)
  /-- Where it fails, the entry does not change either, and the draft may hold a part of the
      entry. -/
  failed : ∀ f, result.1 = .error f →
    result.2.items.erase (before.draftName t.key) = before.items ∧
    ∀ item, result.2.items.get? (before.draftName t.key) = some item →
      ∃ count, item = Moment.part (s.entryFor m.now t payload).encode count
  /-- Where it works, the entry is there and the draft is gone. -/
  done : s.enabled = true → result.1 = .ok () →
    result.2.items.get? (entryName t.key) =
      some (.file (.text (s.entryFor m.now t payload).encode)) ∧
    result.2.items.get? (before.draftName t.key) = none
  /-- Where nothing is refused, nothing is left behind. -/
  calm : m.IsCalm → ∀ f, result.1 = .error f → result.2.items = before.items

/-- Asking for a result takes at most its entry off, which is a file or a link to one, and only if
    there is an entry in it that is of another key or version, or too old. -/
def Drops (t : Subject) (before after : Shelf) : Prop :=
  after = before ∨ ∃ content e,
    (before.items.get? (entryName t.key) = some (.file content) ∨
      ∃ target, before.items.get? (entryName t.key) = some (.link target) ∧
        m.behind before.items (entryName t.key) = .ok (.file content)) ∧
    content.text?.bind Entry.decode? = some e ∧
    (e.key ≠ t.key ∨ e.schema ≠ s.schema ∨ s.maxAge < m.now.toNat - e.createdAt) ∧
    after = .folder (before.items.erase (entryName t.key))

/-- `set` that fails at a calm moment changes nothing. -/
theorem items_set_of_calm (hcalm : m.IsCalm) (t : Subject) (payload : Json) {a : Archive}
    (hdraft : a.items.get? (a.draftName t.key) = none) {f : Fault}
    (hfailed : (s.set m t payload a).1 = .error f) :
    (s.set m t payload a).2.items = a.items := by
  have hne : a.draftName t.key ≠ entryName t.key := draftName_ne_entryName t t _ _
  cases henabled : s.enabled with
  | false => rw [set_of_disabled henabled]
  | true =>
    cases hfolder : (a.items.get? (entryName t.key)).any Item.isFolder with
    | true =>
      have hreplace :=
        hcalm.replace_of_folder (s.entryFor m.now t payload).encode hne hdraft hfolder
      rw [set, if_pos henabled]
      cases hmake : m.makeShelf a.shelf with
      | error cause => rfl
      | ok items =>
        cases m.items_of_makeShelf a.shelf hmake
        rw [Archive.items] at hreplace
        simp only [hreplace]
        rfl
    | false =>
      cases hshelf : a.shelf with
      | blocked => simp [set, henabled, hshelf, Moment.makeShelf]
      | missing | folder items =>
        -- with nothing in its way the entry would have been written
        have hopen : a.shelf ≠ .blocked := by simp [hshelf]
        rw [set_of_calm hcalm henabled payload (Archive.isReadyFor_of_none hopen hdraft hfolder)]
          at hfailed
        cases hfailed

/-- `set` through a draft with a new name changes at most its entry and its draft. -/
theorem keeps_set (t : Subject) (payload : Json) (a : Archive)
    (hdraft : a.items.get? (a.draftName t.key) = none) :
    s.Keeps m t payload a (s.set m t payload a) := by
  have hne : a.draftName t.key ≠ entryName t.key := draftName_ne_entryName t t _ _
  have herase : a.items.erase (a.draftName t.key) = a.items := Folder.erase_eq_self hdraft
  have hcalm := fun h f => s.items_set_of_calm m h t payload hdraft (f := f)
  have hentry : (a.items.erase (entryName t.key)).erase (a.draftName t.key) =
      a.items.erase (entryName t.key) := by
    rw [Folder.erase_comm, herase]
  rcases s.set_cases m t payload a with
    ⟨hdisabled, hset⟩ | ⟨cause, shelf, drafts, hset, hleft⟩ | ⟨item, hset, hitem⟩
  · rw [hset] at hcalm ⊢
    refine ⟨hentry, fun f hf => (nomatch hf), fun henabled => ?_, hcalm⟩
    rw [hdisabled] at henabled
    cases henabled
  · -- all that may be new is the draft, with a part of the entry
    have hpart : shelf.items.erase (a.draftName t.key) = a.items ∧
        ∀ item, shelf.items.get? (a.draftName t.key) = some item →
          ∃ count, item = Moment.part (s.entryFor m.now t payload).encode count := by
      rcases hleft with hleft | hleft | ⟨count, hleft⟩
      · rw [hleft]
        exact ⟨herase, fun item hitem => nomatch hdraft.symm.trans hitem⟩
      · rw [hleft, Folder.erase_erase_self, herase]
        exact ⟨rfl, fun item hitem => nomatch hdraft.symm.trans hitem⟩
      · rw [hleft, Folder.erase_put_self, herase, Folder.get?_put, if_pos rfl]
        refine ⟨rfl, fun item hitem => ⟨count, ?_⟩⟩
        cases hitem
        rfl
    rw [hset] at hcalm ⊢
    refine ⟨?_, fun f _ => hpart, fun _ hok => (nomatch hok), hcalm⟩
    rw [Folder.erase_comm]
    exact congrArg (Folder.erase · (entryName t.key)) hpart.1
  · have hitem : item = .file (.text (s.entryFor m.now t payload).encode) :=
      hitem.resolve_right fun hlink => nomatch hdraft.symm.trans hlink.2
    rw [hset, hitem] at hcalm ⊢
    refine ⟨?_, fun f hf => (nomatch hf), fun _ _ => ⟨?_, ?_⟩, hcalm⟩
    · show ((Folder.put _ _ _).erase _).erase _ = _
      rw [Folder.erase_put_self, herase, hentry]
    · show (Folder.put _ _ _).get? _ = _
      rw [Folder.get?_put, if_pos rfl]
    · show (Folder.put _ _ _).get? _ = _
      rw [Folder.get?_put, if_neg hne.symm, herase, hdraft]

/-- `get` drops at most the entry that it is asked for. -/
theorem drops_get {α : Type} (read : Json → Option α) (t : Subject) :
    s.Drops m t shelf (s.get read m t shelf).2 := by
  -- whether the result can be read does not matter to the shelf any more
  have hsame : (s.get read m t shelf).2 = (s.find m t shelf).2 := by
    unfold get
    split
    · rename_i hfind
      rw [hfind]
      split <;> rfl
    · rename_i hfind
      rw [hfind]
    · rename_i hfind
      rw [hfind]
  rw [hsame]
  -- only an entry that is not accepted is taken off
  rcases s.find_cases m t shelf with
    ⟨answer, hfind, -⟩ | ⟨items, e, rfl, ⟨content, hread, hdecode⟩, hrefused, hfind⟩
  · exact .inl (by rw [hfind])
  · rw [hfind]
    rcases m.discard_cases items (entryName t.key) with hleft | ⟨hleft, -⟩
    · exact .inl (by rw [hleft])
    · refine .inr ⟨content, e, Moment.exists_of_read hread, hdecode, ?_, by rw [hleft]; rfl⟩
      by_contra hnone
      simp only [not_or, not_not, not_lt] at hnone
      simp [accepts, hnone] at hrefused

/-! ## Taking results off the shelf -/

/-- Taking stale entries off leaves all else, and none of them when it comes to its end. -/
structure Prunes (live : List String) (before : Shelf) (result : Except Fault Nat × Shelf) :
    Prop where
  takenOut : before.items.TakenOut (fun x => isStale live x.1 && !x.2.isFolder) result.2.items
  counted : s.enabled = true → ∀ n, result.1 = .ok n →
    n = before.items.countP fun x => isStale live x.1
  done : s.enabled = true → ∀ n, result.1 = .ok n →
    ∀ x ∈ result.2.items, isStale live x.1 = false

/-- Taking all off that the store has made leaves all else, and none of it when it comes to its
    end. The shelf goes only if nothing is left on it. -/
structure Clears (before : Shelf) (result : Except Fault Unit × Shelf) : Prop where
  takenOut : before.items.TakenOut (fun x => isOwn x.1 x.2) result.2.items
  done : s.enabled = true → result.1 = .ok () → ∀ x ∈ result.2.items, isOwn x.1 x.2 = false
  shelf : result.2 = .missing → before = .missing ∨
    ∃ items, before = .folder items ∧ ∀ x ∈ items, isOwn x.1 x.2 = true

/-- `prune` counts the stale entries when it comes to its end, and none is left. -/
theorem prune_of_ok (live : List String) (henabled : s.enabled = true) {count : Nat}
    (hcount : (s.prune m live shelf).1 = .ok count) :
    count = shelf.items.countP (fun x => isStale live x.1) ∧
      ∀ x ∈ (s.prune m live shelf).2.items, isStale live x.1 = false := by
  unfold prune at hcount ⊢
  rcases s.onItems_cases m 0 shelf fun items =>
      ((sweep (fun x => isStale live x.1) (pruneFails? m live) items).1,
        .folder (sweep (fun x => isStale live x.1) (pruneFails? m live) items).2) with
    ⟨hsame, hok⟩ | ⟨items, rfl, hwork⟩
  · obtain ⟨rfl, rfl⟩ := hok henabled count hcount
    rw [hsame]
    exact ⟨rfl, fun x hx => (List.not_mem_nil hx).elim⟩
  · rw [hwork] at hcount ⊢
    obtain ⟨hn, hkept⟩ := sweep_of_ok hcount
    refine ⟨hn, fun x hx => ?_⟩
    simp only [Shelf.items, hkept] at hx
    simpa using (List.mem_filter.1 hx).2

/-- `prune` takes out only stale entries that are no folders. -/
theorem prunes_prune (live : List String) : s.Prunes live shelf (s.prune m live shelf) where
  takenOut := s.takenOut_prune m live shelf
  counted henabled _ hn := (s.prune_of_ok m shelf live henabled hn).1
  done henabled _ hn := (s.prune_of_ok m shelf live henabled hn).2

/-- What `clear` does with the items on a shelf. -/
def clearItems (items : Folder) : Except Fault Unit × Shelf :=
  match sweep (fun x => isOwn x.1 x.2) (clearFails? m) items with
  | (.error fault, kept) => (.error fault, .folder kept)
  | (.ok _, kept) =>
    (.ok (), if kept.isEmpty && !m.refuses .removeShelf then .missing else .folder kept)

/-- `clearItems` leaves the items that were not taken out, as a folder that is taken away is empty.
    -/
theorem items_clearItems (items : Folder) : (clearItems m items).2.items =
    (sweep (fun x => isOwn x.1 x.2) (clearFails? m) items).2 := by
  unfold clearItems
  generalize sweep (fun x => isOwn x.1 x.2) (clearFails? m) items = swept
  obtain ⟨answer, kept⟩ := swept
  cases answer with
  | error fault => rfl
  | ok count =>
    simp only
    split
    · rename_i hempty
      rw [Bool.and_eq_true, List.isEmpty_iff] at hempty
      rw [hempty.1]
      rfl
    · rfl

/-- `clear` takes out only what is the store's own. -/
theorem clears_clear : s.Clears shelf (s.clear m shelf) := by
  have hclear : s.clear m shelf = s.onItems m () shelf (clearItems m) := rfl
  have htaken : shelf.items.TakenOut (fun x => isOwn x.1 x.2) (s.clear m shelf).2.items := by
    rw [hclear]
    rcases s.onItems_cases m () shelf (clearItems m) with ⟨hsame, -⟩ | ⟨items, rfl, hwork⟩
    · rw [hsame]
      exact .refl _ _
    · rw [hwork, items_clearItems]
      exact (takenOut_sweep _ _ items).mono fun x hx => (Bool.and_eq_true_iff.1 hx).1
  refine ⟨htaken, fun henabled hok x hx => ?_, fun hmissing => ?_⟩
  · rw [hclear] at hok hx
    rcases s.onItems_cases m () shelf (clearItems m) with ⟨hsame, hidle⟩ | ⟨items, rfl, hwork⟩
    · obtain ⟨rfl, -⟩ := hidle henabled () hok
      rw [hsame] at hx
      exact (List.not_mem_nil hx).elim
    · rw [hwork] at hok
      rw [hwork, items_clearItems] at hx
      unfold clearItems at hok
      generalize hswept : sweep (fun x => isOwn x.1 x.2) (clearFails? m) items = swept at hok hx
      obtain ⟨answer, kept⟩ := swept
      cases answer with
      | error fault => cases hok
      | ok count =>
        have hkept : kept = _ := (congrArg Prod.snd hswept).symm.trans
          (sweep_of_ok (congrArg Prod.fst hswept)).2
        rw [hkept] at hx
        simpa using (List.mem_filter.1 hx).2
  · rcases s.onItems_cases m () shelf (clearItems m) with ⟨hsame, -⟩ | ⟨items, rfl, -⟩
    · exact .inl (hsame.symm.trans hmissing)
    · -- all that is not the store's own would still be there
      refine .inr ⟨items, rfl, fun x hx => ?_⟩
      have hothers := htaken.others
      rw [hmissing] at hothers
      simpa using List.filter_eq_nil_iff.1 hothers.symm x hx

end

/-- Whatever lies on a shelf, and whatever the system refuses: keeping a result through a draft with
    a new name changes at most its entry and leaves at most a part of it in the draft, asking for
    one drops at most its entry, and the other operations take out only what is theirs. -/
theorem operations_touch_own {α : Type} (s : Store) (m : Moment) (t : Subject) (payload : Json)
    (read : Json → Option α) (live : List String) (a : Archive)
    (hdraft : a.items.get? (a.draftName t.key) = none) :
    s.Keeps m t payload a (s.set m t payload a) ∧
    s.Drops m t a.shelf (s.get read m t a.shelf).2 ∧
    s.Prunes live a.shelf (s.prune m live a.shelf) ∧
    s.Clears a.shelf (s.clear m a.shelf) :=
  ⟨s.keeps_set m t payload a hdraft, s.drops_get m a.shelf read t, s.prunes_prune m a.shelf live,
    s.clears_clear m a.shelf⟩

/-- A file of someone else, an entry, and a folder that is named as one. -/
def mixedShelf (t t' : Subject) : Shelf :=
  .folder [("notes.txt", .file (.text "")), (entryName t.key, .file (.text "")),
    (entryName t'.key, .folder [])]

/-- That shelf for a process that has made no drafts. -/
def mixedArchive (t t' : Subject) : Archive :=
  { shelf := mixedShelf t t', process := 7, drafts := 0 }

/-- `mixedArchive` has nothing under the name of the draft. -/
theorem get?_mixedArchive (t t' : Subject) :
    (mixedArchive t t').items.get? ((mixedArchive t t').draftName t.key) = none := by
  have hnotes : "notes.txt" ≠ draftName t.key 7 0 := by
    intro heq
    have hname := isDraftName_draftName t 7 0
    rw [← heq] at hname
    simp [isDraftName, draftMark] at hname
  have hentry : ∀ t' : Subject, entryName t'.key ≠ draftName t.key 7 0 :=
    fun t' => (draftName_ne_entryName t t' 7 0).symm
  simp only [mixedArchive, Archive.items, Archive.draftName, mixedShelf, Shelf.items,
    Folder.get?_cons, if_neg hnotes, if_neg (hentry _)]
  rfl

/-- `prune` fails at the folder. The entry is gone then, and the file is not. -/
theorem prune_mixedShelf (t t' : Subject) (schema : String) (now : UInt64) :
    (ofSchema schema).prune (.calmAt now) [] (mixedShelf t t') =
      (.error (.io (.isFolder (entryName t'.key))),
        .folder [("notes.txt", .file (.text "")), (entryName t'.key, .folder [])]) := by
  have hcalm := Moment.isCalm_calmAt now
  have hnotes : isStale [] "notes.txt" = false := by simp [isStale, entryKey?, entryEnding]
  simp [prune, onItems, ofSchema, mixedShelf, sweep, pruneFails?, Moment.removeFails?,
    hcalm .list, hcalm.refused?_eq_none, hnotes, isStale_entryName_key, Item.isFolder, Except.map]

/-- A subject besides `sampleSubject`. -/
def otherSubject : Subject := { sampleSubject with path := ⟨"/p/b.js"⟩ }

/-- All operations on that shelf, of which `prune` fails. -/
theorem operations_touch_own_mixedShelf :
    let a := mixedArchive sampleSubject otherSubject
    let m := Moment.calmAt 1000
    a.items.get? (a.draftName sampleSubject.key) = none ∧
      (ofSchema "1").prune m [] a.shelf = (.error (.io (.isFolder (entryName otherSubject.key))),
        .folder [("notes.txt", .file (.text "")), (entryName otherSubject.key, .folder [])]) ∧
      (ofSchema "1").Prunes [] a.shelf ((ofSchema "1").prune m [] a.shelf) ∧
      (ofSchema "1").Clears a.shelf ((ofSchema "1").clear m a.shelf) ∧
      (ofSchema "1").Keeps m sampleSubject .null a ((ofSchema "1").set m sampleSubject .null a) ∧
      (ofSchema "1").Drops m sampleSubject a.shelf
        ((ofSchema "1").get some m sampleSubject a.shelf).2 := by
  have hdraft := get?_mixedArchive sampleSubject otherSubject
  obtain ⟨hkeeps, hdrops, hprunes, hclears⟩ := operations_touch_own (ofSchema "1") (.calmAt 1000)
    sampleSubject .null some [] (mixedArchive sampleSubject otherSubject) hdraft
  exact ⟨hdraft, prune_mixedShelf sampleSubject otherSubject "1" 1000, hprunes, hclears, hkeeps,
    hdrops⟩

/-! ## What is touched besides -/

/-- A link that is named as an entry. -/
def linkShelf (t : Subject) : Shelf := .folder [(entryName t.key, .link ⟨"index.js"⟩)]

/-- `prune` takes the link off. -/
theorem prune_linkShelf (t : Subject) (schema : String) (now : UInt64) :
    (ofSchema schema).prune (.calmAt now) [] (linkShelf t) = (.ok 1, .folder []) := by
  have hcalm := Moment.isCalm_calmAt now
  simp [prune, onItems, ofSchema, linkShelf, sweep, pruneFails?, Moment.removeFails?,
    hcalm .list, hcalm.refused?_eq_none, isStale_entryName_key, Item.isFolder, Except.map]

/-- A link goes with the stale entries, though it is no file. -/
theorem prune_takes_link :
    (ofSchema "1").prune (.calmAt 1000) [] (linkShelf sampleSubject) = (.ok 1, .folder []) ∧
      ¬ (linkShelf sampleSubject).items.TakenOut (fun x => isStale [] x.1 && x.2.isFile)
        ((ofSchema "1").prune (.calmAt 1000) [] (linkShelf sampleSubject)).2.items := by
  have hprune := prune_linkShelf sampleSubject "1" 1000
  refine ⟨hprune, fun htaken => ?_⟩
  have hothers := htaken.others
  rw [hprune] at hothers
  simp [linkShelf, Shelf.items, Item.isFile] at hothers

/-- `get` takes off a link, though it is no file, if it leads to an entry of another version. -/
theorem get_takes_link (t : Subject) (payload : Payload) :
    (ofSchema "1").get some
      (.leadingTo 1000 (.text ((ofSchema "2").entryFor 1000 t payload.value).encode)) t
      (linkShelf t) = (.ok none, .folder []) := by
  have hdecode : Entry.decode? ((ofSchema "2").entryFor 1000 t payload.value).encode =
      some ((ofSchema "2").entryFor 1000 t payload.value) :=
    Entry.decode?_encode_of_fits (UInt64.toNat_lt 1000) payload.fits
  have hget : Folder.get? [(entryName t.key, .link ⟨"index.js"⟩)] (entryName t.key) =
      some (.link ⟨"index.js"⟩) := (Folder.get?_cons _ _ _ _).trans (if_pos rfl)
  have hrefused : (ofSchema "1").accepts 1000 t.key ((ofSchema "2").entryFor 1000 t payload.value) =
      false := by
    simp [accepts, ofSchema, entryFor]
  -- how the entry is written does not matter any more
  generalize (ofSchema "2").entryFor 1000 t payload.value = e at hdecode hrefused
  generalize e.encode = text at hdecode
  have hreads : (Moment.leadingTo 1000 (.text text)).ReadsEntry t
      [(entryName t.key, .link ⟨"index.js"⟩)] e :=
    ⟨.text text, Moment.read_leadingTo _ _ hget, hdecode⟩
  have hdiscard : (Moment.leadingTo 1000 (.text text)).discard
      [(entryName t.key, .link ⟨"index.js"⟩)] (entryName t.key) = [] := by
    rw [(Moment.isCalm_leadingTo _ _).discard_eq (by rw [hget]; rfl)]
    simp [Folder.erase]
  have henabled : (ofSchema "1").enabled = true := rfl
  have hnow : (Moment.leadingTo 1000 (.text text)).now = 1000 := rfl
  simp only [get, linkShelf, find_of_readsEntry henabled hreads, hnow, hrefused, hdiscard,
    Bool.false_eq_true, if_false]

/-- A moment at which writes break off after so many octets. -/
def breakingOff (count : Nat) : Moment :=
  { Moment.calmAt 1000 with
    refuses := fun call => match call with
      | .write _ => true
      | _ => false
    torn := some count }

/-- A `set` whose write breaks off fails and leaves its draft behind. -/
theorem set_leaves_part (t : Subject) (payload : Json) (count : Nat) :
    (ofSchema "1").set (breakingOff count) t payload .new =
      (.error (.io (.refused (.write (draftName t.key 7 0)))),
        { shelf := .folder [(draftName t.key 7 0,
            Moment.part ((ofSchema "1").entryFor 1000 t payload).encode count)]
          process := 7, drafts := 1 }) := rfl

end Deadwood.Store
