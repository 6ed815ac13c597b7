import Mathlib.Data.Set.Card
import Deadwood.Proofs.Store.Basic

/-!
# The store as a map

Seen from outside, the results on a shelf are a map from subjects to what is kept of them: the
version of the analysis, the time and the result. Stores of any versions and ages may work on one
shelf in turn. `Request.onKept` says what an operation answers and does to the map, without a word
about files and keys of entries. `Holds` relates the map to the shelf; every operation keeps this
relation, so a run on a shelf that starts empty answers as the map does, and never fails
(`answers_onShelf`).

This is about results that an entry can hold. One that is nested too deep is kept without a
complaint, but cannot be read back: `get_set_of_reread?_eq_none`. And one with a number that is
read back as another one is found again with that other number: `get_set_unreadDouble`.
-/

namespace Deadwood.Store

/-! ## The map and its operations -/

/-- A JSON value that an entry can hold. -/
structure Payload where
  value : Json
  fits : value.fits 1 = true

/-- What is kept of a subject. -/
structure Record where
  /-- The version of the analysis. -/
  schema : String
  /-- When it was made, in milliseconds. -/
  createdAt : UInt64
  payload : Payload

/-- The results that are kept, by their subjects. -/
abbrev Kept := Subject → Option Record

/-- Nothing is kept. -/
def Kept.empty : Kept := fun _ => none

/-- What can be asked of a store. -/
inductive Operation where
  | set (subject : Subject) (payload : Payload)
  | get (subject : Subject)
  | prune (live : List String)
  | clear

/-- The subject of an operation that has one. -/
def Operation.subject? : Operation → Option Subject
  | set subject _ | get subject => some subject
  | prune _ | clear => none

/-- What a store answers. -/
inductive Answer where
  | done
  | found (payload : Option Json)
  | count (n : Nat)
  deriving Inhabited

/-- An operation of the store of some version, by a process, at a moment. Clocks may go back. -/
structure Request where
  schema : String
  /-- The age in milliseconds up to which the store takes a result. -/
  maxAge : Nat
  moment : Moment
  calm : moment.IsCalm
  /-- The number of the process. -/
  process : Nat
  /-- How many drafts the process has made. -/
  drafts : Nat
  operation : Operation

namespace Request

/-- The store of a request. -/
def store (r : Request) : Store := { enabled := true, schema := r.schema, maxAge := r.maxAge }

/-- Does the store of a request take what is kept? A result from the future has no age. -/
def Takes (r : Request) (record : Record) : Prop :=
  record.schema = r.schema ∧ r.moment.now.toNat - record.createdAt.toNat ≤ r.maxAge

instance (r : Request) (record : Record) : Decidable (r.Takes record) :=
  inferInstanceAs (Decidable (_ ∧ _))

/-- What a request is answered and does, said of the map. -/
noncomputable def onKept (r : Request) (kept : Kept) : Answer × Kept :=
  match r.operation with
  | .set subject payload =>
    (.done, Function.update kept subject (some ⟨r.schema, r.moment.now, payload⟩))
  | .get subject =>
    match kept subject with
    | none => (.found none, kept)
    | some record =>
      if r.Takes record then (.found (some record.payload.value), kept)
      else (.found none, Function.update kept subject none)
  | .prune live =>
    (.count {t | kept t ≠ none ∧ t.key ∉ live}.ncard,
      fun t => if t.key ∈ live then kept t else none)
  | .clear => (.done, .empty)

/-- What a request is answered and does on a shelf. -/
def onShelf (r : Request) (shelf : Shelf) : Except Fault Answer × Shelf :=
  match r.operation with
  | .set subject payload =>
    let archive := { shelf, process := r.process, drafts := r.drafts }
    let (answer, archive) := r.store.set r.moment subject payload.value archive
    (answer.map fun _ => .done, archive.shelf)
  | .get subject =>
    let (answer, shelf) := r.store.get some r.moment subject shelf
    (answer.map .found, shelf)
  | .prune live =>
    let (answer, shelf) := r.store.prune r.moment live shelf
    (answer.map .count, shelf)
  | .clear =>
    let (answer, shelf) := r.store.clear r.moment shelf
    (answer.map fun _ => .done, shelf)

end Request

/-- The answers to requests that are made one after the other. -/
def answers {α σ : Type} (step : Request → σ → α × σ) : List Request → σ → List α
  | [], _ => []
  | r :: rest, state => (step r state).1 :: answers step rest (step r state).2

/-! ## The shelf of a map -/

/-- The entry for what is kept of a subject. -/
def Record.entry (record : Record) (t : Subject) : Entry :=
  { key := t.key, createdAt := record.createdAt.toNat, schema := record.schema
    payload := record.payload.value }

/-- The file that holds the entry. -/
def Record.file (record : Record) (t : Subject) : Item := .file (.text (record.entry t).encode)

/-- `Entry.decode?` gives the entry of a record back. -/
theorem Record.decode?_entry (record : Record) (t : Subject) :
    Entry.decode? (record.entry t).encode = some (record.entry t) :=
  Entry.decode?_encode_of_fits record.createdAt.toNat_lt record.payload.fits

/-- The shelf can be used, and nothing on it is named as an entry. Drafts that are left over may lie
    there. -/
structure Bare (shelf : Shelf) : Prop where
  isOpen : shelf ≠ .blocked
  names : (shelf.items.map (·.1)).Nodup
  noEntry : ∀ i ∈ shelf.items, entryKey? i.1 = none
  drafts : ∀ i ∈ shelf.items, isDraftName i.1 = true → i.2.isFile = true

/-- `Bare` holds of a shelf that is not there. -/
theorem bare_missing : Bare .missing := ⟨nofun, .nil, nofun, nofun⟩

/-- The entries on the shelf hold what is kept, and there are no others; what is kept is about the
    subjects in use. -/
structure Holds (used : Set Subject) (kept : Kept) (shelf : Shelf) : Prop where
  isOpen : shelf ≠ .blocked
  names : (shelf.items.map (·.1)).Nodup
  /-- What is named as an entry is the entry of a subject in use. -/
  entries : ∀ i ∈ shelf.items, (entryKey? i.1).isSome = true → ∃ t ∈ used, i.1 = entryName t.key
  /-- The entry of a subject in use holds what is kept of it. -/
  lookup : ∀ t ∈ used, shelf.items.get? (entryName t.key) = (kept t).map (·.file t)
  inUse : ∀ t, kept t ≠ none → t ∈ used
  /-- What is named as a draft is a file, which the store may write to. -/
  drafts : ∀ i ∈ shelf.items, isDraftName i.1 = true → i.2.isFile = true

/-- `Bare` shelves hold nothing. -/
theorem Bare.holds {shelf : Shelf} (h : Bare shelf) (used : Set Subject) :
    Holds used .empty shelf where
  isOpen := h.isOpen
  names := h.names
  entries i hi hname := by
    rw [h.noEntry i hi] at hname
    cases hname
  -- anything under the name of an entry would be named as one
  lookup t _ := by
    cases hget : shelf.items.get? (entryName t.key) with
    | none => rfl
    | some item =>
      have hname := h.noEntry _ (Folder.mem_of_get? hget)
      rw [entryKey?_entryName] at hname
      cases hname
  inUse _ ht := absurd rfl ht
  drafts := h.drafts

namespace Holds

variable {used : Set Subject} {kept : Kept} {shelf : Shelf}

/-- `Holds` shelves have only the files of what is kept under the names of entries. -/
theorem exists_file (h : Holds used kept shelf) {i : String × Item} (hi : i ∈ shelf.items)
    (hname : (entryKey? i.1).isSome = true) :
    ∃ t record, kept t = some record ∧ i = (entryName t.key, record.file t) := by
  obtain ⟨name, item⟩ := i
  obtain ⟨t, ht, rfl⟩ := h.entries _ hi hname
  have hget := Folder.get?_of_mem h.names hi
  rw [h.lookup t ht] at hget
  obtain ⟨record, hrecord, rfl⟩ := Option.map_eq_some_iff.1 hget
  exact ⟨t, record, hrecord, rfl⟩

/-- `Holds` is kept when items are taken off by the names of entries and their subjects dropped. -/
theorem filter (h : Holds used kept shelf) {shelf' : Shelf} (hopen : shelf' ≠ .blocked)
    (keep : String → Bool) (hitems : shelf'.items = shelf.items.filter fun i => keep i.1)
    {kept' : Kept} (hkept : ∀ t, kept' t = if keep (entryName t.key) then kept t else none) :
    Holds used kept' shelf' where
  isOpen := hopen
  names := by
    rw [hitems]
    exact h.names.sublist (List.filter_sublist.map _)
  entries i hi := by
    rw [hitems] at hi
    exact h.entries i (List.mem_filter.1 hi).1
  -- the name alone decides on both sides
  lookup t ht := by
    rw [hitems, Folder.get?_filter, h.lookup t ht, hkept]
    split <;> rfl
  inUse t ht := by
    refine h.inUse t fun hnone => ht ?_
    rw [hkept, hnone, ite_self]
  drafts i hi := by
    rw [hitems] at hi
    exact h.drafts i (List.mem_filter.1 hi).1

/-- `Holds` shelves have no folder under the name of an entry in use. -/
theorem any_isFolder_get? (h : Holds used kept shelf) {t : Subject} (ht : t ∈ used) :
    (shelf.items.get? (entryName t.key)).any Item.isFolder = false := by
  rw [h.lookup t ht]
  cases kept t <;> rfl

/-- `entryName` tells subjects in use apart, if they have keys of their own. -/
theorem entryName_key_inj (hkeys : used.InjOn Subject.key) {t t' : Subject} (ht : t ∈ used)
    (ht' : t' ∈ used) : entryName t.key = entryName t'.key ↔ t = t' :=
  ⟨fun heq => hkeys ht ht' (entryName_injective heq), fun heq => by rw [heq]⟩

/-! ## The operations -/

variable {s : Store}

/-- `set` keeps the result in the map, through whatever draft. -/
theorem set (hkeys : used.InjOn Subject.key) {a : Archive} (h : Holds used kept a.shelf)
    (henabled : s.enabled = true) {m : Moment} (hcalm : m.IsCalm) {t : Subject} (ht : t ∈ used)
    (payload : Payload) :
    ∃ shelf', s.set m t payload.value a =
        (.ok (), { a with shelf := shelf', drafts := a.drafts + 1 }) ∧
      Holds used (Function.update kept t (some ⟨s.schema, m.now, payload⟩)) shelf' := by
  -- a draft that is left over is a file, and no folder has the name of an entry in use
  have hready : a.IsReadyFor t :=
    { isOpen := h.isOpen
      draft := fun item hitem =>
        h.drafts _ (Folder.mem_of_get? hitem) (isDraftName_draftName t _ _)
      noFolder := h.any_isFolder_get? ht }
  have hother : ∀ t' : Subject, entryName t'.key ≠ a.draftName t.key := fun t' =>
    (draftName_ne_entryName t t' _ _).symm
  refine ⟨_, set_of_calm hcalm henabled payload.value hready, Shelf.folder_ne_blocked _,
    Folder.nodup_names_put (Folder.nodup_names_erase h.names _) _ _,
    fun i hi hname => ?_, fun t' ht' => ?_, fun t' ht' => ?_, fun i hi hname => ?_⟩
  · rcases Folder.mem_put hi with rfl | hi
    · exact ⟨t, ht, rfl⟩
    · exact h.entries i (List.mem_filter.1 hi).1 hname
  · rw [Shelf.items, Folder.get?_put, Folder.get?_erase, if_neg (hother t'), Archive.items,
      h.lookup t' ht', Function.update_apply]
    simp only [entryName_key_inj hkeys ht ht', eq_comm]
    split
    · rename_i heq
      rw [heq]
      rfl
    · rfl
  · by_cases heq : t' = t
    · rwa [heq]
    · rw [Function.update_of_ne heq] at ht'
      exact h.inUse t' ht'
  · rcases Folder.mem_put hi with rfl | hi
    · rfl
    · exact h.drafts i (List.mem_filter.1 hi).1 hname

/-- `find` gives nothing for a subject that is not kept. -/
theorem find_of_none (h : Holds used kept shelf) {m : Moment} (hcalm : m.IsCalm) {t : Subject}
    (ht : t ∈ used) (hnone : kept t = none) : s.find m t shelf = (.ok none, shelf) :=
  Store.find_of_none hcalm h.isOpen (by rw [h.lookup t ht, hnone]; rfl)

/-- `find` gives what is kept of a subject, or drops the entry of another version or age. -/
theorem find_of_some (h : Holds used kept shelf) {m : Moment} (hcalm : m.IsCalm)
    (henabled : s.enabled = true) {t : Subject} (ht : t ∈ used) {record : Record}
    (hrecord : kept t = some record) :
    s.find m t shelf =
      if record.schema = s.schema ∧ m.now.toNat - record.createdAt.toNat ≤ s.maxAge then
        (.ok (some record.payload.value), shelf)
      else (.ok none, .folder (shelf.items.erase (entryName t.key))) := by
  have hlookup : shelf.items.get? (entryName t.key) = some (record.file t) := by
    rw [h.lookup t ht, hrecord, Option.map_some]
  rw [find_of_entry hcalm henabled hlookup (record.decode?_entry t)]
  simp [accepts, Record.entry]

/-- `Folder.erase` for the entry of a subject drops the subject. -/
theorem erase (hkeys : used.InjOn Subject.key) (h : Holds used kept shelf) {t : Subject}
    (ht : t ∈ used) :
    Holds used (Function.update kept t none)
      (.folder (shelf.items.erase (entryName t.key))) := by
  refine h.filter (Shelf.folder_ne_blocked _) (fun n => n != entryName t.key) rfl fun t' => ?_
  rw [Function.update_apply]
  by_cases heq : t' = t
  · simp [heq]
  · rw [if_neg heq]
    split
    · rfl
    · -- a subject with the same key is not in use
      rename_i hname
      by_contra hne
      refine heq ((entryName_key_inj hkeys (h.inUse t' hne) ht).1 ?_)
      simpa using hname

/-- `isStale` holds of as many items as there are subjects whose keys are not live. -/
theorem countP_isStale (hkeys : used.InjOn Subject.key) (h : Holds used kept shelf)
    (live : List String) :
    shelf.items.countP (fun i => isStale live i.1) =
      {t | kept t ≠ none ∧ t.key ∉ live}.ncard := by
  have hinj : {t | kept t ≠ none ∧ t.key ∉ live}.InjOn fun t => entryName t.key :=
    fun t ht t' ht' heq =>
      (entryName_key_inj hkeys (h.inUse t ht.1) (h.inUse t' ht'.1)).1 heq
  -- the subjects are counted by the names of their entries, which are those of stale items
  have himage : (fun t : Subject => entryName t.key) '' {t | kept t ≠ none ∧ t.key ∉ live} =
      ((shelf.items.filter fun i => isStale live i.1).map (·.1)).toFinset := by
    ext name
    simp only [Set.mem_image, Set.mem_ofPred_eq, List.coe_toFinset, List.mem_map, List.mem_filter]
    constructor
    · rintro ⟨t, ⟨hkept, hlive⟩, rfl⟩
      obtain ⟨record, hrecord⟩ := Option.ne_none_iff_exists'.1 hkept
      have hget := h.lookup t (h.inUse t hkept)
      rw [hrecord, Option.map_some] at hget
      exact ⟨_, ⟨Folder.mem_of_get? hget, by simpa [isStale_entryName_key] using hlive⟩, rfl⟩
    · rintro ⟨i, ⟨hi, hstale⟩, rfl⟩
      obtain ⟨t, record, hrecord, rfl⟩ := h.exists_file hi (isSome_of_isStale hstale)
      rw [isStale_entryName_key] at hstale
      exact ⟨t, ⟨by simp [hrecord], by simpa using hstale⟩, rfl⟩
  rw [← hinj.ncard_image, himage, Set.ncard_coe_finset, List.toFinset_card_of_nodup,
    List.length_map, List.countP_eq_length_filter]
  exact h.names.sublist (List.filter_sublist.map _)

/-- `prune` drops the subjects whose keys are not live. -/
theorem prune (h : Holds used kept shelf) {m : Moment} (hcalm : m.IsCalm)
    (henabled : s.enabled = true) (live : List String) :
    ∃ shelf', s.prune m live shelf =
        (.ok (shelf.items.countP fun i => isStale live i.1), shelf') ∧
      Holds used (fun t => if t.key ∈ live then kept t else none) shelf' := by
  obtain ⟨shelf', hprune, hopen, hitems⟩ :=
    prune_of_calm hcalm henabled live h.isOpen fun i hi hstale => by
      obtain ⟨t, record, -, rfl⟩ := h.exists_file hi (isSome_of_isStale hstale)
      rfl
  refine ⟨shelf', hprune, h.filter hopen (fun n => !isStale live n) hitems fun t => ?_⟩
  simp only [isStale_entryName_key, Bool.not_not, List.contains_iff_mem]

/-- `clear` drops all subjects. -/
theorem clear (h : Holds used kept shelf) {m : Moment} (hcalm : m.IsCalm)
    (henabled : s.enabled = true) :
    ∃ shelf', s.clear m shelf = (.ok (), shelf') ∧ Holds used .empty shelf' := by
  -- whatever else is left, no entry is
  have hrest : ∀ i ∈ shelf.items.filter (fun i => !isOwn i.1 i.2), entryKey? i.1 = none := by
    intro i hi
    obtain ⟨hi, hown⟩ := List.mem_filter.1 hi
    cases hname : entryKey? i.1 with
    | none => rfl
    | some key =>
      obtain ⟨t, record, -, rfl⟩ := h.exists_file hi (by rw [hname]; rfl)
      simp [isOwn, isOwnName, Record.file, Item.isFile] at hown
  cases shelf with
  | missing =>
    refine ⟨.missing, ?_, bare_missing.holds used⟩
    rw [Store.clear, onItems, if_pos henabled]
  | blocked => exact absurd rfl h.isOpen
  | folder items =>
    refine ⟨_, clear_of_calm hcalm henabled items, Bare.holds ?_ used⟩
    split
    · exact bare_missing
    · exact ⟨Shelf.folder_ne_blocked _, h.names.sublist (List.filter_sublist.map _), hrest,
        fun i hi => h.drafts i (List.mem_filter.1 hi).1⟩

/-! ## Requests -/

/-- `get` answers as the map does. -/
theorem get (hkeys : used.InjOn Subject.key) (h : Holds used kept shelf) {t : Subject}
    (ht : t ∈ used) (r : Request) (hr : r.operation = .get t) :
    ∃ payload shelf', r.store.get some r.moment t shelf = (.ok payload, shelf') ∧
      (r.onKept kept).1 = .found payload ∧ Holds used (r.onKept kept).2 shelf' := by
  simp only [Request.onKept, hr]
  cases hrecord : kept t with
  | none => exact ⟨none, shelf, by rw [Store.get, h.find_of_none r.calm ht hrecord], rfl, h⟩
  | some record =>
    have hfind : r.store.find r.moment t shelf =
        if r.Takes record then (.ok (some record.payload.value), shelf)
        else (.ok none, .folder (shelf.items.erase (entryName t.key))) :=
      h.find_of_some r.calm rfl ht hrecord
    rw [Store.get, hfind]
    -- a result that is not taken is dropped by both, from the map and from the shelf
    by_cases htakes : r.Takes record
    · rw [if_pos htakes]
      exact ⟨some record.payload.value, shelf, rfl, by simp only [if_pos htakes],
        by simpa only [if_pos htakes] using h⟩
    · rw [if_neg htakes]
      exact ⟨none, _, rfl, by simp only [if_neg htakes],
        by simpa only [if_neg htakes] using h.erase hkeys ht⟩

/-- `Request.onShelf` answers as `Request.onKept` does, and the shelf goes on to hold the map. -/
theorem step (hkeys : used.InjOn Subject.key) (h : Holds used kept shelf) (r : Request)
    (hr : ∀ t, r.operation.subject? = some t → t ∈ used) :
    (r.onShelf shelf).1 = .ok (r.onKept kept).1 ∧
      Holds used (r.onKept kept).2 (r.onShelf shelf).2 := by
  -- one operation at a time, each by what it does to the relation
  cases hop : r.operation with
  | set t payload =>
    have harchive : Holds used kept
        (Archive.mk shelf r.process r.drafts).shelf := h
    obtain ⟨shelf', hset, hholds⟩ :=
      harchive.set hkeys (s := r.store) rfl r.calm (hr t (by rw [hop]; rfl)) payload
    simp only [Request.onShelf, Request.onKept, hop, hset]
    exact ⟨rfl, hholds⟩
  | get t =>
    obtain ⟨payload, shelf', hget, hanswer, hholds⟩ := h.get hkeys (hr t (by rw [hop]; rfl)) r hop
    simp only [Request.onShelf, hop, hget, hanswer]
    exact ⟨rfl, hholds⟩
  | prune live =>
    obtain ⟨shelf', hprune, hholds⟩ := h.prune (s := r.store) r.calm rfl live
    simp only [Request.onShelf, Request.onKept, hop, hprune, h.countP_isStale hkeys]
    exact ⟨rfl, hholds⟩
  | clear =>
    obtain ⟨shelf', hclear, hholds⟩ := h.clear (s := r.store) r.calm rfl
    simp only [Request.onShelf, Request.onKept, hop, hclear]
    exact ⟨rfl, hholds⟩

/-- `answers` on the shelf are those on the map, which it holds all the time. -/
theorem answers_eq (hkeys : used.InjOn Subject.key) (h : Holds used kept shelf)
    {requests : List Request}
    (hused : ∀ r ∈ requests, ∀ t, r.operation.subject? = some t → t ∈ used) :
    answers Request.onShelf requests shelf = (answers Request.onKept requests kept).map .ok := by
  induction requests generalizing kept shelf with
  | nil => rfl
  | cons r rest ih =>
    -- the first answer is the same, and the rest starts from a shelf that holds the next map
    obtain ⟨hanswer, hholds⟩ := h.step hkeys r (hused r List.mem_cons_self)
    have hrest := ih hholds fun r hr => hused r (List.mem_cons_of_mem _ hr)
    rw [answers, answers, List.map_cons, hanswer, hrest]

end Holds

/-- Stores of any versions and ages that work in turn on a shelf that is not there at first answer
    as the map of what is kept does, and none of their operations fails, as long as the subjects in
    use have keys of their own. -/
theorem answers_onShelf (requests : List Request)
    (hkeys : {t | ∃ r ∈ requests, r.operation.subject? = some t}.InjOn Subject.key) :
    answers Request.onShelf requests .missing =
      (answers Request.onKept requests .empty).map .ok :=
  (bare_missing.holds _).answers_eq hkeys fun r hr _ ht => ⟨r, hr, ht⟩

/-- A subject. -/
def sampleSubject : Subject := { operation := "scan", path := ⟨"/p/a.js"⟩, contentHash := "h" }

/-- An object with a list in it. -/
def samplePayload : Payload := { value := .obj [("a", .arr [.int 1, .null])], fits := by decide }

/-- A request at a time, of a process whose draft has a number. -/
def Request.atTime (schema : String) (now : UInt64) (operation : Operation) : Request where
  schema
  maxAge := 10
  moment := .calmAt now
  calm := Moment.isCalm_calmAt now
  process := 7
  drafts := 0
  operation

/-- A result is found up to its age, also when the clock has gone back. A store of another version
    drops it. What is kept again is taken away at last. -/
def sampleRequests : List Request :=
  [.atTime "1" 1000 (.set sampleSubject samplePayload), .atTime "1" 1010 (.get sampleSubject),
    .atTime "1" 900 (.get sampleSubject), .atTime "2" 1000 (.get sampleSubject),
    .atTime "1" 1000 (.get sampleSubject), .atTime "2" 1000 (.set sampleSubject samplePayload),
    .atTime "1" 1000 (.prune [])]

/-- The answers to `sampleRequests`, as the map gives them. -/
theorem answers_onShelf_sampleRequests :
    answers Request.onShelf sampleRequests .missing =
      [.ok .done, .ok (.found (some samplePayload.value)), .ok (.found (some samplePayload.value)),
        .ok (.found none), .ok (.found none), .ok .done, .ok (.count 1)] := by
  have hkeys : {t | ∃ r ∈ sampleRequests, r.operation.subject? = some t}.InjOn Subject.key := by
    refine Set.Subsingleton.injOn (fun t ht t' ht' => ?_) _
    have honly : ∀ t, (∃ r ∈ sampleRequests, r.operation.subject? = some t) →
        t = sampleSubject := by
      simp [sampleRequests, Request.atTime, Operation.subject?, eq_comm]
    rw [honly t ht, honly t' ht']
  -- the one subject that is kept at last
  have hlast : {t | ¬ Function.update Kept.empty sampleSubject
      (some ⟨"2", 1000, samplePayload⟩) t = none} = {sampleSubject} := by
    ext t
    by_cases ht : t = sampleSubject <;> simp [ht, Kept.empty]
  rw [answers_onShelf sampleRequests hkeys]
  simpa [sampleRequests, Request.atTime, Moment.calmAt, answers, Request.onKept, Request.Takes]
    using ⟨sampleSubject, hlast⟩

/-! ## Results that are not read back as they are -/

/-- Arrays inside each other. -/
def nested : Nat → Json
  | 0 => .null
  | n + 1 => .arr [nested n]

section

variable {m m' : Moment} (hcalm : m.IsCalm) (hcalm' : m'.IsCalm) {a : Archive} {t : Subject}
  (hready : a.IsReadyFor t)

include hcalm hcalm' hready

/-- A result that cannot be read back, as it is nested too deep, is kept by `set`. It is taken for
    corrupt by stores of all versions then, and stays. -/
theorem get_set_of_reread?_eq_none (s s' : Store) (henabled : s.enabled = true)
    (henabled' : s'.enabled = true) {payload : Json} (hpayload : payload.reread? 1 = none) :
    (s.set m t payload a).1 = .ok () ∧
      s'.get some m' t (s.set m t payload a).2.shelf =
        (.error (.corrupt (.entry (.text (s.entryFor m.now t payload).encode))),
          (s.set m t payload a).2.shelf) := by
  -- no entry at all is read if its result is not
  have hcorrupt : Entry.decode? (s.entryFor m.now t payload).encode = none := by
    rw [Entry.decode?_encode, entryFor, hpayload]
    cases (Json.ofNat m.now.toNat).reread? 1 <;> rfl
  rw [set_of_calm hcalm henabled payload hready]
  refine ⟨rfl, ?_⟩
  have hread := Moment.read_of_file (hcalm' (.read (entryName t.key)))
    ((Folder.get?_put (a.items.erase (a.draftName t.key)) (entryName t.key)
      (.file (.text (s.entryFor m.now t payload).encode)) (entryName t.key)).trans (if_pos rfl))
  simp only [Store.get, find, henabled', if_true, hread, Content.text?, Option.bind_some, hcorrupt]

/-- A result is found again as the reader of the format reads it. -/
theorem get_set_of_reread?_eq_some (s : Store) (henabled : s.enabled = true) {payload read : Json}
    (hpayload : payload.reread? 1 = some read) (hage : m'.now.toNat - m.now.toNat ≤ s.maxAge) :
    (s.get some m' t (s.set m t payload a).2.shelf).1 = .ok (some read.lastMembers) := by
  -- all but the result is read back as it was written
  have hdecode : Entry.decode? (s.entryFor m.now t payload).encode =
      some (s.entryFor m.now t read.lastMembers) := by
    rw [Entry.decode?_encode, entryFor, Json.reread?_of_fits 1 _ (Json.fits_ofNat m.now.toNat_lt 1),
      hpayload]
    rfl
  have haccepts : s.accepts m'.now t.key (s.entryFor m.now t read.lastMembers) = true := by
    simp [accepts, entryFor, hage]
  rw [set_of_calm hcalm henabled payload hready, Store.get,
    find_of_entry hcalm' henabled ?_ hdecode, haccepts]
  · rfl
  · rw [Shelf.items, Folder.get?_put, if_pos rfl]

end

/-- What `set` does with a result that is nested one level more than an entry can hold. -/
def keptNested : Except Fault Unit × Archive :=
  (ofSchema "1").set (.calmAt 1000) sampleSubject (nested 127) .new

/-- The result is kept, but neither found again nor dropped, not even by a store of another
    version. -/
theorem get_set_nested :
    keptNested.1 = .ok () ∧ ∃ defect,
      ((ofSchema "1").get some (.calmAt 1000) sampleSubject keptNested.2.shelf).1 =
        .error (.corrupt defect) ∧
      (ofSchema "2").get some (.calmAt 1000) sampleSubject keptNested.2.shelf =
        (.error (.corrupt defect), keptNested.2.shelf) := by
  have hdeep : (nested 127).reread? 1 = none := by decide +kernel
  have hcalm := Moment.isCalm_calmAt 1000
  have hready := Archive.isReadyFor_new sampleSubject
  -- once for the store that has kept it, and once for one of another version
  obtain ⟨hset, hsame⟩ := get_set_of_reread?_eq_none hcalm hcalm hready (ofSchema "1")
    (ofSchema "1") rfl rfl hdeep
  obtain ⟨-, hother⟩ := get_set_of_reread?_eq_none hcalm hcalm hready (ofSchema "1")
    (ofSchema "2") rfl rfl hdeep
  unfold keptNested
  rw [hsame, hother]
  exact ⟨hset, _, rfl, rfl⟩

example : (nested 126).fits 1 = true ∧ (nested 127).fits 1 = false := by decide +kernel

/-- `Json.unreadDouble` is kept without a complaint, and another number is found. -/
theorem get_set_unreadDouble :
    ∃ other, other ≠ Json.unreadDouble ∧
      ((ofSchema "1").get some (.calmAt 1000) sampleSubject ((ofSchema "1").set (.calmAt 1000)
        sampleSubject (.double Json.unreadDouble) .new).2.shelf).1 =
          .ok (some (.double other)) := by
  obtain ⟨-, hread⟩ := Json.double?_unreadDouble
  -- the digits are read as the next number
  have hreread : (Json.double Json.unreadDouble).reread? 1 =
      some (.double ⟨false, 8514241504521789, 1021, by decide⟩) := by
    rw [Json.reread?]
    exact Json.number?_of_double? hread
  have hcalm := Moment.isCalm_calmAt 1000
  refine ⟨_, ?_, get_set_of_reread?_eq_some hcalm hcalm (Archive.isReadyFor_new sampleSubject)
    (ofSchema "1") rfl hreread ?_⟩
  · decide +kernel
  · rw [Nat.sub_self]
    exact Nat.zero_le _

end Deadwood.Store
