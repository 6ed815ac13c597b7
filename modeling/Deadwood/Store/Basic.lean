import Deadwood.Store.Entry
import Deadwood.Store.Key
import Deadwood.Store.Moment

/-!
# The store of results

A map from subjects to results that lives on a shelf. A result is found again under the same
version of the analysis and up to a certain age; one that does not count any more is removed when
it is asked for. Results are written to drafts first, which are told apart by the number of the
process and by how many drafts the process has made before: an `Archive` is a shelf with these two
numbers. All operations touch only what is named as an entry or as a draft.
-/

namespace Deadwood

/-- How results are kept and told apart. -/
structure Store where
  /-- A store that is not enabled finds nothing and keeps nothing. -/
  enabled : Bool
  /-- The version of the analysis. -/
  schema : String
  /-- The age in milliseconds up to which a result counts. -/
  maxAge : Nat
  deriving Repr, DecidableEq, Inhabited

namespace Store

/-- A shelf as a process works on it. -/
structure Archive where
  shelf : Shelf
  /-- The number of the process. -/
  process : Nat
  /-- How many drafts the process has made. -/
  drafts : Nat
  deriving Repr, Inhabited

/-- The items on the shelf of an archive. -/
def Archive.items (a : Archive) : Folder := a.shelf.items

/-- The name of the next draft for a key. -/
def Archive.draftName (a : Archive) (key : String) : String :=
  Store.draftName key a.process a.drafts

/-- The age of a result for which a store is not told otherwise: an hour. -/
def defaultMaxAge : Nat := 3600000

/-- The store that finds and keeps nothing. -/
def disabled : Store := { enabled := false, schema := "", maxAge := defaultMaxAge }

/-- The store for a version of the analysis. -/
def ofSchema (schema : String) : Store := { enabled := true, schema, maxAge := defaultMaxAge }

/-- Does an entry count as the result of the key at this time? -/
def accepts (s : Store) (now : UInt64) (key : String) (e : Entry) : Bool :=
  e.schema == s.schema && e.key == key && now.toNat - e.createdAt ≤ s.maxAge

/-- Looks for the result of a subject. An entry that does not count is taken off the shelf. -/
def find (s : Store) (m : Moment) (subject : Subject) (shelf : Shelf) :
    Except Fault (Option Json) × Shelf :=
  if s.enabled then
    match shelf with
    | .missing => (.ok none, shelf)
    | .blocked => (.error (.io .blocked), shelf)
    | .folder items =>
      let name := entryName subject.key
      match m.read items name with
      | .error cause => (.error (.io cause), shelf)
      | .ok none => (.ok none, shelf)
      | .ok (some content) =>
        match content.text?.bind Entry.decode? with
        -- an entry that cannot be read stays where it is
        | none => (.error (.corrupt (.entry content)), shelf)
        | some e =>
          if s.accepts m.now subject.key e then (.ok (some e.payload), shelf)
          -- if it cannot be removed, this is not told
          else (.ok none, .folder (m.discard items name))
  else (.ok none, shelf)

/-- Looks for the result of a subject, and reads it. -/
def get {α : Type} (s : Store) (read : Json → Option α) (m : Moment) (subject : Subject)
    (shelf : Shelf) : Except Fault (Option α) × Shelf :=
  match s.find m subject shelf with
  | (.ok (some payload), shelf) =>
    match read payload with
    | some a => (.ok (some a), shelf)
    | none => (.error (.corrupt (.payload payload)), shelf)
  | (.ok none, shelf) => (.ok none, shelf)
  | (.error f, shelf) => (.error f, shelf)

/-- The entry that keeps a result. -/
def entryFor (s : Store) (now : UInt64) (subject : Subject) (payload : Json) : Entry :=
  { key := subject.key, createdAt := now.toNat, schema := s.schema, payload }

/-- Keeps the result of a subject, in place of an earlier one. The entry is written to a draft of
    its own first. -/
def set (s : Store) (m : Moment) (subject : Subject) (payload : Json) (a : Archive) :
    Except Fault Unit × Archive :=
  if s.enabled then
    match m.makeShelf a.shelf with
    | .error cause => (.error (.io cause), a)
    | .ok items =>
      let text := (s.entryFor m.now subject payload).encode
      -- a draft counts, also if it fails
      let (answer, items) :=
        m.replace items (entryName subject.key) (a.draftName subject.key) text
      (answer.mapError .io, { a with shelf := .folder items, drafts := a.drafts + 1 })
  else (.ok (), a)

/-- Takes the selected items out of a folder, one after the other, and counts them. An item with
    which something is wrong ends the work. -/
def sweep (selected : String × Item → Bool) (wrong? : String × Item → Option Cause) :
    Folder → Except Fault Nat × Folder
  | [] => (.ok 0, [])
  | x :: rest =>
    match wrong? x with
    | some cause => (.error (.io cause), x :: rest)
    | none =>
      let (count, kept) := sweep selected wrong? rest
      if selected x then (count.map (· + 1), kept) else (count, x :: kept)

/-- What an enabled store does with the items on a shelf. -/
def onItems {α : Type} (s : Store) (m : Moment) (idle : α) (shelf : Shelf)
    (work : Folder → Except Fault α × Shelf) : Except Fault α × Shelf :=
  if s.enabled then
    match shelf with
    | .missing => (.ok idle, shelf)
    | .blocked => (.error (.io .blocked), shelf)
    | .folder items =>
      if m.refuses .list then (.error (.io (.refused .list)), shelf) else work items
  else (.ok idle, shelf)

/-- Is it the name of an entry whose key is not live? -/
def isStale (live : List String) (name : String) : Bool :=
  (entryKey? name).any fun key => !live.contains key

/-- Why taking off stale entries ends at an item. -/
def pruneFails? (m : Moment) (live : List String) (x : String × Item) : Option Cause :=
  (m.refused? (.next x.1)).or (if isStale live x.1 then m.removeFails? x.1 x.2 else none)

/-- Takes the entries of keys that are not live off the shelf, and counts them. -/
def prune (s : Store) (m : Moment) (live : List String) (shelf : Shelf) :
    Except Fault Nat × Shelf :=
  s.onItems m 0 shelf fun items =>
    let (count, kept) := sweep (fun x => isStale live x.1) (pruneFails? m live) items
    (count, .folder kept)

/-- Is it the name of a file that the store makes, finished or not? -/
def isOwnName (name : String) : Bool := (entryKey? name).isSome || isDraftName name

/-- Is it a file that the store has made, finished or not? -/
def isOwn (name : String) (item : Item) : Bool := isOwnName name && item.isFile

/-- Why taking off all that the store has made ends at an item. -/
def clearFails? (m : Moment) (x : String × Item) : Option Cause :=
  (m.refused? (.next x.1)).or
    (if isOwnName x.1 then
      (m.refused? (.inspect x.1)).or (if x.2.isFile then m.removeFails? x.1 x.2 else none)
    else none)

/-- Takes all that the store has made off the shelf, and the shelf away if it is empty then. -/
def clear (s : Store) (m : Moment) (shelf : Shelf) : Except Fault Unit × Shelf :=
  s.onItems m () shelf fun items =>
    match sweep (fun x => isOwn x.1 x.2) (clearFails? m) items with
    | (.error fault, kept) => (.error fault, .folder kept)
    | (.ok _, kept) =>
      (.ok (), if kept.isEmpty && !m.refuses .removeShelf then .missing else .folder kept)

end Store
end Deadwood
