import Deadwood.Json.Basic
import Deadwood.Store.Shelf

/-!
# What the system does for the store

Every operation of the store is made of calls to the system: to read a file on the shelf, to write,
rename or remove one, to go through the shelf. A `Moment` is all that such a call depends on besides
the shelf: what the clock says, which calls the system refuses, what a write leaves behind that
breaks off, and what the links on the shelf lead to. So an operation is a function of the moment and
of the shelf.
-/

namespace Deadwood

namespace Store

/-- What the store asks of the system. Items on the shelf are told by their names. -/
inductive Call where
  /-- Make the folder of the shelf. -/
  | makeShelf
  /-- Begin to go through the shelf. -/
  | list
  /-- Come to this item when going through the shelf. -/
  | next (name : String)
  /-- Look whether it is a file. -/
  | inspect (name : String)
  | read (name : String)
  | write (name : String)
  | rename (old new : String)
  | remove (name : String)
  /-- Remove the folder of the shelf, which is empty. -/
  | removeShelf
  deriving Repr, DecidableEq, Inhabited

/-- Why the system does not do what it is asked for. -/
inductive Cause where
  /-- Something else stands in the place of the shelf. -/
  | blocked
  /-- A name leads nowhere. -/
  | obstacle (cause : Obstacle)
  /-- There is a folder under this name. -/
  | isFolder (name : String)
  | refused (call : Call)
  deriving Repr, DecidableEq, Inhabited

/-- What is wrong with something that is stored. -/
inductive Defect where
  /-- The file holds no entry. -/
  | entry (content : Content)
  /-- The result is none of the kind that is asked for. -/
  | payload (value : Json)
  deriving Repr, Inhabited

/-- What can go wrong with a shelf. -/
inductive Fault where
  /-- The shelf or an item on it cannot be read or written. -/
  | io (cause : Cause)
  /-- What is stored cannot be used. -/
  | corrupt (defect : Defect)
  deriving Repr, Inhabited

/-- What the system does while an operation is carried out. -/
structure Moment where
  /-- What the clock says, in milliseconds. -/
  now : UInt64
  refuses : Call → Bool
  /-- How many octets are in a file when a write to it is refused; none if the file is not even
      opened. -/
  torn : Option Nat
  /-- What the link of this name leads to, while these items are on the shelf. -/
  behind : Folder → String → Except Obstacle Item
  /-- How the reason of a fault is put into words. -/
  wording : Fault → String

/-- What is said about a fault at a moment. -/
def Fault.message (m : Moment) : Fault → String
  | io cause => "Cache I/O failed: " ++ m.wording (io cause)
  | corrupt defect => "Corrupt cache entry: " ++ m.wording (corrupt defect)

namespace Moment

/-- Nothing is refused. -/
def IsCalm (m : Moment) : Prop := ∀ call, m.refuses call = false

/-- Why the system does not do a call, if it refuses it. -/
def refused? (m : Moment) (call : Call) : Option Cause :=
  if m.refuses call then some (.refused call) else none

/-- The moment as it is for a shelf at a path of a tree. A shelf cannot be made there if a link is
    in the way that leads nowhere, and not be removed there if the path itself is a link. -/
def inTree (m : Moment) (t : Tree) (p : Path) : Moment :=
  { m with
    refuses := fun call => m.refuses call ||
      match call with
      | .makeShelf => (t.newFolderPlace? p).isNone
      | .removeShelf => t.isLink p
      | _ => false
    behind := fun items name => (t.putShelf p (.folder items)).look (p.join ⟨name⟩) }

variable (m : Moment) (items : Folder) (name : String)

/-- The content of the file of a name, which may be behind a link. There is none if the name is not
    there, or if its link leads to a name that is not there. -/
def read : Except Cause (Option Content) :=
  if m.refuses (.read name) then .error (.refused (.read name))
  else
    match items.get? name with
    | none => .ok none
    | some (.file content) => .ok (some content)
    | some (.folder _) => .error (.isFolder name)
    | some (.link _) =>
      match m.behind items name with
      | .ok (.file content) => .ok (some content)
      | .ok _ => .error (.isFolder name)
      -- a link that leads nowhere is like no item
      | .error .missing => .ok none
      | .error cause => .error (.obstacle cause)

/-- Why an item is not removed: the call is refused, or it is a folder. -/
def removeFails? (item : Item) : Option Cause :=
  (m.refused? (.remove name)).or (if item.isFolder then some (.isFolder name) else none)

/-- The folder without the item of a name, if that can be removed. -/
def discard : Folder :=
  match (items.get? name).bind (m.removeFails? name) with
  | some _ => items
  | none => items.erase name

/-- Writes a text to the file of a name, which is made if it is not there. A link stays what it is:
    the text goes to the file behind it. -/
def write (text : String) : Except Cause Unit × Folder :=
  match items.get? name with
  | some (.folder _) => (.error (.isFolder name), items)
  -- what is written goes to a file elsewhere
  | some (.link _) =>
    if m.refuses (.write name) then (.error (.refused (.write name)), items) else (.ok (), items)
  | _ =>
    if m.refuses (.write name) then
      -- a write that breaks off may have made the file
      let part (octets : Nat) := Content.ofOctets ((Text.octets text).take octets)
      (.error (.refused (.write name)),
        m.torn.elim items fun octets => items.put name (.file (part octets)))
    else (.ok (), items.put name (.file (.text text)))

/-- The folder with an item under another name, in place of what was there. A folder that is there
    is in the way. -/
def rename (new : String) : Except Cause Folder :=
  if m.refuses (.rename name new) then .error (.refused (.rename name new))
  else if (items.get? new).any Item.isFolder then .error (.isFolder new)
  else
    match items.get? name with
    | none => .error (.obstacle .missing)
    | some item => .ok ((items.erase name).put new item)

/-- Writes a text to a draft and gives the draft its name. A draft that cannot get its name is
    removed, as far as that works. -/
def replace (draft text : String) : Except Cause Unit × Folder :=
  match m.write items draft text with
  | (.error cause, items) => (.error cause, items)
  | (.ok (), items) =>
    match m.rename items draft name with
    | .ok items => (.ok (), items)
    | .error cause => (.error cause, m.discard items draft)

/-- The items of a shelf that is made if it is not there. -/
def makeShelf (m : Moment) : Shelf → Except Cause Folder
  | .missing => if m.refuses .makeShelf then .error (.refused .makeShelf) else .ok []
  | .blocked => .error .blocked
  | .folder items => .ok items

end Moment
end Store
end Deadwood
