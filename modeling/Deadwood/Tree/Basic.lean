import Deadwood.Path.Basic
import Deadwood.Text.Octets

/-!
# Trees of files

What stands on a disk: files, folders and links to other places. A place in a tree is the list of
names that lead to it from the top. `Tree.locate` finds the place that a path leads to, over any
links on the way.
-/

namespace Deadwood

/-- What a file holds. -/
inductive Content where
  | text (content : String)
  /-- Octets that are no text. -/
  | binary (octets : List UInt8)
  deriving Repr, DecidableEq, Inhabited

namespace Content

/-- The content that the octets are. -/
def ofOctets (bytes : List UInt8) : Content :=
  match Text.ofOctets? bytes with
  | some s => .text s
  | none => .binary bytes

/-- The text, if the content is one. -/
def text? : Content → Option String
  | .text s => some s
  | .binary _ => none

end Content

/-- What can stand in a folder. -/
inductive Item where
  | file (content : Content)
  | folder (items : List (String × Item))
  /-- A link to the place that the path leads to. -/
  | link (target : Path)
  deriving Repr, Inhabited

namespace Item

/-- Is it a file itself, and no link to one? -/
def isFile : Item → Bool
  | .file _ => true
  | _ => false

/-- Is it a folder itself? -/
def isFolder : Item → Bool
  | .folder _ => true
  | _ => false

/-- Is it a link? -/
def isLink : Item → Bool
  | .link _ => true
  | _ => false

end Item

/-- The items of a folder by their names, which are distinct. -/
abbrev Folder := List (String × Item)

namespace Folder

/-- The item of a name. -/
def get? (items : Folder) (name : String) : Option Item := items.lookup name

/-- The folder with an item under a name, instead of one that is there already. -/
def put : Folder → String → Item → Folder
  | [], name, item => [(name, item)]
  | (n, i) :: rest, name, item =>
    if n = name then (n, item) :: rest else (n, i) :: put rest name item

/-- The folder without the item of a name. -/
def erase (items : Folder) (name : String) : Folder := items.filter fun i => i.1 != name

/-- The item that the names lead to, itself and not what it links to. -/
def find? : List String → Folder → Option Item
  | [], items => some (.folder items)
  | name :: rest, items =>
    match items.get? name with
    | some (.folder sub) => find? rest sub
    | some item => if rest.isEmpty then some item else none
    | none => none

/-- The folder with an item at the end of the names. Folders that are missing on the way are
    made; where something else is in the way, nothing changes. -/
def putAt : List String → Item → Folder → Folder
  | [], _, items => items
  | [name], item, items => items.put name item
  | name :: rest, item, items =>
    match items.get? name with
    | some (.folder sub) => items.put name (.folder (putAt rest item sub))
    | some _ => items
    | none => items.put name (.folder (putAt rest item []))

/-- The folder without the item at the end of the names. -/
def eraseAt : List String → Folder → Folder
  | [], items => items
  | [name], items => items.erase name
  | name :: rest, items =>
    match items.get? name with
    | some (.folder sub) => items.put name (.folder (eraseAt rest sub))
    | _ => items

end Folder

/-- Why a path leads nowhere. -/
inductive Obstacle where
  /-- A name is not there. -/
  | missing
  /-- A name is there but no folder, and the path goes on. -/
  | notFolder
  /-- Too many links follow each other. -/
  | tooManyLinks
  deriving Repr, DecidableEq, Inhabited

/-- All files and folders, from the top. -/
structure Tree where
  top : Folder
  deriving Repr, Inhabited

namespace Tree

/-- A tree without any item. -/
def empty : Tree := ⟨[]⟩

/-- The number of links that are followed on one path. -/
def maxLinks : Nat := 40

/-- The place that the steps lead to from a folder, over at most the given number of links. -/
def locate (t : Tree) (links : Nat) (here : List String) (steps : List Component) :
    Except Obstacle (List String) :=
  match steps with
  | [] => .ok here
  | .root :: rest => locate t links [] rest
  | .current :: rest => locate t links here rest
  | .parent :: rest => locate t links here.dropLast rest
  | .name n :: rest =>
    match t.top.find? (here ++ [n]) with
    | none => .error .missing
    | some (.folder _) => locate t links (here ++ [n]) rest
    | some (.file _) => if rest.isEmpty then .ok (here ++ [n]) else .error .notFolder
    -- the steps of the target come first, from the folder that the link is in
    | some (.link target) =>
      match links with
      | 0 => .error .tooManyLinks
      | k + 1 => locate t k here (target.components ++ rest)
termination_by (links, steps.length)

/-- The place that an absolute path leads to. -/
def placeOf (t : Tree) (p : Path) : Except Obstacle (List String) :=
  t.locate maxLinks [] p.components

/-- What an absolute path leads to. -/
def look (t : Tree) (p : Path) : Except Obstacle Item := do
  match t.top.find? (← t.placeOf p) with
  | some item => .ok item
  | none => .error .missing

/-- Does the path lead to a file? -/
def isFile (t : Tree) (p : Path) : Bool :=
  match t.look p with
  | .ok item => item.isFile
  | .error _ => false

/-- Does the path lead to a folder? -/
def isFolder (t : Tree) (p : Path) : Bool :=
  match t.look p with
  | .ok item => item.isFolder
  | .error _ => false

/-- Does the path end at a link, whatever it leads to? -/
def isLink (t : Tree) (p : Path) : Bool :=
  match t.locate maxLinks [] p.components.dropLast, p.components.getLast? with
  | .ok folder, some (.name n) => (t.top.find? (folder ++ [n])).any Item.isLink
  | _, _ => false

/-- The content of the file that the path leads to. -/
def content? (t : Tree) (p : Path) : Option Content :=
  match t.look p with
  | .ok (.file c) => some c
  | _ => none

/-- The text of the file that the path leads to. -/
def text? (t : Tree) (p : Path) : Option String := (t.content? p).bind Content.text?

/-- The place that the path leads to, or the one where its last name would stand. -/
def newPlace (t : Tree) (p : Path) : Except Obstacle (List String) :=
  match t.placeOf p, p.components.getLast? with
  | .error .missing, some (.name n) => do
    let folder ← t.locate maxLinks [] p.components.dropLast
    match t.top.find? folder with
    | some (.folder _) => .ok (folder ++ [n])
    | _ => .error .notFolder
  | found, _ => found

/-- The tree with the content in a file. Fails where the path leads into a missing folder, or to
    a folder. -/
def write? (t : Tree) (p : Path) (c : Content) : Option Tree :=
  match t.newPlace p with
  | .ok place =>
    match t.top.find? place with
    | some (.folder _) => none
    | _ => some ⟨t.top.putAt place (.file c)⟩
  | .error _ => none

/-- The names that a path spells when every step is carried out as written. -/
def spelledPlace (p : Path) : List String :=
  p.components.foldl (fun here c => match c with
    | .root => []
    | .current => here
    | .parent => here.dropLast
    | .name n => here ++ [n]) []

/-- The place of a folder that is made together with all folders on the way to it, from a folder
    on. Links are followed as far as they lead to folders; there is no such place behind a file or
    behind a link that leads nowhere. -/
def newFolderPlaceFrom? (t : Tree) (here : List String) : List Component → Option (List String)
  | [] => some here
  | .root :: rest => newFolderPlaceFrom? t [] rest
  | .current :: rest => newFolderPlaceFrom? t here rest
  | .parent :: rest => newFolderPlaceFrom? t here.dropLast rest
  | .name n :: rest =>
    match t.locate maxLinks here [.name n] with
    | .ok place =>
      if (t.top.find? place).any Item.isFolder then newFolderPlaceFrom? t place rest else none
    -- what is missing is made, but not behind a broken link
    | .error _ =>
      if (t.top.find? (here ++ [n])).isNone then newFolderPlaceFrom? t (here ++ [n]) rest else none

/-- The place of the folder at a path, which may have to be made. -/
def newFolderPlace? (t : Tree) (p : Path) : Option (List String) :=
  t.newFolderPlaceFrom? [] p.components

/-- The tree with a folder at the path, and with all folders on the way to it. -/
def makeFolder (t : Tree) (p : Path) : Tree :=
  match t.newFolderPlace? p with
  | some place =>
    match t.top.find? place with
    | some _ => t
    | none => ⟨t.top.putAt place (.folder [])⟩
  | none => t

end Tree
end Deadwood
