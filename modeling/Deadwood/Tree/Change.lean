import Deadwood.Tree.Basic

/-!
# Changes of a tree

What has to be done to one tree to make another of it: files to write, folders to make and items to
remove.
-/

namespace Deadwood

/-- A step from one tree to another, at a place. -/
inductive Change where
  | write (place : List String) (content : Content)
  | makeFolder (place : List String)
  | remove (place : List String)
  deriving Repr, DecidableEq, Inhabited

namespace Change

/-- The removal of what is in the first folder but not in the second. -/
def removals (place : List String) (before after : Folder) : List Change :=
  (before.filter fun i => (after.get? i.1).isNone).map fun i => .remove (place ++ [i.1])

mutual

/-- The changes that make an item at a place out of what was there. Links are never made. -/
def toItem (place : List String) (before : Option Item) : Item → List Change
  | .file content =>
    match before with
    | some (.file old) => if content = old then [] else [.write place content]
    -- something of another kind is in the place
    | some _ => [.remove place, .write place content]
    | none => [.write place content]
  | .folder items =>
    match before with
    | some (.folder old) => removals place old items ++ toItems place old items
    | some _ => .remove place :: .makeFolder place :: toItems place [] items
    | none => .makeFolder place :: toItems place [] items
  | .link _ => []

/-- The changes that make the items of a folder out of those that were in it. -/
def toItems (place : List String) (before : Folder) : List (String × Item) → List Change
  | [] => []
  | (name, item) :: rest =>
    toItem (place ++ [name]) (before.get? name) item ++ toItems place before rest

end

/-- The changes that make the second tree out of the first. -/
def between (before after : Tree) : List Change :=
  toItem [] (some (.folder before.top)) (.folder after.top)

end Change
end Deadwood
