import Deadwood.Tree.Basic

/-!
# The folder for results

Results are kept in one folder, the shelf. It need not be there yet, and something else may stand
in its place. `Tree.shelf` looks at a shelf, and `Tree.putShelf` puts it back.
-/

namespace Deadwood

/-- The state of the folder for results. -/
inductive Shelf where
  /-- There is no such folder. -/
  | missing
  /-- There is something else in its place, or on the way to it. -/
  | blocked
  | folder (items : Folder)
  deriving Repr, Inhabited

namespace Shelf

/-- What is on the shelf. -/
def items : Shelf → Folder
  | .folder items => items
  | _ => []

end Shelf

namespace Tree

/-- The shelf at a path. -/
def shelf (t : Tree) (p : Path) : Shelf :=
  match t.look p with
  | .ok (.folder items) => .folder items
  | .ok _ => .blocked
  | .error .missing => .missing
  | .error _ => .blocked

/-- The tree with the shelf at the path. -/
def putShelf (t : Tree) (p : Path) (shelf : Shelf) : Tree :=
  match shelf, t.newFolderPlace? p with
  | .folder items, some place => ⟨t.top.putAt place (.folder items)⟩
  | .missing, some place => ⟨t.top.eraseAt place⟩
  | _, _ => t

end Tree
end Deadwood
