import Deadwood.Graph.Reach

/-!
# Dead cycles

Groups of two or more files that import one another in a circle, that no entry point leads to and
that no file outside the group imports. Each file of such a group counts as imported, so none of
them looks dead by itself.
-/

namespace Deadwood.Graph

/-- The nodes from which the given ones can be reached over imports. -/
def reaching (g : Graph) (start : List Nat) : List Nat :=
  walk g.sources g.files.length (.start g.files.length start)

/-- The nodes that a node leads to and that lead back to it, itself included. -/
def componentOf (g : Graph) (i : Nat) : List Nat :=
  let forward := g.reachedFrom [i]
  let backward := g.reaching [i]
  (List.range g.files.length).filter fun j => forward.contains j && backward.contains j

/-- Is every importer of a member a member? -/
def isClosed (g : Graph) (members : List Nat) : Bool :=
  members.all fun i => (g.sources i).all fun j => members.contains j

/-- The order of cycles: larger ones first, then by their files. -/
def compareCycles (a b : List Path) : Ordering :=
  (Ord.compare b.length a.length).then (List.compareLex Path.compare a b)

/-- The dead cycles. A group is found at its member with the least number. -/
def deadCycles (g : Graph) (r : Reach) : List (List Path) :=
  let isDead (i : Nat) : Bool := (g.pathOf? i).any fun p => !r.isReachable p
  let groups := (List.range g.files.length).filterMap fun i =>
    if isDead i then
      let members := g.componentOf i
      if members.head? = some i ∧ 2 ≤ members.length ∧ members.all isDead ∧ g.isClosed members then
        some (g.sortedPaths members)
      else none
    else none
  groups.mergeSort fun a b => (compareCycles a b).isLE

end Deadwood.Graph
