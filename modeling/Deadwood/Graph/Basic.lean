import Deadwood.Path.Relative

/-!
# Import graphs

The files of a project and which of them import which. A file is a node under the path by which
it was added first; nodes are numbered in the order of addition. Edges hold node numbers, each
pair at most once. Cycles are allowed.

Beside the nodes a graph keeps an index, by which the number of a path is looked up. `addFile`
writes both; that they stay in step is a property of all graphs that are made by the operations.
-/

namespace Deadwood

/-- Numbers by paths. A path stands for its place, however it is spelled. -/
abbrev PathIndex := List (Path × Nat)

namespace PathIndex

/-- The number that was set last for the place of the path. -/
def get? (index : PathIndex) (p : Path) : Option Nat :=
  (index.find? fun e => p.same e.1).map (·.2)

/-- The index with a number for the place of the path. -/
def insert (index : PathIndex) (p : Path) (i : Nat) : PathIndex := (p, i) :: index

end PathIndex

/-- Files and the imports between them. -/
structure Graph where
  /-- The files, in the order of addition. -/
  files : List Path
  /-- The numbers of the files, by their paths. -/
  index : PathIndex
  /-- The pairs of importing and imported node. -/
  imports : List (Nat × Nat)
  deriving Repr, DecidableEq, Inhabited

namespace Graph

/-- The graph without files. -/
def empty : Graph := ⟨[], [], []⟩

/-- The number of a file's node, as the index has it. -/
def nodeIndex? (g : Graph) (p : Path) : Option Nat := g.index.get? p

/-- The path under which a node was added. -/
def pathOf? (g : Graph) (i : Nat) : Option Path := g.files[i]?

/-- Is the file in the graph? -/
def contains (g : Graph) (p : Path) : Bool := (g.nodeIndex? p).isSome

/-- The graph with the file in it. A new file is the last node and goes into the index. -/
def addFile (g : Graph) (p : Path) : Graph :=
  if g.contains p then g
  else { g with files := g.files ++ [p], index := g.index.insert p g.files.length }

/-- The graph with one more import, if both files are in it. -/
def addImport? (g : Graph) (source target : Path) : Option Graph :=
  match g.nodeIndex? source, g.nodeIndex? target with
  | some i, some j =>
    some (if (i, j) ∈ g.imports then g else { g with imports := g.imports ++ [(i, j)] })
  | _, _ => none

/-- The graph with one more import; unchanged if a file is missing. -/
def addImport (g : Graph) (source target : Path) : Graph := (g.addImport? source target).getD g

/-- The nodes that a node imports. -/
def targets (g : Graph) (i : Nat) : List Nat :=
  (g.imports.filter fun e => e.1 == i).map (·.2)

/-- The nodes that import a node. -/
def sources (g : Graph) (i : Nat) : List Nat :=
  (g.imports.filter fun e => e.2 == i).map (·.1)

/-- The paths of nodes, in the order of paths. -/
def sortedPaths (g : Graph) (nodes : List Nat) : List Path :=
  (nodes.filterMap g.pathOf?).mergeSort Path.le

/-- The files that a file imports, in the order of paths. -/
def importsOf (g : Graph) (p : Path) : List Path :=
  match g.nodeIndex? p with
  | some i => g.sortedPaths (g.targets i)
  | none => []

/-- The files that import a file, in the order of paths. -/
def importersOf (g : Graph) (p : Path) : List Path :=
  match g.nodeIndex? p with
  | some i => g.sortedPaths (g.sources i)
  | none => []

end Graph
end Deadwood
