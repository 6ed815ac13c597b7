import Deadwood.Graph.Basic
import Deadwood.Graph.Resolve
import Deadwood.Import.Extract
import Deadwood.Source

/-!
# The graph of a project

Every file of the project is a node, readable or not. A readable file has an edge to each file
that one of its local references stands for; the references that stand for none are kept aside.
-/

namespace Deadwood.Graph

/-- A graph and what could not become part of it. -/
structure Build where
  graph : Graph
  /-- The local specifiers that no file answers to, with the importing file. -/
  unresolved : List (Path × String)
  /-- The files without a text. -/
  unreadable : List Path
  deriving Repr, DecidableEq, Inhabited

/-- The local specifiers in a text, in its order. -/
def localSpecifiers (text : String) : List String :=
  ((Import.extract text).references.filter Import.Reference.isLocal).map (·.specifier)

/-- The local references of all readable files, in the order of files and then of the text. -/
def localReferences (files : List SourceFile) : List (Path × String) :=
  files.flatMap fun f =>
    match f.text? with
    | some text => (localSpecifiers text).map fun s => (f.path, s)
    | none => []

/-- The graph of the files without an import. -/
def ofFiles (files : List SourceFile) : Graph := (files.map (·.path)).foldl addFile empty

/-- Builds the graph of a project. -/
def build (files : List SourceFile) : Build :=
  let known := files.map (·.path)
  let resolved := (localReferences files).map fun r => (r, Resolution.resolve? known r.1 r.2)
  { graph := resolved.foldl (fun g r => r.2.elim g (g.addImport r.1.1)) (ofFiles files)
    unresolved := (resolved.filter fun r => r.2.isNone).map (·.1)
    unreadable := (files.filter fun f => f.text?.isNone).map (·.path) }

end Deadwood.Graph
