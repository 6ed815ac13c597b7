import Deadwood.Glob.Pattern
import Deadwood.Graph.Resolve

/-!
# Entry points

The files at which a project is entered: by a conventional name, as a test, as a program of a
`bin` or `cli` folder, or because a pattern says so. Where no file is one, all files are taken
for entry points, so that an unusual layout does not make everything dead.
-/

namespace Deadwood

/-- How entry points are told. -/
structure EntryRules where
  /-- The folder relative to which places and patterns are looked at. -/
  root : Option Path
  patterns : List Glob
  deriving Repr, DecidableEq

/-- Entry points of a list of files. -/
structure EntryPoints where
  /-- The files, each once and in the order of paths. -/
  paths : List Path
  /-- Were all files taken, for want of an entry point? -/
  fallback : Bool
  deriving Repr, DecidableEq, Inhabited

namespace EntryRules

/-- The names that an entry point has before its extension. -/
def stems : List String := ["index", "main", "app", "server"]

/-- The folders that hold programs. -/
def programFolders : List String := ["bin", "cli"]

/-- Does the file have a conventional name? -/
def hasEntryName (p : Path) : Bool :=
  p.fileStem?.any stems.contains && p.extension?.any moduleExtensions.contains

/-- Is the file a test? -/
def isTest (p : Path) : Bool :=
  (p.fileName?.any fun n =>
      Text.holds ['.', 't', 'e', 's', 't', '.'] n.toList ||
        Text.holds ['.', 's', 'p', 'e', 'c', '.'] n.toList) ||
    p.components.any (Component.isName "__tests__")

/-- Does the file lie in a folder of programs? -/
def isProgram (p : Path) : Bool :=
  p.parentComponents?.any fun folder =>
    folder.any fun c => programFolders.any fun n => c.isName n

/-- Is the file an entry point? -/
def isEntry (r : EntryRules) (p : Path) : Bool :=
  let place := r.root.elim p p.relativeTo
  hasEntryName place || isTest place || isProgram place || r.patterns.any fun g => g.isMatch place

/-- Of paths that name the same place next to each other, the last one. -/
def keepLast : List Path → List Path
  | p :: q :: rest => if p.same q then keepLast (q :: rest) else p :: keepLast (q :: rest)
  | paths => paths

/-- The places, each once and in the order of paths, under the last of its spellings. -/
def ordered (paths : List Path) : List Path := keepLast (paths.mergeSort Path.le)

/-- The entry points among the files. -/
def detect (r : EntryRules) (files : List Path) : EntryPoints :=
  match files.filter r.isEntry with
  | [] => { paths := ordered files, fallback := !files.isEmpty }
  | found => { paths := ordered found, fallback := false }

end EntryRules
end Deadwood
