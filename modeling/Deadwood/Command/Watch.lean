import Deadwood.Command.Run

/-!
# Watching a project

Tells which files of a project changed from one look at the disk to the next.
-/

namespace Deadwood.Command.Plan

/-- The files of the project in a tree. -/
def filesIn (p : Plan) (t : Tree) : List SourceFile :=
  match Discovery.findFiles p.settings t p.root with
  | .ok files => files
  | .error _ => []

/-- The paths of the files that are in one list but not in the other. -/
def pathsOnlyIn (files others : List SourceFile) : List Path :=
  (files.filter fun f => !others.contains f).map (·.path)

/-- The paths of the files that came, went or have another content. -/
def changedPaths (p : Plan) (before after : Tree) : List Path :=
  let old := p.filesIn before
  let new := p.filesIn after
  let changed := pathsOnlyIn new old
  changed ++ (pathsOnlyIn old new).filter fun path => !changed.contains path

/-- The number of files whose names are shown at most. -/
def shownChanges : Nat := 5

/-- The lines about changes. -/
def changeLines (changed : List Path) : List StyledLine :=
  let names := (changed.take shownChanges).filterMap Path.fileName?
  let head := "🔄 Changes detected in " ++ Report.digits changed.length ++ " file(s), rescanning..."
  [[], [⟨.yellow, head⟩]] ++
  names.map (fun n => [⟨.plain, "   • "⟩, ⟨.dimmed, n⟩]) ++
  (if changed.length ≤ shownChanges then []
    else
      [[⟨.plain, "   • ... and " ++ Report.digits (changed.length - shownChanges) ++ " more"⟩]]) ++
  [[]]

end Deadwood.Command.Plan
