import Deadwood.Discovery.Walk
import Deadwood.Scan.Run
import Deadwood.Store.Shelf

/-!
# Scanning a project

Finds the files of a project in a tree and scans them, with the project's results in the folder that
the settings name.
-/

namespace Deadwood

namespace Scan

/-- Why a project cannot be scanned. -/
inductive Failure where
  | discovery (root : Path) (cause : Discovery.Failure)
  deriving Repr, DecidableEq, Inhabited

/-- What is said about a project that cannot be scanned. -/
def Failure.message : Failure → String
  | discovery root _ => "Failed to discover files in " ++ root.text

end Scan

namespace Scanner

variable {σ : Type}

/-- The scanner of a project that only the built-in analyzer is run on. -/
def builtIn (root : Path) (settings : Settings) : Scanner Unit :=
  { root, settings, extra := [], isCancelled := fun _ => false, ownStore := none }

/-- The folder for the results of a project. -/
def shelfFolder (s : Scanner σ) : Path := s.settings.cacheFolder s.root

/-- Scans the project in a tree, by a process of this number that has made so many drafts. -/
def runTree (s : Scanner σ) (moments : Nat → Store.Moment) (process drafts : Nat) (state : σ)
    (t : Tree) : Except Scan.Failure (Scan.Result σ × Tree) :=
  match Discovery.findFiles s.settings t s.root with
  | .error cause => .error (.discovery s.root cause)
  | .ok files =>
    let here n := (moments n).inTree t s.shelfFolder
    let archive := { shelf := t.shelf s.shelfFolder, process, drafts }
    let result := s.run here files state archive
    .ok (result, t.putShelf s.shelfFolder result.archive.shelf)

end Scanner
end Deadwood
