import Deadwood.Import.Unused
import Deadwood.Report.Basic

/-!
# Analyzers

An analyzer looks at the text of one file. What it comes to may depend on what it has seen before,
so it is given a state and leaves one behind. It may fail, crash, or not come to an end.

The analyzers of a scan are run on a file one after the other, in one pass. A pass that crashes is
thrown away and tried once more.
-/

namespace Deadwood.Scan

/-- What an analyzer comes to. -/
inductive Verdict where
  | issues (found : List Issue)
  /-- It gave up, for these reasons, the outermost first. -/
  | failure (reasons : List String)
  | crash
  /-- It does not come to an end in any time that is given to it. -/
  | hang
  deriving Repr, DecidableEq, Inhabited

/-- An analyzer whose state is of type `σ`. -/
structure Analyzer (σ : Type) where
  name : String
  analyze : σ → String → Path → Verdict × σ

namespace Analyzer

/-- The analyzer that finds unused imports. It needs no state. -/
def unusedImports (σ : Type) (checkTypes : Bool) : Analyzer σ where
  name := "unused-import"
  analyze state text file := (.issues (Import.unusedIssues checkTypes file text), state)

end Analyzer

/-- What the analyzers of one pass have found, and which of them gave up. -/
structure Findings where
  issues : List Issue
  warnings : List Warning
  deriving Repr, DecidableEq, Inhabited

namespace Findings

/-- Nothing found. -/
def empty : Findings := { issues := [], warnings := [] }

/-- The findings with issues before them. -/
def addIssues (found : List Issue) (f : Findings) : Findings :=
  { f with issues := found ++ f.issues }

/-- The findings with a warning before them. -/
def addWarning (w : Warning) (f : Findings) : Findings := { f with warnings := w :: f.warnings }

end Findings

/-- How a pass ends. -/
inductive Pass where
  | finished (found : Findings)
  | crashed
  | hung
  deriving Repr, DecidableEq, Inhabited

/-- Changes what a finished pass has found. -/
def Pass.map (f : Findings → Findings) : Pass → Pass
  | finished found => finished (f found)
  | other => other

/-- What is said when an analyzer gives up on a file. -/
def failureWarning (analyzer : String) (file : Path) (reasons : List String) : Warning :=
  { kind := .analyzerFailed, file := some file
    message := "analyzer '" ++ analyzer ++ "' failed: " ++ ": ".intercalate reasons }

/-- Runs the analyzers on a file in their order. One that gives up only loses its own issues; one
    that crashes or hangs ends the pass. Time is not counted here: the limit on an analysis shows
    only as the verdict `hang`, and a pass in which no analyzer has this verdict is taken to end in
    time, however many analyzers it runs. -/
def runPass {σ : Type} (text : String) (file : Path) : List (Analyzer σ) → σ → Pass × σ
  | [], state => (.finished .empty, state)
  | a :: rest, state =>
    match a.analyze state text file with
    | (.issues found, state) =>
      let (pass, state) := runPass text file rest state
      (pass.map (Findings.addIssues found), state)
    -- one that gives up does not keep the others from going on
    | (.failure reasons, state) =>
      let (pass, state) := runPass text file rest state
      (pass.map (Findings.addWarning (failureWarning a.name file reasons)), state)
    -- these end the pass
    | (.crash, state) => (.crashed, state)
    | (.hang, state) => (.hung, state)

/-- The number of passes that are tried on a file. -/
def maxAttempts : Nat := 2

/-- Tries passes until one does not crash, as many as allowed. -/
def runAttempts {σ : Type} (text : String) (file : Path) (analyzers : List (Analyzer σ)) :
    Nat → σ → Pass × σ
  | 0, state => (.crashed, state)
  | n + 1, state =>
    match runPass text file analyzers state with
    | (.crashed, state) => runAttempts text file analyzers n state
    | ended => ended

end Deadwood.Scan
