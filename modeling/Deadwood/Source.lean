import Deadwood.Path.Basic

/-!
# Source files

A file of a project with the text that was read from it, or with the reason why there is none.
-/

namespace Deadwood

/-- What came of reading a file. -/
inductive Reading where
  | text (content : String)
  | failed (reason : String)
  deriving Repr, DecidableEq, Inhabited

/-- A file and what was read from it. -/
structure SourceFile where
  path : Path
  reading : Reading
  deriving Repr, DecidableEq, Inhabited

/-- The text of the file, where it could be read. -/
def SourceFile.text? (f : SourceFile) : Option String :=
  match f.reading with
  | .text content => some content
  | .failed _ => none

end Deadwood
