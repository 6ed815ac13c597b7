import Deadwood.Import.Clause

/-!
# Extraction

Puts the finds of the five recognisers together: all references of a text in the order of their
offsets, and the statements that bind names.
-/

namespace Deadwood.Import

open Text

/-- How many characters behind a specifier still belong to the statement: blanks and a `;`, or
    none. -/
def terminatorSize (rest : List Char) : Nat :=
  match rest.dropWhile isBlank with
  | ';' :: _ => (rest.takeWhile isBlank).length + 1
  | _ => 0

/-- The statement that a find makes. -/
def Statement.ofFind (text : List Char) (found : Located (StaticImport × List Char)) : Statement :=
  let (shape, rest) := found.value
  { specifier := String.ofList shape.specifier
    start := found.start
    stop := found.stop + terminatorSize rest
    line := lineOf text found.start
    typeOnly := shape.typeOnly
    bindings := bindingsOf shape.typeOnly shape.clause }

/-- The reference to a specifier at an offset. -/
def Reference.at (text : List Char) (form : Form) (offset : Nat) (specifier : List Char) :
    Reference :=
  { specifier := String.ofList specifier, offset, line := lineOf text offset, form }

/-- The references of one form that carry nothing but a specifier. -/
def referencesBy (text : List Char) (form : Form) (r : Recogniser (List Char)) : List Reference :=
  (findAll r text).map fun found => Reference.at text form found.start found.value

/-- The references in the order of the forms. -/
def referencesByForm (text : List Char) : List Reference :=
  ((findAll static? text).map fun found =>
      Reference.at text .static found.start found.value.1.specifier) ++
    referencesBy text .sideEffect sideEffect? ++ referencesBy text .reExport reExport? ++
    referencesBy text .require require? ++ referencesBy text .dynamic dynamic?

/-- Does the second reference say the same as the first one, at the same place? -/
def Reference.repeats (a b : Reference) : Bool := a.offset == b.offset && a.specifier == b.specifier

/-- The references without those that repeat the one that was kept last. -/
def dropRepeated (last : Option Reference) : List Reference → List Reference
  | [] => []
  | r :: rest =>
    if last.any r.repeats then dropRepeated last rest else r :: dropRepeated (some r) rest

/-- Everything that a text says about other modules. -/
def Extraction.ofChars (text : List Char) : Extraction :=
  { references := dropRepeated none <|
      (referencesByForm text).mergeSort fun a b => a.offset ≤ b.offset
    statements := (findAll static? text).map (Statement.ofFind text) }

/-- Everything that a text says about other modules. -/
def extract (text : String) : Extraction := Extraction.ofChars text.toList

end Deadwood.Import
