import Deadwood.Path.Basic

/-!
# Parts of a path

The part of a path below another one, spelled as it was, and the path that is left when the
steps `.` and `..` are carried out.
-/

namespace Deadwood.Path

/-- Does the stretch between slashes stand for nothing? -/
def isFiller (segment : List Char) : Bool := (Component.ofSegment? segment).isNone

/-- The stretches without those at the end that stand for nothing. -/
def dropFillersRight (segments : List (List Char)) : List (List Char) :=
  (segments.reverse.dropWhile isFiller).reverse

/-- The stretches behind the first `n` components. -/
def dropComponents : Nat → List (List Char) → List (List Char)
  | 0, segments => segments
  | _ + 1, [] => []
  | n + 1, s :: segments =>
    if isFiller s then dropComponents (n + 1) segments else dropComponents n segments

/-- The path that is written as the stretches. -/
def ofSegments (segments : List (List Char)) : Path := ⟨String.ofList (Text.joinWith '/' segments)⟩

/-- The path without slashes and `.` at its end. -/
def trimEnd (p : Path) : Path :=
  match splitStart p.segments with
  | (some .root, rest) =>
    ⟨String.ofList ('/' :: Text.joinWith '/' (dropFillersRight rest))⟩
  | (some _, rest) => ofSegments (['.'] :: dropFillersRight rest)
  | (none, rest) => ofSegments (dropFillersRight rest)

/-- The part of a path below a folder, spelled as in the path. -/
def below? (folder p : Path) : Option Path :=
  if folder.components.isPrefixOf p.components then
    match folder.components with
    | [] => some p.trimEnd
    | steps =>
      let (start, rest) := splitStart p.segments
      let count := if start.isSome then steps.length - 1 else steps.length
      some (ofSegments (dropFillersRight ((dropComponents count rest).dropWhile isFiller)))
  else none

/-- The part below the folder, or the whole path where it lies elsewhere. -/
def relativeTo (p folder : Path) : Path := (below? folder p).getD p

/-- Carries out one step behind those already taken, last first. A `..` takes back the last step,
    unless that is the root or there is none: then it is kept. -/
def takeStep (taken : List Component) : Component → List Component
  | .current => taken
  | .parent =>
    match taken with
    | [] => [.parent]
    | .root :: rest => .parent :: .root :: rest
    | _ :: rest => rest
  | step => step :: taken

/-- The components that are left when all steps are carried out. -/
def normalComponents (steps : List Component) : List Component := (steps.foldl takeStep []).reverse

/-- The path without `.` and without the `..` that can be carried out. -/
def normalize (p : Path) : Path := ofComponents (normalComponents p.components)

end Deadwood.Path
