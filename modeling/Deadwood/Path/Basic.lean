import Deadwood.Text.Piece

/-!
# Paths

A path is kept as it is written. What it names is its list of components: repeated slashes,
slashes at the end and inner `.` do not count, a `.` at the start does. Paths are compared and
ordered by their components, so `a/b` comes before `a-b`, and printed as they were written.
-/

namespace Deadwood

/-- A step of a path. -/
inductive Component where
  /-- The `/` at the start of an absolute path. -/
  | root
  /-- A `.` at the start of a relative path. -/
  | current
  /-- `..` -/
  | parent
  /-- The name of a file or folder. -/
  | name (text : String)
  deriving Repr, DecidableEq, Inhabited

namespace Component

/-- The text of a component. -/
def text : Component → String
  | root => "/"
  | current => "."
  | parent => ".."
  | name s => s

/-- The place of a component's kind in the order of components. -/
def rank : Component → Nat
  | root => 0
  | current => 1
  | parent => 2
  | name _ => 3

/-- The order of components: by kind, then names by their characters. -/
def compare (a b : Component) : Ordering :=
  match a, b with
  | name s, name t => Ord.compare s t
  | a, b => Ord.compare a.rank b.rank

/-- Is it the name `s`? -/
def isName (s : String) (c : Component) : Bool := c == name s

/-- What a stretch between slashes stands for inside a path; nothing for an empty one and `.`. -/
def ofSegment? : List Char → Option Component
  | [] => none
  | ['.'] => none
  | ['.', '.'] => some parent
  | s => some (name (String.ofList s))

end Component

/-- A path, as it is written. -/
structure Path where
  text : String
  deriving Repr, DecidableEq, Inhabited

namespace Path

/-- The stretches between slashes. -/
def segments (p : Path) : List (List Char) := Text.splitAtAll (· == '/') p.text.toList

/-- Splits off the component that only the start of a path can have. -/
def splitStart : List (List Char) → Option Component × List (List Char)
  | [] :: s :: rest => (some .root, s :: rest)
  | ['.'] :: rest => (some .current, rest)
  | segs => (none, segs)

/-- The components of a path. -/
def components (p : Path) : List Component :=
  let (start, rest) := splitStart p.segments
  start.toList ++ rest.filterMap Component.ofSegment?

/-- Do two paths name the same place? -/
def same (p q : Path) : Bool := p.components == q.components

/-- The order of paths: component by component. -/
def compare (p q : Path) : Ordering := List.compareLex Component.compare p.components q.components

/-- Is the first path at or before the second one? -/
def le (p q : Path) : Bool := (p.compare q).isLE

/-- Is the path one of the list? -/
def isIn (p : Path) (paths : List Path) : Bool := paths.any p.same

/-- Does the path start at the root? -/
def isAbsolute (p : Path) : Bool := p.text.toList.head? == some '/'

/-- The path that is written as the components, with single slashes. -/
def ofComponents (cs : List Component) : Path :=
  match cs with
  | .root :: rest =>
    ⟨String.ofList ('/' :: Text.joinWith '/' (rest.map fun c => c.text.toList))⟩
  | cs => ⟨String.ofList (Text.joinWith '/' (cs.map fun c => c.text.toList))⟩

/-- The components of the folder that holds the place; the root and the empty path have none. -/
def parentComponents? (p : Path) : Option (List Component) :=
  match p.components.getLast? with
  | none | some .root => none
  | some _ => some p.components.dropLast

/-- The name of the file or folder, where the path ends in a name. -/
def fileName? (p : Path) : Option String :=
  match p.components.getLast? with
  | some (.name s) => some s
  | _ => none

/-- Splits a name at its last dot. A dot that starts the name does not count. -/
def splitName (name : String) : String × Option String :=
  let reversed := name.toList.reverse
  match reversed.dropWhile (· != '.') with
  | '.' :: c :: stem =>
    (String.ofList (c :: stem).reverse,
      some (String.ofList (reversed.takeWhile (· != '.')).reverse))
  | _ => (name, none)

/-- The name of the file without its extension. -/
def fileStem? (p : Path) : Option String := p.fileName?.map fun n => (splitName n).1

/-- The extension of the file's name. -/
def extension? (p : Path) : Option String := p.fileName?.bind fun n => (splitName n).2

/-- The path with one more name, or the second path where that is absolute. -/
def join (p q : Path) : Path :=
  if q.isAbsolute then q
  else if p.text.isEmpty || p.text.toList.getLast? == some '/' then ⟨p.text ++ q.text⟩
  else ⟨p.text ++ "/" ++ q.text⟩

/-- The path with an extension added to what it ends in. -/
def addExtension (p : Path) (ext : String) : Path := ⟨p.text ++ "." ++ ext⟩

end Path
end Deadwood
