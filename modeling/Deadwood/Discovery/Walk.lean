import Deadwood.Ignore.Rule
import Deadwood.Settings.Basic
import Deadwood.Source
import Deadwood.Tree.Basic

/-!
# Discovery

Finds the files of a project: all files below its folder that the settings include, except those
that are hidden or that an ignore file leaves out. Links are not followed.

Ignore files of a folder speak about all that is below it. `.ignore` always counts; `.gitignore` and
the repository's own list of excluded files count only inside a repository. Of several ignore files
of one kind the one of the innermost folder counts that says anything.
-/

namespace Deadwood.Discovery

open Ignore

/-- The rules that a folder has for what is below it. -/
structure Level where
  /-- The names that lead to the folder from the top. -/
  place : List String
  /-- Is the folder the top of a repository? -/
  hasRepository : Bool
  plain : List Rule
  repository : List Rule
  excluded : List Rule

/-- What the names lead to from a place, over links. -/
def itemAt (t : Tree) (place names : List String) : Option Item :=
  match t.locate Tree.maxLinks place (names.map .name) with
  | .ok found => t.top.find? found
  | .error _ => none

/-- The rules of a folder's file. -/
def rulesAt (t : Tree) (place names : List String) : List Rule :=
  match itemAt t place names with
  | some (.file (.text content)) => Rule.ofText content
  | some (.file (.binary octets)) => Rule.ofOctets octets
  | _ => []

/-- The rules of a folder. -/
def levelOf (t : Tree) (place : List String) : Level :=
  { place
    hasRepository := (itemAt t place [".git"]).isSome
    plain := rulesAt t place [".ignore"]
    repository := rulesAt t place [".gitignore"]
    excluded := rulesAt t place [".git", "info", "exclude"] }

/-- The octets of the path from a folder to a place below it. -/
def pathFrom (folder place : List String) : List UInt8 :=
  Text.octets ("/".intercalate (place.drop folder.length))

/-- What rules of one kind say about a place, innermost folder first. -/
def judgeBy (rules : Level → List Rule) (place : List String) (isFolder : Bool) :
    List Level → Verdict
  | [] => .silent
  | l :: outer =>
    (Rule.judge (rules l) (pathFrom l.place place) isFolder).orElse
      (judgeBy rules place isFolder outer)

/-- The folders up to the top of the innermost repository. -/
def insideRepository : List Level → List Level
  | [] => []
  | l :: outer => if l.hasRepository then [l] else l :: insideRepository outer

/-- What the ignore files of the folders around a place say about it, innermost folder first. -/
def judge (levels : List Level) (place : List String) (isFolder : Bool) : Verdict :=
  let plain := judgeBy (·.plain) place isFolder levels
  if levels.any (·.hasRepository) then
    let inside := insideRepository levels
    plain.orElse <| (judgeBy (·.repository) place isFolder inside).orElse
      (judgeBy (·.excluded) place isFolder inside)
  else plain

/-- Is a name hidden? -/
def isHidden (name : String) : Bool := name.toList.head? == some '.'

/-- Is an item passed over? A hidden one is, unless a rule keeps it. -/
def isPassedOver (levels : List Level) (place : List String) (name : String) (isFolder : Bool) :
    Bool :=
  match judge levels place isFolder with
  | .leaveOut => true
  | .keep => false
  | .silent => isHidden name

mutual

/-- The files at and below an item, with their places. -/
def filesOf (t : Tree) (levels : List Level) (place : List String) (name : String) :
    Item → List (List String × Content)
  | .file content =>
    if isPassedOver levels place name false then [] else [(place, content)]
  | .folder items =>
    if isPassedOver levels place name true then []
    else filesIn t (levelOf t place :: levels) place items
  | .link _ => []

/-- The files below a folder, with their places. -/
def filesIn (t : Tree) (levels : List Level) (place : List String) :
    List (String × Item) → List (List String × Content)
  | [] => []
  | (name, item) :: rest =>
    filesOf t levels (place ++ [name]) name item ++ filesIn t levels place rest

end

/-- The rules of the folders on the way to a place, innermost first. -/
def levelsTo (t : Tree) (place : List String) : List Level :=
  (List.range (place.length + 1)).reverse.map fun n => levelOf t (place.take n)

/-- Why the files of a project cannot be found. -/
inductive Failure where
  | notFolder (root : Path)
  deriving Repr, DecidableEq, Inhabited

/-- What is said about files that cannot be found. -/
def Failure.message : Failure → String
  | notFolder root => "Not a directory: " ++ root.text

/-- What is said about a file whose octets are no text. -/
def notText : String := "stream did not contain valid UTF-8"

/-- What reading a file's content gives. -/
def readingOf : Content → Reading
  | .text s => .text s
  | .binary _ => .failed notText

/-- The files of the project in a folder, with their contents, in the order in which they stand
    there. -/
def walk (s : Settings) (t : Tree) (root : Path) : Except Failure (List (Path × Content)) :=
  match t.placeOf root, t.look root with
  | .ok place, .ok (.folder items) =>
    let found := (filesIn t (levelsTo t place) place items).map fun f =>
      (Path.mk ("/".intercalate (f.1.drop place.length)), f.2)
    let wanted := found.filter fun f => !s.isIgnored f.1 && s.isIncluded f.1
    .ok (wanted.map fun f => (root.join f.1, f.2))
  | _, _ => .error (.notFolder root)

/-- Finds the paths of the files of the project in a folder. -/
def findPaths (s : Settings) (t : Tree) (root : Path) : Except Failure (List Path) :=
  (walk s t root).map fun found => found.map (·.1)

/-- Finds the files of the project in a folder, in the order of paths. -/
def findFiles (s : Settings) (t : Tree) (root : Path) : Except Failure (List SourceFile) :=
  (walk s t root).map fun found =>
    (found.map fun f => ⟨f.1, readingOf f.2⟩).mergeSort fun a b => a.path.le b.path

end Deadwood.Discovery
