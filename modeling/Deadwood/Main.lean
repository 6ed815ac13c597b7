import Deadwood.Command.Watch
import Deadwood.Tree.Change
import Std.Time.DateTime.Timestamp

/-!
# The program

Reads the part of the disk that the arguments are about into a tree, runs the command on the tree,
and carries out on the disk what changed in the tree.
-/

namespace Deadwood.Disk

/-- The path of a place on the disk. -/
def pathOf (place : List String) : String := "/" ++ "/".intercalate place

/-- The entry of a name in a folder. -/
def entry (folder : String) (name : String) : IO.FS.DirEntry := { root := folder, fileName := name }

mutual

/-- Reads an entry. A link that leads nowhere is read as a link to itself, and of a repository
    nothing is read but its list of excluded files. -/
partial def readEntry (e : IO.FS.DirEntry) : IO Item := do
  match (← e.path.symlinkMetadata).type with
  | .symlink =>
    try return .link ⟨(← IO.FS.realPath e.path).toString⟩
    catch _ => return .link ⟨e.fileName⟩
  | .dir => .folder <$> readFolder e
  | _ =>
    try return .file (Content.ofOctets (← IO.FS.readBinFile e.path).toList)
    catch _ => return .file (.binary [])

/-- Reads the items of a folder. -/
partial def readFolder (e : IO.FS.DirEntry) : IO Folder := do
  let entries := (← e.path.readDir).toList
  let wanted :=
    if e.fileName == ".git" then entries.filter fun i => i.fileName == "info" else entries
  wanted.mapM fun i => return (i.fileName, ← readEntry i)

end

/-- The tree with what stands at a place, if there is anything. -/
def readPlace (t : Tree) (place : List String) : IO Tree := do
  match place.getLast? with
  | none => return t
  | some name =>
    let e := entry (pathOf place.dropLast) name
    if ← e.path.pathExists then return ⟨t.top.putAt place (← readEntry e)⟩ else return t

/-- The tree with what a path leads to, and with the ignore files of the folders around it. -/
def readPath (t : Tree) (path : String) : IO Tree := do
  let real ← try pure (some (← IO.FS.realPath path).toString) catch _ => pure none
  match real with
  | none => return t
  | some real =>
    let place := Tree.spelledPlace ⟨real⟩
    let around := (List.range place.length).flatMap fun n =>
      [".ignore", ".gitignore", ".git"].map fun name => place.take n ++ [name]
    readPlace (← around.foldlM readPlace t) place

/-- The tree with the folder for a file that is to be written, and with what stands in the file's
    place. -/
def readTarget (t : Tree) (file : Path) : IO Tree := do
  let folder := Path.ofComponents file.components.dropLast
  let real ← try pure (some (← IO.FS.realPath folder.text).toString) catch _ => pure none
  match real, file.fileName? with
  | some real, some name => readPlace (t.makeFolder ⟨real⟩) (Tree.spelledPlace ⟨real⟩ ++ [name])
  | _, _ => return t

/-- Reads all that a request is about. -/
def readFor (here : Command.Setting) (r : Command.Request) : IO Tree := do
  let at' (p : Path) : String := (here.folder.join p).text
  let folder := match r.action with
    | .scan options => options.folder
    | .clear folder => folder
  let t ← readPath (Tree.empty.makeFolder here.folder) (at' folder)
  let t ← match r.settingsFile with
    | some file => readPath t (at' file)
    | none => pure t
  let t ← match r.action with
    | .scan options =>
      (options.output.map fun file => here.folder.join file).toList.foldlM readTarget t
    | .clear _ => pure t
  -- the folder for results may be anywhere
  let shelf := (do
    let root ← Command.rootOf here folder
    return (← Command.settingsOf here r.settingsFile root).cacheFolder root : Command.Work Path)
  match (shelf.run t).1 with
  | .ok p => readPath t p.text
  | .error _ => return t

/-- Carries out a change. -/
def apply : Change → IO Unit
  | .write place content =>
    let octets := match content with
      | .text s => s.toUTF8
      | .binary octets => ByteArray.mk octets.toArray
    IO.FS.writeBinFile (pathOf place) octets
  | .makeFolder place => IO.FS.createDirAll (pathOf place)
  | .remove place => do
    let e := entry (pathOf place.dropLast) (place.getLast?.getD "")
    if ← e.path.isDir then IO.FS.removeDirAll e.path else IO.FS.removeFile e.path

/-- How the system says what is in the way. -/
def obstacleText : Obstacle → String
  | .missing => "No such file or directory (os error 2)"
  | .notFolder => "Not a directory (os error 20)"
  | .tooManyLinks => "Too many levels of symbolic links (os error 40)"

/-- How the system says why it does not do what it is asked for. -/
def causeText : Store.Cause → String
  | .blocked => obstacleText .notFolder
  | .obstacle cause => obstacleText cause
  | .isFolder _ => "Is a directory (os error 21)"
  | .refused _ => "Permission denied (os error 13)"

/-- What is said of stored octets that cannot be used. -/
def defectText : Store.Defect → String
  | .entry _ => "the file is not an entry"
  | .payload _ => "the payload is not a list of issues"

/-- A moment at a time. What is refused shows only when the changes are carried out. -/
def momentAt (now : UInt64) : Store.Moment where
  now
  refuses _ := false
  torn := none
  behind _ _ := .error .missing
  wording
    | .io cause => causeText cause
    | .corrupt defect => defectText defect

/-- The number of the process. -/
def processNumber : IO Nat := do
  let self ← try pure (← IO.FS.realPath "/proc/self").toString catch _ => pure ""
  return ((Path.mk self).fileName?.bind String.toNat?).getD 0

/-- Where and when the program runs. All that it does to the tree is done at one time. -/
def setting (drafts : Nat) : IO Command.Setting := do
  let folder ← IO.FS.realPath "."
  let now ← Std.Time.Timestamp.now
  let moment := momentAt (UInt64.ofNat now.toMillisecondsSinceUnixEpoch.val.toNat)
  return {
    folder := ⟨folder.toString⟩
    process := ← processNumber
    drafts
    moments := fun _ => moment }

/-- Carries out what changed, and writes what is to be written. -/
def conclude (before after : Tree) (a : Command.Answer) (milliseconds : Nat) : IO Unit := do
  (Change.between before after).forM apply
  let out ← IO.getStdout
  let color ← out.isTty
  out.putStr (a.text color (Command.durationText milliseconds))
  out.flush
  for failure in a.failures do
    IO.eprintln ("Error: " ++ failure.message)

/-- Looks at the project again and again, and scans it when it changed. -/
partial def watch (r : Command.Request) (plan : Command.Plan) (known : Tree) (drafts : Nat) :
    IO Unit := do
  IO.sleep 500
  let here ← setting drafts
  let t ← readFor here r
  let changed := plan.changedPaths known t
  if changed.isEmpty then watch r plan t drafts
  else
    let (answer, after) := plan.round here t
    let lines := Command.Plan.changeLines changed ++ answer.lines
    conclude t after { answer with lines } 0
    watch r plan after answer.drafts

end Deadwood.Disk

open Deadwood in
/-- Runs the program with its arguments. -/
def main (arguments : List String) : IO UInt32 := do
  let start ← IO.monoMsNow
  let here ← Disk.setting 0
  let request := Command.Request.ofArguments arguments
  -- only what the request is about is read from the disk
  let before ← match request with
    | .ok r => Disk.readFor here r
    | .error _ => pure Tree.empty
  let (answer, after) := Command.run here arguments before
  Disk.conclude before after answer ((← IO.monoMsNow) - start)
  match request, answer.watched with
  | .ok r, some plan => Disk.watch r plan after answer.drafts
  | .error .misuse, _ => IO.eprintln "error: the arguments are not understood; try --help"
  | _, _ => pure ()
  return UInt32.ofNat answer.exit
