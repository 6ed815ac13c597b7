import Deadwood.Command.Request
import Deadwood.Report.Document
import Deadwood.Report.Terminal
import Deadwood.Scan.Project
import Deadwood.Settings.Load

/-!
# Running the program

Carries out what the arguments ask for. All that the program does to the disk is done to a tree, so
that a run is a function of the tree, the current folder, what the system does meanwhile and the
arguments: `run` gives the exit code, the lines that are written, and the tree behind it. What was
done before a failure stays done.
-/

namespace Deadwood.Command

/-- Where and when a command is run. -/
structure Setting where
  /-- The current folder. -/
  folder : Path
  /-- The number of the process. -/
  process : Nat
  /-- How many drafts of results the process has made. -/
  drafts : Nat
  /-- The moments at which results are asked for, kept or cleared, one after the other. -/
  moments : Nat → Store.Moment

/-- Why a command cannot be carried out. -/
inductive Failure where
  | noFolder (folder : Path)
  | settings (cause : Settings.LoadError)
  | clear (cause : Store.Fault)
  | scan (cause : Scan.Failure)
  | write (file : Path)
  deriving Repr, Inhabited

/-- What is said about a command that cannot be carried out. -/
def Failure.message : Failure → String
  | noFolder folder => "Cannot access project directory: " ++ folder.text
  | settings cause => cause.message
  | clear _ => "Failed to clear cache"
  | scan cause => cause.message
  | write file => "Failed to write report to " ++ file.text

/-- Work on a tree that may fail. What was done before a failure stays done. -/
abbrev Work := ExceptT Failure (StateM Tree)

/-- A scan that is ready to be carried out. -/
structure Plan where
  root : Path
  settings : Settings
  options : ScanOptions
  quiet : Bool

/-- What comes of the arguments. -/
structure Answer where
  exit : Nat
  lines : List StyledLine := []
  /-- The number of files scanned, if the time that it took is to be told. -/
  scanned : Option Nat := none
  failures : List Failure := []
  /-- The scan to repeat when the project changes. -/
  watched : Option Plan := none
  /-- How many drafts of results the process has made. -/
  drafts : Nat := 0

/-- The folder that a path leads to. -/
def rootOf (here : Setting) (folder : Path) : Work Path := do
  match (← get).placeOf (here.folder.join folder) with
  | .ok place => return Path.ofComponents (.root :: place.map .name)
  | .error _ => throw (.noFolder folder)

/-- The settings of a project, from the file that is asked for if there is one. -/
def settingsOf (here : Setting) (file : Option Path) (root : Path) : Work Settings := do
  let t ← get
  let loaded := match file with
    | some file => Settings.ofFile t (here.folder.join file)
    | none => Settings.ofProject t root
  match loaded with
  | .ok settings => return settings
  | .error cause => throw (.settings cause)

/-- The settings with what the options of a scan change. -/
def ScanOptions.adjust (o : ScanOptions) (s : Settings) : Settings :=
  { s with
    ignores := s.ignores ++ o.excludes
    cache := { s.cache with enabled := s.cache.enabled && !o.noStore }
    maxWorkers := o.workers <|> s.maxWorkers }

/-- Clears the results in a folder. -/
def clearShelf (m : Store.Moment) (store : Store) (folder : Path) : Work Unit := do
  let t ← get
  let (outcome, shelf) := store.clear (m.inTree t folder) (t.shelf folder)
  set (t.putShelf folder shelf)
  match outcome with
  | .ok () => return ()
  | .error cause => throw (.clear cause)

namespace Plan

/-- The scanner of a plan. -/
def scanner (p : Plan) : Scanner Unit := Scanner.builtIn p.root p.settings

/-- Scans the project. The first moment is left to what comes before the scan. -/
def scan (p : Plan) (here : Setting) : Work (Scan.Result Unit) := do
  let moments n := here.moments (n + 1)
  match p.scanner.runTree moments here.process here.drafts () (← get) with
  | .ok (result, t) => do
    set t
    return result
  | .error cause => throw (.scan cause)

/-- Writes a report: a document into its file if there is one, and all else as lines. -/
def write (p : Plan) (here : Setting) (r : Report) : Work (List StyledLine) := do
  match p.options.form, p.options.output with
  | .terminal, _ => return r.terminalLines p.root
  | .json, none => return [[⟨.plain, r.documentText p.root⟩]]
  | .json, some file =>
    match (← get).write? (here.folder.join file) (.text (r.documentText p.root)) with
    | some t => do
      set t
      return []
    | none => throw (.write file)

/-- The exit code after a scan. -/
def exitCode (p : Plan) (r : Report) : Nat :=
  if r.incomplete then 130
  else if p.options.failOn.any fun threshold => r.hasIssuesAt threshold then 1
  else 0

/-- Is more written than the results? -/
def isChatty (p : Plan) : Bool := !p.quiet && p.options.form == .terminal

/-- Carries out a scan. -/
def run (p : Plan) (here : Setting) : Work Answer := do
  if p.options.clearFirst then
    clearShelf (here.moments 0) p.scanner.store p.scanner.shelfFolder
  let result ← p.scan here
  let lines ← p.write here result.report
  return {
    exit := p.exitCode result.report
    lines
    scanned := if p.isChatty then some result.report.stats.filesScanned else none
    drafts := result.archive.drafts }

/-- The lines that open a watch. -/
def openingLines (p : Plan) : List StyledLine :=
  [[], [⟨.boldCyan, "👁  Watch mode active. Press Ctrl+C to stop."⟩],
    [⟨.dimmed, "   Watching: " ++ p.root.text⟩], []]

/-- The lines that close a round of a watch. -/
def closingLines (p : Plan) : List StyledLine :=
  if p.quiet then [] else [[], [⟨.green, "✓ Scan complete. Waiting for changes..."⟩]]

/-- One round of a watch. A failure ends the round but not the watch. -/
def round (p : Plan) (here : Setting) (t : Tree) : Answer × Tree :=
  match (p.scan here).run t with
  | (.error failure, t) =>
    ({ exit := 0, failures := [failure], watched := some p, drafts := here.drafts }, t)
  | (.ok result, t) =>
    let answer : Answer := { exit := 0, watched := some p, drafts := result.archive.drafts }
    match (p.write here result.report).run t with
    | (.ok lines, t) => ({ answer with lines := lines ++ p.closingLines }, t)
    | (.error failure, t) =>
      ({ answer with lines := p.closingLines, failures := [failure] }, t)

/-- Starts a watch, with its first round. -/
def watch (p : Plan) (here : Setting) : Work Answer := do
  let (answer, t) := p.round here (← get)
  set t
  return { answer with lines := p.openingLines ++ answer.lines }

end Plan

/-- Clears the results of a project. -/
def runClear (here : Setting) (settingsFile : Option Path) (folder : Path) : Work Answer := do
  let root ← rootOf here folder
  let settings ← settingsOf here settingsFile root
  let shelfFolder := settings.cacheFolder root
  clearShelf (here.moments 0) (Store.ofSchema "") shelfFolder
  return { exit := 0, lines := [[⟨.green, "Cache cleared: " ++ shelfFolder.text⟩]] }

/-- Scans a project, or starts to watch it. -/
def runScan (here : Setting) (r : Request) (options : ScanOptions) : Work Answer := do
  let root ← rootOf here options.folder
  let settings ← settingsOf here r.settingsFile root
  let plan : Plan := { root, settings := options.adjust settings, options, quiet := r.quiet }
  if options.watch then plan.watch here else plan.run here

/-- Carries out a request. -/
def Request.run (r : Request) (here : Setting) : Work Answer :=
  match r.action with
  | .scan options => runScan here r options
  | .clear folder => runClear here r.settingsFile folder

/-- The program's name and version. -/
def versionText : String := "sweepstacx " ++ Scan.version

/-- How the arguments are written. -/
def helpLines : List String :=
  ["Usage: sweepstacx [OPTIONS] <COMMAND>",
    "",
    "Commands:",
    "  scan [PATH]         Scan a project for unused imports and dead files",
    "  cache clear [PATH]  Delete every cache entry for a project",
    "",
    "Options:",
    "  -c, --config <CONFIG>    Path to configuration file",
    "  -v, --verbose            Verbose output",
    "  -q, --quiet              Quiet mode - only output results",
    "  -h, --help               Print help",
    "  -V, --version            Print version",
    "",
    "Options of scan:",
    "      --path <DIR>         Project directory (overrides PATH)",
    "  -e, --exclude <PATTERN>  Pattern to exclude (can be repeated)",
    "  -f, --format <FORMAT>    Output format [terminal, json]",
    "      --json               Shorthand for --format json",
    "  -o, --output <FILE>      Output file (for json format)",
    "      --no-cache           Disable the result cache for this run",
    "      --clear-cache        Clear the result cache before scanning",
    "      --max-workers <N>    Maximum number of worker threads",
    "  -w, --watch              Watch mode - rescan on file changes",
    "      --fail-on <LEVEL>    Exit non-zero from this severity on [error, warning, info, never]"]

/-- What comes of arguments that ask for no work. -/
def Stop.answer : Stop → Answer
  | version => { exit := 0, lines := [[⟨.plain, versionText⟩]] }
  | help => { exit := 0, lines := helpLines.map fun l => [⟨.plain, l⟩] }
  | misuse => { exit := 2 }

/-- Does what the arguments ask for: what comes of it, and the tree behind it. -/
def run (here : Setting) (arguments : List String) (t : Tree) : Answer × Tree :=
  match Request.ofArguments arguments with
  | .error stop => (stop.answer, t)
  | .ok request =>
    match (request.run here).run t with
    | (.ok answer, t) => (answer, t)
    | (.error failure, t) => ({ exit := 1, failures := [failure] }, t)

/-- A time in milliseconds, shown in seconds with two places. -/
def durationText (milliseconds : Nat) : String :=
  let hundredths := (milliseconds + 5) / 10
  let places := Nat.toDigits 10 (hundredths % 100)
  let padded := List.replicate (2 - places.length) '0' ++ places
  Report.digits (hundredths / 100) ++ "." ++ String.ofList padded ++ "s"

/-- The line that tells how long a scan took. -/
def durationLine (files : Nat) (duration : String) : StyledLine :=
  [⟨.dimmed, "⏱  Scanned " ++ Report.digits files ++ " files in " ++ duration⟩]

/-- All that is written, in color or not, where the work took the given time. -/
def Answer.text (a : Answer) (color : Bool) (duration : String) : String :=
  let lines := a.lines ++ (a.scanned.map fun n => durationLine n duration).toList
  String.join (lines.map (StyledLine.render color))

end Deadwood.Command
