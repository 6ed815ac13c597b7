import Deadwood.Command.Grammar
import Deadwood.Issue.Basic
import Deadwood.Json.Parser
import Deadwood.Path.Basic

/-!
# Requests

What the arguments of the program ask for: to scan a project, or to clear its results. Some options
can be given both before and behind a command's name; the innermost one counts.
-/

namespace Deadwood.Command

/-- How a report is written. -/
inductive Form where
  | terminal
  | json
  deriving Repr, DecidableEq, Inhabited

/-- What a scan is asked to do. -/
structure ScanOptions where
  /-- The project's folder. -/
  folder : Path
  /-- Patterns for files to leave out, besides those of the settings. -/
  excludes : List String
  form : Form
  /-- The file for a report in JSON. -/
  output : Option Path
  /-- Are results neither looked up nor kept? -/
  noStore : Bool
  /-- Are the results of earlier scans cleared first? -/
  clearFirst : Bool
  workers : Option Nat
  /-- Is the project scanned again when it changes? -/
  watch : Bool
  /-- The severity from which on issues count as a failure. -/
  failOn : Option Severity
  deriving Repr, DecidableEq, Inhabited

/-- What is to be done. -/
inductive Action where
  | scan (options : ScanOptions)
  /-- Clear the results of the project in a folder. -/
  | clear (folder : Path)
  deriving Repr, DecidableEq, Inhabited

/-- What the arguments ask for. -/
structure Request where
  action : Action
  /-- The file with the settings, if it is not looked for in the project. -/
  settingsFile : Option Path
  /-- Is nothing written but the results? -/
  quiet : Bool
  deriving Repr, DecidableEq, Inhabited

namespace Request

/-- The forms of a report by their names. -/
def forms : List (String × Form) := [("terminal", .terminal), ("json", .json)]

/-- The thresholds of failure by their names. -/
def thresholds : List (String × Option Severity) :=
  [("error", some .error), ("warning", some .warning), ("info", some .info), ("never", none)]

/-- Reads a number of workers: digits, maybe behind a plus sign, for a number of 64 bits. -/
def workers? (s : String) : Option Nat :=
  let digits := match s.toList with
    | '+' :: rest => rest
    | cs => cs
  if digits.isEmpty || !digits.all Char.isDigit then none
  else
    let n := Json.digitsValue digits
    if n < 0x10000000000000000 then some n else none

/-- The effect of an option that takes a path. -/
def takesPath : Effect := .value fun s => !s.isEmpty

/-- The option that asks for help. -/
def help : Choice := { name := "help", short := some 'h', effect := .stop .help }

/-- The options that can be given anywhere. -/
def sharedChoices : List Choice :=
  [{ name := "config", short := some 'c', effect := takesPath },
    { name := "verbose", short := some 'v', effect := .switch },
    { name := "quiet", short := some 'q', effect := .switch },
    help]

/-- The grammar of the program. -/
def program : Grammar :=
  { choices := sharedChoices ++ [{ name := "version", short := some 'V', effect := .stop .version }]
    commands := ["scan", "cache", "help"] }

/-- The grammar of a scan. -/
def scanning : Grammar :=
  { choices := sharedChoices ++
      [{ name := "path", effect := takesPath },
        { name := "exclude", short := some 'e', effect := .value fun _ => true, repeats := true },
        { name := "format", short := some 'f', effect := .value fun s => (forms.lookup s).isSome },
        { name := "json", effect := .switch },
        { name := "output", short := some 'o', effect := takesPath },
        { name := "no-cache", effect := .switch },
        { name := "clear-cache", effect := .switch },
        { name := "max-workers", effect := .value fun s => (workers? s).isSome },
        { name := "watch", short := some 'w', effect := .switch },
        { name := "fail-on", effect := .value fun s => (thresholds.lookup s).isSome }]
    takesOperand := true }

/-- The grammar of the commands on results. -/
def caching : Grammar := { choices := sharedChoices, commands := ["clear", "help"] }

/-- The grammar of clearing results. -/
def clearing : Grammar := { choices := sharedChoices, takesOperand := true }

/-- Is there a command of these names? -/
def isCommand : List String → Bool
  | [] | ["scan"] | ["cache"] | ["cache", "clear"] | ["cache", "help"] | ["help"] => true
  | _ => false

/-- Why a request for help about a command asks for no work. -/
def helpOn (names : List String) : Stop := if isCommand names then .help else .misuse

/-- The request for an action, with what was given on the levels, outermost first. -/
def ofAction (levels : List Given) (action : Action) : Request :=
  { action
    settingsFile := (levels.reverse.findSome? fun g => g.value? "config").map Path.mk
    quiet := levels.any fun g => g.has "quiet" }

/-- The folder that an operand names; without one it is the current folder. -/
def folderOf (g : Given) : Path := ⟨g.operand.getD "."⟩

/-- What a scan is asked to do by the options that were given. -/
def scanOptions (g : Given) : ScanOptions :=
  { folder := ((g.value? "path").map Path.mk).getD (folderOf g)
    excludes := g.values "exclude"
    -- the switch counts more than the format that is named
    form := if g.has "json" then .json
      else ((g.value? "format").bind fun s => forms.lookup s).getD .terminal
    output := (g.value? "output").map Path.mk
    noStore := g.has "no-cache"
    clearFirst := g.has "clear-cache"
    workers := (g.value? "max-workers").bind workers?
    watch := g.has "watch"
    failOn := ((g.value? "fail-on").bind fun s => thresholds.lookup s).getD none }

/-- Reads the arguments of a scan. -/
def ofScanArguments (outer : Given) (arguments : List String) : Except Stop Request := do
  match ← scanning.read arguments with
  | .finished given => return ofAction [outer, given] (.scan (scanOptions given))
  | .command .. => throw .misuse

/-- Reads the arguments of the commands on results. -/
def ofCacheArguments (outer : Given) (arguments : List String) : Except Stop Request := do
  match ← caching.read arguments with
  | .command middle "clear" rest =>
    match ← clearing.read rest with
    | .finished given => return ofAction [outer, middle, given] (.clear (folderOf given))
    | .command .. => throw .misuse
  | .command _ "help" names => throw (helpOn ("cache" :: names))
  | _ => throw .misuse

/-- Reads the arguments of the program. -/
def ofArguments (arguments : List String) : Except Stop Request := do
  match ← program.read arguments with
  | .command given "scan" rest => ofScanArguments given rest
  | .command given "cache" rest => ofCacheArguments given rest
  | .command _ "help" names => throw (helpOn names)
  | _ => throw .misuse

end Request
end Deadwood.Command
