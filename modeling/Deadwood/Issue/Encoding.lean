import Deadwood.Issue.Basic
import Deadwood.Json.Decode

/-!
# Issues in JSON

How issues are written for keeping: an object whose optional members are left out when unset. A
kind or severity without a value of its own is its name, and is also read from an object that
has `null` under that name.
-/

namespace Deadwood

/-- The JSON of a severity. -/
def Severity.toJson (s : Severity) : Json := .str s.name

/-- The severity of a name. -/
def Severity.ofName? (name : String) : Option Severity :=
  [Severity.info, .warning, .error].find? fun s => s.name == name

/-- The name under which a choice without a value stands. -/
def Json.choice? : Json → Option String
  | .str name => some name
  | .obj [(name, .null)] => some name
  | _ => none

/-- Reads a severity. -/
def Severity.ofJson? (v : Json) : Option Severity := v.choice?.bind Severity.ofName?

/-- The JSON of a kind: the name of a built-in one, and an object for an external one. -/
def IssueKind.toJson : IssueKind → Json
  | .external n => .obj [("external", .str n)]
  | k => .str k.name

/-- Reads a kind. -/
def IssueKind.ofJson? : Json → Option IssueKind
  | .obj [("external", .str n)] => some (.external n)
  | v => v.choice?.bind fun name =>
    [IssueKind.deadFile, .unusedImport].find? fun k => k.name == name

namespace Issue

/-- The JSON of an issue. -/
def toJson (i : Issue) : Json :=
  .obj ([("kind", i.kind.toJson), ("file", .str i.file.text)] ++
    Json.optional "line" (i.line.map .ofNat) ++ Json.optional "symbol" (i.symbol.map .str) ++
    [("message", .str i.message), ("severity", i.severity.toJson)] ++
    Json.optional "flavor" (i.flavor.map .str))

/-- Reads an issue. The line, the symbol and the flavor may be left out or `null`. -/
def ofJson? (v : Json) : Option Issue := do
  let members ← v.record? ["kind", "file", "line", "symbol", "message", "severity", "flavor"]
  match members with
  | [some kind, some file, line, symbol, some message, some severity, flavor] =>
    some {
      kind := ← IssueKind.ofJson? kind
      file := ⟨← file.text?⟩
      line := ← (line.getD .null).optional? Json.nat?
      symbol := ← (symbol.getD .null).optional? Json.text?
      message := ← message.text?
      severity := ← Severity.ofJson? severity
      flavor := ← (flavor.getD .null).optional? Json.text? }
  | _ => none

/-- The JSON of a list of issues. -/
def listToJson (issues : List Issue) : Json := .arr (issues.map toJson)

/-- Reads a list of issues. -/
def listOfJson? (v : Json) : Option (List Issue) := do (← v.list?).mapM ofJson?

end Issue
end Deadwood
