import Deadwood.Path.Relative

/-!
# Issues

What is reported about a file: what kind of issue it is, where, and how severe. Issues are put
into a report in the order of `Issue.compare`.
-/

namespace Deadwood

/-- How much an issue matters, least first. -/
inductive Severity where
  | info
  | warning
  | error
  deriving Repr, DecidableEq, Inhabited

namespace Severity

/-- The name of a severity. -/
def name : Severity → String
  | info => "info"
  | warning => "warning"
  | error => "error"

/-- The place of a severity in their order. -/
def rank : Severity → Nat
  | info => 0
  | warning => 1
  | error => 2

/-- Does the severity reach the threshold? -/
def reaches (threshold s : Severity) : Bool := threshold.rank ≤ s.rank

end Severity

/-- What an issue is about. -/
inductive IssueKind where
  /-- A file that no entry point leads to. -/
  | deadFile
  /-- An imported name that its file does not use. -/
  | unusedImport
  /-- What an analyzer of another origin found, under its own name. -/
  | external (name : String)
  deriving Repr, DecidableEq, Inhabited

namespace IssueKind

/-- The name of a kind. -/
def name : IssueKind → String
  | deadFile => "dead-file"
  | unusedImport => "unused-import"
  | external n => n

/-- The code under which a kind is documented. -/
def code : IssueKind → String
  | deadFile => "SX001"
  | unusedImport => "SX002"
  | external _ => "SX100"

/-- The severity of an issue of this kind, unless its finder says otherwise. -/
def severity : IssueKind → Severity
  | deadFile => .warning
  | unusedImport => .info
  | external _ => .warning

/-- The place of a kind in the order of kinds. -/
def rank : IssueKind → Nat
  | deadFile => 0
  | unusedImport => 1
  | external _ => 2

/-- The order of kinds; external ones go by their names. -/
def compare (a b : IssueKind) : Ordering :=
  match a, b with
  | external m, external n => Ord.compare m n
  | a, b => Ord.compare a.rank b.rank

end IssueKind

/-- An issue found in a file. -/
structure Issue where
  kind : IssueKind
  file : Path
  /-- The line, where the issue is about a statement. -/
  line : Option Nat
  /-- The name that the issue is about, where there is one. -/
  symbol : Option String
  message : String
  severity : Severity
  /-- The dialect of the language that the issue is peculiar to. -/
  flavor : Option String
  deriving Repr, DecidableEq, Inhabited

namespace Issue

/-- An issue about a whole file, with the severity of its kind. -/
def ofKind (kind : IssueKind) (file : Path) (message : String) : Issue :=
  { kind, file, line := none, symbol := none, message, severity := kind.severity, flavor := none }

/-- The order of optional texts: none first. -/
def compareSymbol : Option String → Option String → Ordering
  | none, none => .eq
  | none, some _ => .lt
  | some _, none => .gt
  | some a, some b => Ord.compare a b

/-- The order of issues in a report: by file, kind, line, symbol and message. An issue without a
    line comes first. -/
def compare (a b : Issue) : Ordering :=
  (a.file.compare b.file).then <|
    (a.kind.compare b.kind).then <|
      (Ord.compare (a.line.getD 0) (b.line.getD 0)).then <|
        (compareSymbol a.symbol b.symbol).then (Ord.compare a.message b.message)

/-- Is the first issue at or before the second one? -/
def le (a b : Issue) : Bool := (a.compare b).isLE

/-- Are two issues the same, whichever way their file is spelled? -/
def same (a b : Issue) : Bool :=
  a.file.same b.file && a.kind == b.kind && a.line == b.line && a.symbol == b.symbol &&
    a.message == b.message && a.severity == b.severity && a.flavor == b.flavor

end Issue
end Deadwood
