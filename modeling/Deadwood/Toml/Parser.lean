import Deadwood.Toml.Scalar

/-!
# TOML documents

A document is a list of lines: headers, which open a table, and members of the table that was opened
last. An array may go on over several lines, a table in braces may not.
-/

namespace Deadwood.Toml

/-- Passes blanks. -/
def passBlanks (cs : List Char) : List Char := cs.dropWhile isBlank

/-- Passes a comment, if one follows. -/
def comment? : List Char → Option (List Char)
  | '#' :: cs =>
    let line := cs.takeWhile (· != '\n')
    if line.all isAllowed then some (cs.drop line.length) else none
  | cs => some cs

/-- Passes blanks, comments and line ends; `fuel` is the number of lines. -/
def passLines : Nat → List Char → Option (List Char)
  | 0, cs => some cs
  | fuel + 1, cs => do
    match ← comment? (passBlanks cs) with
    | '\n' :: rest => passLines fuel rest
    | rest => some rest

/-- Passes blanks, comments and line ends. -/
def passGaps (cs : List Char) : Option (List Char) := passLines (cs.length + 1) cs

/-- Is it a character of a name without quotes? -/
def isBare (c : Char) : Bool := c.isAlphanum || c == '-' || c == '_'

/-- Reads a name. -/
def name? : List Char → Option (String × List Char)
  | '"' :: cs => (lineFrom '"' .text [] cs).map fun t => (String.ofList t.1, t.2)
  | '\'' :: cs => (lineFrom '\'' .text [] cs).map fun t => (String.ofList t.1, t.2)
  | cs =>
    let name := cs.takeWhile isBare
    if name.isEmpty then none else some (String.ofList name, cs.drop name.length)

/-- Reads a key: names with dots between them. -/
def key? : Nat → List Char → Option (List String × List Char)
  | 0, _ => none
  | fuel + 1, cs => do
    let (name, rest) ← name? (passBlanks cs)
    match passBlanks rest with
    | '.' :: more =>
      let (names, rest) ← key? fuel more
      return (name :: names, rest)
    | rest => return ([name], rest)

mutual

/-- Reads a value. -/
def value? : Nat → List Char → Option (Toml × List Char)
  | 0, _ => none
  | fuel + 1, cs =>
    match cs with
    | '"' :: rest => (string? '"' rest).map fun t => (.str (String.ofList t.1), t.2)
    | '\'' :: rest => (string? '\'' rest).map fun t => (.str (String.ofList t.1), t.2)
    | '[' :: rest => do
      let (items, rest) ← items? fuel (← passGaps rest)
      return (.arr items, rest)
    -- a table on one line: no line ends between its braces
    | '\x7b' :: rest => do
      match passBlanks rest with
      | '\x7d' :: rest => return (.table .inline [], rest)
      | rest =>
        let (members, rest) ← members? [] fuel rest
        return (.table .inline members, rest)
    | cs => do
      let (word, rest) := splitWord cs
      return (← wordValue? word, rest)

/-- Reads the items of an array up to its closing bracket. A comma may stand behind the last one. -/
def items? : Nat → List Char → Option (List Toml × List Char)
  | 0, _ => none
  | fuel + 1, cs => do
    match cs with
    -- also behind a last comma
    | ']' :: rest => return ([], rest)
    | cs =>
      let (item, rest) ← value? fuel cs
      match ← passGaps rest with
      | ',' :: rest =>
        let (items, rest) ← items? fuel (← passGaps rest)
        return (item :: items, rest)
      | ']' :: rest => return ([item], rest)
      | _ => none

/-- Reads the members of a table in braces, behind those that were read before. -/
def members? (before : Members) : Nat → List Char → Option (Members × List Char)
  | 0, _ => none
  | fuel + 1, cs => do
    let (names, rest) ← key? (cs.length + 1) cs
    match rest with
    | '=' :: rest =>
      let (v, rest) ← value? fuel (passBlanks rest)
      let members ← before.add names.dropLast (names.getLast?.getD "") v
      match passBlanks rest with
      -- unlike in a list, a member must follow the comma
      | ',' :: rest => members? members fuel rest
      | '\x7d' :: rest => return (members, rest)
      | _ => none
    | _ => none

end

/-- What has been read of a document: its tables, and the path to the one that was opened last. -/
structure Progress where
  top : Members
  path : List String

/-- Reads a header from behind its first bracket. -/
def header? (p : Progress) (cs : List Char) : Option (Progress × List Char) := do
  match cs with
  | '[' :: cs =>
    let (names, rest) ← key? (cs.length + 1) cs
    match rest with
    | ']' :: ']' :: rest =>
      -- two brackets: one more table of a list of tables
      let top ← p.top.change names.dropLast (Members.openTables (names.getLast?.getD ""))
      return (⟨top, names⟩, rest)
    | _ => none
  | cs =>
    let (names, rest) ← key? (cs.length + 1) cs
    match rest with
    | ']' :: rest =>
      let top ← p.top.change names.dropLast (Members.openTable (names.getLast?.getD ""))
      return (⟨top, names⟩, rest)
    | _ => none

/-- Reads a member of the table that was opened last. -/
def member? (p : Progress) (cs : List Char) : Option (Progress × List Char) := do
  let (names, rest) ← key? (cs.length + 1) cs
  match rest with
  | '=' :: rest =>
    let (v, rest) ← value? (2 * rest.length + 2) (passBlanks rest)
    let top ← p.top.change p.path (Members.add names.dropLast (names.getLast?.getD "") v)
    return ({ p with top }, rest)
  | _ => none

/-- Reads the lines of a document; `fuel` is the number of them. -/
def lines? : Nat → Progress → List Char → Option Members
  | 0, p, _ => some p.top
  | fuel + 1, p, cs => do
    -- the line ends and the comment are left for the check below
    let (p, rest) ← match passBlanks cs with
      | [] => some (p, [])
      | '\n' :: rest => some (p, '\n' :: rest)
      | '#' :: rest => some (p, '#' :: rest)
      | '[' :: rest => header? p rest
      | cs => member? p cs
    match ← comment? (passBlanks rest) with
    | [] => some p.top
    | '\n' :: rest => lines? fuel p rest
    | _ => none

/-- The text with line ends written as one character each. -/
def unifyLines : List Char → List Char
  | '\r' :: '\n' :: cs => '\n' :: unifyLines cs
  | c :: cs => c :: unifyLines cs
  | [] => []

/-- Reads a text as a document. -/
def parse? (text : String) : Option Toml := do
  let cs := unifyLines text.toList
  let cs := match cs with
    | '\uFEFF' :: cs => cs
    | cs => cs
  let members ← lines? (cs.length + 1) ⟨[], []⟩ cs
  return .table .header members

end Deadwood.Toml
