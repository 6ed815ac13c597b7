import Deadwood.Import.Extract

/-!
# Printed declarations

Imports and re-exports as they are usually written, one on a line: the names and specifiers they
are made of, how they are printed, and what a reader should find in the printed text.

The parts carry what makes them well formed. A `Name` can be bound, a `Specifier` holds neither
quotes nor line ends, and a list in an import has no item that could be taken for another one.
-/

namespace Deadwood.Import

open Text

/-- A name that can be bound. -/
structure Name where
  chars : List Char
  isIdentifier : isIdentifier chars = true

/-- What may stand between the quotes of a declaration. -/
structure Specifier where
  chars : List Char
  ne_nil : chars ≠ []
  plain : ∀ c ∈ chars, isSpecifierChar c = true

/-- One or more blanks. -/
structure IsBlanks (cs : List Char) : Prop where
  ne_nil : cs ≠ []
  blank : ∀ c ∈ cs, isBlank c = true

/-- What stands between a `;` and a brace where a re-export opens a list: `export` or
    `export type`, with blanks. -/
def IsListOpening (cs : List Char) : Prop :=
  ∃ lead gap, (∀ c ∈ lead, isBlank c = true) ∧ IsBlanks gap ∧
    (cs = lead ++ exportWord ++ gap ∨
      ∃ gap', IsBlanks gap' ∧ cs = lead ++ exportWord ++ gap ++ typeWord ++ gap')

/-- Where the specifier reads as if a re-export opened a list in it, it also closes the list. -/
def Specifier.ClosesLists (s : Specifier) : Prop :=
  ∀ before opening inside, s.chars = before ++ ';' :: opening ++ '{' :: inside →
    IsListOpening opening → '}' ∈ inside

/-- An item in braces: `a`, `a as b`, `type a` or `type a as b`. -/
structure ListItem where
  typeOnly : Bool
  name : Name
  /-- The name behind `as`. -/
  renamed : Option Name

/-- The item does not read like a `type` item: it is one, or is not renamed, or its name is not
    `type`. -/
def ListItem.IsClear (i : ListItem) : Prop :=
  i.typeOnly = false → i.renamed ≠ none → i.name.chars ≠ typeWord

/-- What an import binds. -/
inductive Clause where
  | default (name : Name)
  | namespaceAlias (first : Option Name) (name : Name)
  | named (first : Option Name) (items : List ListItem) (clear : ∀ i ∈ items, i.IsClear)

/-- What a re-export passes on. -/
inductive Exports where
  | all
  | allAs (name : Name) (ascii : ∀ c ∈ name.chars, isAscii c = true)
  | listed (items : List ListItem)

/-- What stands before the specifier of a declaration. -/
inductive Shape where
  | sideEffect
  | binding (typeOnly : Bool) (clause : Clause)
  | reExport (exports : Exports)

/-- A declaration, with the quote around its specifier and with or without a `;` at its end. -/
structure Declaration where
  shape : Shape
  specifier : Specifier
  quote : Char
  isQuote : isQuote quote = true
  ended : Bool

/-! ## Printing -/

/-- The keyword, followed by a blank, where it is asked for. -/
def typeMark (typeOnly : Bool) : List Char := if typeOnly then typeWord ++ [' '] else []

def ListItem.chars (i : ListItem) : List Char :=
  typeMark i.typeOnly ++ i.name.chars ++
    i.renamed.elim [] fun n => ' ' :: asWord ++ ' ' :: n.chars

/-- The items with commas between them. -/
def itemsChars : List ListItem → List Char
  | [] => []
  | [i] => i.chars
  | i :: rest => i.chars ++ ',' :: ' ' :: itemsChars rest

/-- The items in braces. -/
def listChars (items : List ListItem) : List Char :=
  if items.isEmpty then ['{', '}'] else '{' :: ' ' :: itemsChars items ++ [' ', '}']

/-- A default name, where more follows it. -/
def firstChars (first : Option Name) : List Char := first.elim [] fun n => n.chars ++ [',', ' ']

/-- `* as` and a name. -/
def starChars (name : Name) : List Char := '*' :: ' ' :: asWord ++ ' ' :: name.chars

def Clause.chars : Clause → List Char
  | .default name => name.chars
  | .namespaceAlias first name => firstChars first ++ starChars name
  | .named first items _ => firstChars first ++ listChars items

def Exports.chars : Exports → List Char
  | .all => ['*']
  | .allAs name _ => starChars name
  | .listed items => listChars items

/-- ` from `. -/
def fromMark : List Char := ' ' :: fromWord ++ [' ']

/-- The text up to the opening quote. -/
def Shape.chars : Shape → List Char
  | .sideEffect => importWord ++ [' ']
  | .binding typeOnly clause => importWord ++ ' ' :: typeMark typeOnly ++ clause.chars ++ fromMark
  | .reExport exports => exportWord ++ ' ' :: exports.chars ++ fromMark

namespace Declaration

/-- The text behind the closing quote, up to the end of the line. -/
def ending (d : Declaration) : List Char := if d.ended then [';'] else []

/-- The text of a declaration. -/
def chars (d : Declaration) : List Char :=
  d.shape.chars ++ d.quote :: d.specifier.chars ++ d.quote :: d.ending

/-- The line of a declaration. -/
def line (d : Declaration) : List Char := d.chars ++ ['\n']

end Declaration

/-- The declarations, one on a line. -/
def print (ds : List Declaration) : List Char := ds.flatMap Declaration.line

/-! ## What is to be found -/

def ListItem.binding (typeOnly : Bool) (i : ListItem) : Binding :=
  { name := String.ofList (i.renamed.getD i.name).chars
    source := i.renamed.map fun _ => String.ofList i.name.chars
    kind := .named
    typeOnly := typeOnly || i.typeOnly }

/-- The binding of a default name. -/
def Name.default (typeOnly : Bool) (n : Name) : Binding :=
  ⟨String.ofList n.chars, none, .default, typeOnly⟩

def Clause.bindings (typeOnly : Bool) : Clause → List Binding
  | .default name => [name.default typeOnly]
  | .namespaceAlias first name =>
    (first.map (·.default typeOnly)).toList ++
      [⟨String.ofList name.chars, none, .namespaceAlias, typeOnly⟩]
  | .named first items _ =>
    (first.map (·.default typeOnly)).toList ++ items.map (·.binding typeOnly)

def Shape.form : Shape → Form
  | .sideEffect => .sideEffect
  | .binding _ _ => .static
  | .reExport _ => .reExport

namespace Declaration

/-- The reference that a declaration at the offset and on the line makes. -/
def reference (d : Declaration) (offset line : Nat) : Reference :=
  { specifier := String.ofList d.specifier.chars, offset, line, form := d.shape.form }

/-- The statement that a declaration makes, if it binds names. -/
def statement? (d : Declaration) (offset line : Nat) : Option Statement :=
  match d.shape with
  | .binding typeOnly clause =>
    some {
      specifier := String.ofList d.specifier.chars
      start := offset
      stop := offset + byteLength d.chars
      line, typeOnly
      bindings := clause.bindings typeOnly }
  | _ => none

end Declaration

/-- The references of declarations that are printed from an offset and a line on. -/
def referencesFrom (offset line : Nat) : List Declaration → List Reference
  | [] => []
  | d :: ds =>
    d.reference offset line :: referencesFrom (offset + byteLength d.line) (line + 1) ds

/-- The statements of declarations that are printed from an offset and a line on. -/
def statementsFrom (offset line : Nat) : List Declaration → List Statement
  | [] => []
  | d :: ds =>
    (d.statement? offset line).toList ++ statementsFrom (offset + byteLength d.line) (line + 1) ds

end Deadwood.Import
