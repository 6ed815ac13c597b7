import Deadwood.Text.Piece

/-!
# Imports

What a source text says about other modules: references to them, each with the place and the
form in which it is written, and import statements with the names that they bind.
-/

namespace Deadwood.Import

/-- How a reference to a module is written. -/
inductive Form where
  /-- `import a, { b } from "m"` -/
  | static
  /-- `import "m"` -/
  | sideEffect
  /-- `export { a } from "m"`, `export * from "m"` -/
  | reExport
  /-- `require("m")` -/
  | require
  /-- `import("m")` -/
  | dynamic
  deriving Repr, DecidableEq

/-- Does the specifier name a file, relative to the importing file or absolute, rather than a
    package? -/
def isLocal (specifier : String) : Bool :=
  match specifier.toList with
  | c :: _ => c == '.' || c == '/'
  | [] => false

/-- A reference to another module. -/
structure Reference where
  /-- The text between the quotes. -/
  specifier : String
  /-- The byte offset of the keyword. -/
  offset : Nat
  /-- The line of the keyword. -/
  line : Nat
  form : Form
  deriving Repr, DecidableEq

/-- Does the reference name a file? -/
def Reference.isLocal (r : Reference) : Bool := Import.isLocal r.specifier

/-- How an import statement binds a name. -/
inductive BindingKind where
  /-- `import a from "m"` -/
  | default
  /-- `import * as a from "m"` -/
  | namespaceAlias
  /-- `import { a } from "m"` -/
  | named
  deriving Repr, DecidableEq

/-- A name that an import statement brings into its file. -/
structure Binding where
  /-- The name in this file. -/
  name : String
  /-- The exported name, where `as` gives it another name here. -/
  source : Option String
  kind : BindingKind
  /-- Is only a type bound? -/
  typeOnly : Bool
  deriving Repr, DecidableEq

/-- An import statement that binds names. -/
structure Statement where
  specifier : String
  /-- The byte offset of the keyword. -/
  start : Nat
  /-- The byte offset right after the statement, its `;` included. -/
  stop : Nat
  /-- The line of the keyword. -/
  line : Nat
  /-- Is it an `import type`? -/
  typeOnly : Bool
  bindings : List Binding
  deriving Repr, DecidableEq

/-- Everything that a text says about other modules, in the order of the text. -/
structure Extraction where
  references : List Reference
  statements : List Statement
  deriving Repr, DecidableEq

/-- May the character start a name? -/
def isNameStart (c : Char) : Bool := Text.isLetter c || c == '_' || c == '$'

/-- May the character continue a name? -/
def isNamePart (c : Char) : Bool :=
  Text.isLetter c || Text.isNumeral c || c == '_' || c == '$'

/-- Is the text a name that can be bound? -/
def isIdentifier : List Char → Bool
  | [] => false
  | c :: cs => isNameStart c && cs.all isNamePart

end Deadwood.Import
