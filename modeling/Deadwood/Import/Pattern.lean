import Deadwood.Import.Basic

/-!
# The shapes of an import

Five recognisers, one per form of reference. A recogniser looks at one place of a text: it is
given the character before that place, if any, and the characters from there on, and it answers
what it found and how many characters that takes. Nothing is parsed in the sense of a grammar:
a keyword at the start of a line or after a `;` is taken at its word, so an import inside a
template literal is found and one behind `//` is not.

`findAll` walks a recogniser over a text from left to right and goes on behind each find.
-/

namespace Deadwood.Import

open Text

/-- What a recogniser found. -/
structure Find (α : Type) where
  /-- How many characters stand before the keyword. All of them take one byte. -/
  lead : Nat
  /-- How many characters the find takes, `lead` included. -/
  size : Nat
  value : α
  deriving Repr, DecidableEq

/-- A find with its place in the text. -/
structure Located (α : Type) where
  /-- The byte offset of the keyword. -/
  start : Nat
  /-- The byte offset right after the find. -/
  stop : Nat
  value : α
  deriving Repr, DecidableEq

/-- A recogniser: the character before the place, and the text from there on. -/
abbrev Recogniser (α : Type) := Option Char → List Char → Option (Find α)

/-- All finds from left to right. A find is passed over whole, so finds do not overlap: `skip`
    counts its characters that are still ahead. -/
def findAllFrom {α : Type} (r : Recogniser α) :
    Nat → Option Char → Nat → List Char → List (Located α)
  | _, _, _, [] => []
  | skip + 1, _, offset, c :: cs => findAllFrom r skip (some c) (offset + c.utf8Size) cs
  | 0, before, offset, c :: cs =>
    match r before (c :: cs) with
    | some f =>
      { start := offset + f.lead
        stop := offset + byteLength ((c :: cs).take f.size)
        value := f.value } :: findAllFrom r (f.size - 1) (some c) (offset + c.utf8Size) cs
    | none => findAllFrom r 0 (some c) (offset + c.utf8Size) cs

/-- All finds of a recogniser in a text. -/
def findAll {α : Type} (r : Recogniser α) (text : List Char) : List (Located α) :=
  findAllFrom r 0 none 0 text

/-- The keyword `import`. -/
def importWord : List Char := ['i', 'm', 'p', 'o', 'r', 't']

/-- The keyword `export`. -/
def exportWord : List Char := ['e', 'x', 'p', 'o', 'r', 't']

/-- The name `require`. -/
def requireWord : List Char := ['r', 'e', 'q', 'u', 'i', 'r', 'e']

/-- The keyword `from`. -/
def fromWord : List Char := ['f', 'r', 'o', 'm']

/-- The keyword `type`. -/
def typeWord : List Char := ['t', 'y', 'p', 'e']

/-- The keyword `as`. -/
def asWord : List Char := ['a', 's']

/-- May the character stand in a specifier? -/
def isSpecifierChar (c : Char) : Bool := !(isQuote c || c == '\r' || c == '\n')

/-- A specifier in quotes, and the text behind the closing quote. The two quotes need not be the
    same. -/
def quoted? : List Char → Option (List Char × List Char)
  | [] => none
  | q :: cs =>
    match isQuote q, cs.takeWhile isSpecifierChar, cs.dropWhile isSpecifierChar with
    | true, s :: specifier, q' :: rest => if isQuote q' then some (s :: specifier, rest) else none
    | _, _, _ => none

/-- `from` and a quoted specifier. -/
def source? (text : List Char) : Option (List Char × List Char) :=
  (afterLiteral fromWord text).bind fun rest => quoted? (rest.dropWhile isGap)

/-- The source behind a clause that ends in `last`. The `from` starts a word of its own. -/
def sourceAfter? (last : Char) (text : List Char) : Option (List Char × List Char) :=
  if text.head?.any isGap || !isWord last then source? (text.dropWhile isGap) else none

/-- What stands between `import` and the end of the specifier. -/
structure StaticImport where
  typeOnly : Bool
  clause : List Char
  specifier : List Char
  deriving Repr, DecidableEq

/-- The shortest clause of one or more characters that a source follows, the specifier, and the
    text behind it. A clause holds neither quote nor `;`. -/
def clause? : List Char → Option (List Char × List Char × List Char)
  | [] => none
  | c :: cs =>
    if isQuote c || c == ';' then none
    else match sourceAfter? c cs with
      | some (specifier, rest) => some ([c], specifier, rest)
      | none => (clause? cs).map fun found => (c :: found.1, found.2)

/-- The first answer over the ways to pass one or more blanks, most blanks first. -/
def passBlanks {β : Type} (text : List Char) (next : List Char → Option β) : Option β :=
  (List.range (text.takeWhile isBlank).length).reverse.findSome? fun n => next (text.drop (n + 1))

/-- A clause with its source, as part of an `import` that is or is not an `import type`. -/
def clauseOf (typeOnly : Bool) (text : List Char) : Option (StaticImport × List Char) :=
  (clause? text).map fun (clause, specifier, rest) => (⟨typeOnly, clause, specifier⟩, rest)

/-- `type` is read as a keyword if the rest still makes an import, and else as a name. -/
def typedClause? (text : List Char) : Option (StaticImport × List Char) :=
  ((afterLiteral typeWord text).bind fun rest => passBlanks rest (clauseOf true)).or
    (clauseOf false text)

/-- The text behind what may stand before a statement's keyword: a `;` or a line start, then
    blanks. -/
def statementStart? (before : Option Char) : List Char → Option (List Char)
  | ';' :: cs => some (cs.dropWhile isBlank)
  | cs => if before.all (· == '\n') then some (cs.dropWhile isBlank) else none

/-- Does a word start at a place with this character before it? -/
def startsWord (before : Option Char) : Bool := !before.any isWord

/-- A find that starts at `text`, has its keyword at `keyword` and ends before `rest`. -/
def findBetween {α : Type} (text keyword rest : List Char) (value : α) : Find α :=
  { lead := text.length - keyword.length, size := text.length - rest.length, value }

/-- `import`, a clause and a source. -/
def static? : Recogniser (StaticImport × List Char) := fun before text => do
  let keyword ← statementStart? before text
  let body ← afterLiteral importWord keyword
  let (found, rest) ← passBlanks body typedClause?
  return findBetween text keyword rest (found, rest)

/-- `import` and a specifier. -/
def sideEffect? : Recogniser (List Char) := fun before text => do
  let keyword ← statementStart? before text
  let body ← afterLiteral importWord keyword
  let (specifier, rest) ← quoted? (body.dropWhile isBlank)
  return findBetween text keyword rest specifier

/-- May the character stand in the name of a re-exported namespace? -/
def isAliasChar (c : Char) : Bool := isWord c || c == '$'

/-- A source behind gaps. -/
def gapSource? (text : List Char) : Option (List Char × List Char) :=
  source? (text.dropWhile isGap)

/-- ` as name` and a source. The name is as long as it can be with a source behind it. -/
def aliasSource? (text : List Char) : Option (List Char × List Char) :=
  passBlanks text fun word =>
    (afterLiteral asWord word).bind fun rest =>
      passBlanks rest fun name =>
        (List.range (name.takeWhile isAliasChar).length).reverse.findSome? fun n =>
          gapSource? (name.drop (n + 1))

/-- What a re-export lists, `*` or names in braces, and its source. -/
def exported? : List Char → Option (List Char × List Char)
  | '*' :: cs => (aliasSource? cs).or (gapSource? cs)
  | '{' :: cs =>
    match cs.dropWhile (· != '}') with
    | _ :: rest => gapSource? rest
    | [] => none
  | _ => none

/-- `export`, a list of names and a source. -/
def reExport? : Recogniser (List Char) := fun before text => do
  let keyword ← statementStart? before text
  let body ← afterLiteral exportWord keyword
  let (specifier, rest) ← passBlanks body fun listed =>
    ((afterLiteral typeWord listed).bind fun rest => passBlanks rest exported?).or
      (exported? listed)
  return findBetween text keyword rest specifier

/-- A specifier in quotes and parentheses. -/
def argument? (text : List Char) : Option (List Char × List Char) := do
  let inside ← afterLiteral ['('] (text.dropWhile isBlank)
  let (specifier, rest) ← quoted? (inside.dropWhile isBlank)
  let behind ← afterLiteral [')'] (rest.dropWhile isBlank)
  return (specifier, behind)

/-- A word with a specifier as its argument. -/
def call? (word : List Char) : Recogniser (List Char) := fun before text => do
  guard (startsWord before)
  let body ← afterLiteral word text
  let (specifier, rest) ← argument? body
  return findBetween text text rest specifier

/-- `require` and a specifier. -/
def require? : Recogniser (List Char) := call? requireWord

/-- `import` and a specifier in parentheses. -/
def dynamic? : Recogniser (List Char) := call? importWord

end Deadwood.Import
