import Deadwood.Json.Parser
import Deadwood.Yaml.Basic

/-!
# YAML scalars

How the texts of scalars are read: plain ones, which end where the structure goes on; quoted ones
with their escapes; and blocks of indented lines. In plain and quoted scalars a line break becomes
a blank, and further ones after it are kept.

All readers work on texts whose line ends are written as one character each.
-/

namespace Deadwood.Yaml

/-- A place in a text. -/
structure Mark where
  index : Nat
  line : Nat
  column : Nat
  deriving Repr, DecidableEq, Inhabited

/-- Is it a line break? -/
def isBreak (c : Char) : Bool := c == '\n' || c == '\u2028' || c == '\u2029'

/-- Is it a blank or a tab? -/
def isGapChar (c : Char) : Bool := c == ' ' || c == '\t'

/-- Is it white space? -/
def isWhite (c : Char) : Bool := isGapChar c || isBreak c

/-- Does white space or the end of the text follow? -/
def atWhite (cs : List Char) : Bool := cs.head?.all isWhite

/-- The place behind a character. -/
def Mark.after (m : Mark) (c : Char) : Mark :=
  if isBreak c then ⟨m.index + 1, m.line + 1, 0⟩ else ⟨m.index + 1, m.line, m.column + 1⟩

/-- The place behind some characters. -/
def Mark.afterAll (m : Mark) (cs : List Char) : Mark := cs.foldl Mark.after m

/-- Does one of the marks that separate documents stand here, at the start of a line? -/
def atDocumentMark (m : Mark) (cs : List Char) : Bool :=
  m.column == 0 && (cs.take 3 == ['-', '-', '-'] || cs.take 3 == ['.', '.', '.']) &&
    atWhite (cs.drop 3)

/-- What has been read of a text: its characters up to here, where that is, and what follows. -/
structure Piece where
  text : List Char
  mark : Mark
  rest : List Char

/-- White space between the words of a scalar. -/
structure Gap where
  /-- The blanks before the first line break, last first. -/
  blanks : List Char := []
  /-- Has there been a line break? -/
  broken : Bool := false
  /-- The first line break, unless it was escaped. -/
  first : Option Char := none
  /-- The further line breaks, last first. -/
  more : List Char := []

namespace Gap

/-- The gap with one more character of white space. -/
def add (g : Gap) (c : Char) : Gap :=
  if isBreak c then
    if g.broken then { g with more := c :: g.more }
    else { g with blanks := [], broken := true, first := some c }
  else if g.broken then g
  else { g with blanks := c :: g.blanks }

/-- A text, last character first, with what a gap behind it stands for. -/
def close (g : Gap) (text : List Char) : List Char :=
  if g.broken then
    match g.first with
    | some '\n' => if g.more.isEmpty then ' ' :: text else g.more ++ text
    | some c => g.more ++ c :: text
    | none => g.more ++ text
  else g.blanks ++ text

end Gap

/-! ## Plain scalars -/

/-- Is it a character of the structure inside brackets and braces? -/
def isFlowMark (c : Char) : Bool :=
  c == ',' || c == '[' || c == ']' || c == '\x7b' || c == '\x7d'

/-- A plain scalar, and whether white space with a line break follows it. -/
structure Plain where
  piece : Piece
  broken : Bool

/-- Reads a plain scalar from the middle: with the text up to here, last character first, and the
    white space behind it. The scalar goes on over lines that are indented enough. -/
def plainFrom (flow : Bool) (indent : Int) (text : List Char) (gap : Option Gap) (mark : Mark) :
    List Char → Option Plain
  | [] => some ⟨⟨text.reverse, mark, []⟩, gap.any (·.broken)⟩
  | c :: cs =>
    let ended : Option Plain := some ⟨⟨text.reverse, mark, c :: cs⟩, gap.any (·.broken)⟩
    if isWhite c then
      let broken := gap.any (·.broken)
      if c == '\t' && broken && mark.column < indent then none
      else plainFrom flow indent text (some ((gap.getD {}).add c)) (mark.after c) cs
    -- from here on: what ends the text before this character
    else if gap.any (·.broken) && !flow && mark.column < indent then ended
    else if gap.isSome && (c == '#' || atDocumentMark mark (c :: cs)) then ended
    else if flow && c == ':' && cs.head?.any (fun d => isFlowMark d || d == '?') then none
    else if (c == ':' && atWhite cs) || (flow && isFlowMark c) then ended
    else plainFrom flow indent (c :: (gap.elim text (·.close text))) none (mark.after c) cs

/-! ## Quoted scalars -/

/-- The character that a letter stands for behind a backslash. -/
def escaped? (c : Char) : Option Char :=
  if c == '0' then some (Char.ofNat 0)
  else if c == 'a' then some (Char.ofNat 7)
  else if c == 'b' then some (Char.ofNat 8)
  else if c == 't' || c == '\t' then some '\t'
  else if c == 'n' then some '\n'
  else if c == 'v' then some (Char.ofNat 11)
  else if c == 'f' then some (Char.ofNat 12)
  else if c == 'r' then some '\r'
  else if c == 'e' then some (Char.ofNat 27)
  else if c == ' ' || c == '"' || c == '/' || c == '\\' then some c
  else if c == 'N' then some (Char.ofNat 0x85)
  else if c == '_' then some (Char.ofNat 0xA0)
  else if c == 'L' then some (Char.ofNat 0x2028)
  else if c == 'P' then some (Char.ofNat 0x2029)
  else none

/-- The number of digits behind a backslash and a letter that announces a code. -/
def codeLength? (c : Char) : Option Nat :=
  if c == 'x' then some 2 else if c == 'u' then some 4 else if c == 'U' then some 8 else none

/-- The character of a code, if there is one. -/
def ofCode? (code : Nat) : Option Char :=
  if code < 0xD800 || (0xDFFF < code && code < 0x110000) then some (Char.ofNat code) else none

/-- What a quoted scalar is in the middle of. -/
inductive Within where
  /-- Behind a word, or behind some white space. -/
  | words (gap : Option Gap)
  /-- Behind a backslash. -/
  | backslash
  /-- In a code, with so many digits to come. -/
  | code (digits value : Nat)
  /-- Behind the first of two quotes. -/
  | quote

/-- Reads a scalar in double quotes from the middle, up to the closing quote. -/
def doubleFrom (within : Within) (text : List Char) (mark : Mark) : List Char → Option Piece
  | [] => none
  | c :: cs =>
    let next := mark.after c
    match within with
    | .words gap =>
      if isWhite c then doubleFrom (.words (some ((gap.getD {}).add c))) text next cs
      else
        let text := gap.elim text (·.close text)
        if gap.isSome && atDocumentMark mark (c :: cs) then none
        else if c == '"' then some ⟨text.reverse, next, cs⟩
        else if c == '\\' then doubleFrom .backslash text next cs
        else doubleFrom (.words none) (c :: text) next cs
    | .backslash =>
      -- a line end behind a backslash joins the lines
      if isBreak c then doubleFrom (.words (some { broken := true })) text next cs
      else match escaped? c, codeLength? c with
        | some d, _ => doubleFrom (.words none) (d :: text) next cs
        | none, some digits => doubleFrom (.code digits 0) text next cs
        | none, none => none
    | .code digits value =>
      (Json.hexValue? c).bind fun d =>
        let value := value * 16 + d
        if digits ≤ 1 then
          (ofCode? value).bind fun e => doubleFrom (.words none) (e :: text) next cs
        else doubleFrom (.code (digits - 1) value) text next cs
    | .quote => none

/-- Reads a scalar in single quotes from the middle, up to the closing quote. Two quotes stand for
    one. -/
def singleFrom (within : Within) (text : List Char) (mark : Mark) : List Char → Option Piece
  | [] =>
    match within with
    -- a second quote stands for one, anything else is behind the end
    | .quote => some ⟨text.reverse, mark, []⟩
    | _ => none
  | c :: cs =>
    let next := mark.after c
    match within with
    | .words gap =>
      if isWhite c then singleFrom (.words (some ((gap.getD {}).add c))) text next cs
      else
        let text := gap.elim text (·.close text)
        if gap.isSome && atDocumentMark mark (c :: cs) then none
        else if c == '\'' then singleFrom .quote text next cs
        else singleFrom (.words none) (c :: text) next cs
    | .quote =>
      if c == '\'' then singleFrom (.words none) ('\'' :: text) next cs
      else some ⟨text.reverse, mark, c :: cs⟩
    | _ => none

/-! ## Blocks -/

/-- A line of a text; the last one has no ending. -/
structure Line where
  text : List Char
  ending : Option Char

/-- The lines of a text. -/
def linesOf : List Char → List Line
  | [] => [⟨[], none⟩]
  | c :: cs =>
    if isBreak c then ⟨[], some c⟩ :: linesOf cs
    else match linesOf cs with
      | l :: rest => { l with text := c :: l.text } :: rest
      | [] => [⟨[c], none⟩]

/-- The text of lines. -/
def ofLines (lines : List Line) : List Char := lines.flatMap fun l => l.text ++ l.ending.toList

/-- The number of blanks at the start of a line, up to a limit. -/
def indentOf (limit : Option Nat) (l : Line) : Nat :=
  let blanks := (l.text.takeWhile (· == ' ')).length
  limit.elim blanks (min blanks)

/-- The lines behind those that hold blanks only, with the line breaks of the latter and the
    largest indentation that was met. A tab may not stand where a blank is expected. -/
def passBlankLines (limit : Option Nat) : List Line → Option (List Char × Nat × List Line)
  | [] => some ([], 0, [])
  | l :: rest =>
    let n := indentOf limit l
    let after := l.text.drop n
    if after.head? == some '\t' && limit.all (n < ·) then none
    else match after, l.ending with
      | [], some c => (passBlankLines limit rest).map fun found =>
        (c :: found.1, max n found.2.1, found.2.2)
      | _, _ => some ([], n, l :: rest)

/-- What has been read of a block. -/
structure Block where
  /-- The text so far, last character first. -/
  text : List Char := []
  /-- The line break behind the last line. -/
  first : Option Char := none
  /-- The line breaks of the blank lines behind it. -/
  more : List Char := []
  /-- Did the last line start with white space? -/
  indented : Bool := false

/-- The text of a block before its next line. In a folded block a single line break between lines
    that do not start with white space becomes a blank. -/
def Block.close (b : Block) (isLiteral indented : Bool) : List Char :=
  if !isLiteral && b.first == some '\n' && !b.indented && !indented then
    b.more.reverse ++ (if b.more.isEmpty then ' ' :: b.text else b.text)
  else b.more.reverse ++ b.first.toList ++ b.text

/-- Reads the lines of a block that is indented by a number of blanks; at most `fuel` of them. -/
def blockLines (isLiteral : Bool) (indent : Nat) (b : Block) :
    Nat → List Line → Option (Block × List Line)
  | 0, lines => some (b, lines)
  | _ + 1, [] => some (b, [])
  | fuel + 1, l :: rest =>
    -- a line that starts further left is behind the text
    if indentOf (some indent) l < indent || ((l.text.drop indent).isEmpty && l.ending.isNone) then
      some (b, l :: rest)
    else
      let line := l.text.drop indent
      let indented := line.head?.any isGapChar
      let text := line.reverse ++ b.close isLiteral indented
      match passBlankLines (some indent) rest with
      | none => none
      | some (more, _, rest) =>
        blockLines isLiteral indent { text, first := l.ending, more, indented } fuel rest

/-- What is done with the line breaks at the end of a block. -/
inductive Chomp where
  | clip
  | strip
  | keep

/-- The first line of a block: how much it is indented, if that is said, and what is done with
    the line breaks at its end. -/
def blockHeader? (cs : List Char) : Option (Option Nat × Chomp) :=
  let marks := cs.takeWhile fun c => !isWhite c && c != '#'
  let after := (cs.drop marks.length).dropWhile isGapChar
  if !(after.isEmpty || after.head? == some '#') then none
  else
    let width? (c : Char) : Option Nat :=
      if '1' ≤ c && c ≤ '9' then some (c.toNat - 48) else none
    match marks with
    | [] => some (none, .clip)
    | ['+'] => some (none, .keep)
    | ['-'] => some (none, .strip)
    -- the two marks may come in either order
    | ['+', d] | [d, '+'] => (width? d).map fun n => (some n, .keep)
    | ['-', d] | [d, '-'] => (width? d).map fun n => (some n, .strip)
    | [d] => (width? d).map fun n => (some n, .clip)
    | _ => none

/-- The end of a block's text. -/
def Block.finish (b : Block) : Chomp → List Char
  | .strip => b.text.reverse
  | .clip => b.text.reverse ++ b.first.toList
  | .keep => b.text.reverse ++ b.first.toList ++ b.more

/-- Reads a block from behind its mark; `indent` is the indentation of what holds it. -/
def blockFrom (isLiteral : Bool) (indent : Int) (mark : Mark) (cs : List Char) : Option Piece := do
  match linesOf cs with
  | [] => none
  | header :: lines =>
    let (width, chomp) ← blockHeader? header.text
    let limit := width.map fun n => if 0 ≤ indent then indent.toNat + n else n
    let (more, widest, lines) ← passBlankLines limit lines
    -- without a width in the header the first lines give it, up to one that is not blank
    let size := limit.getD (max widest (max (indent + 1).toNat 1))
    let (b, lines) ← blockLines isLiteral size { more } lines.length lines
    let rest := ofLines lines
    let start := lines.head?.elim 0 fun l => indentOf (some size) l
    let passed := cs.take (cs.length - rest.length)
    some ⟨b.finish chomp, (mark.afterAll passed).afterAll (rest.take start), rest.drop start⟩

end Deadwood.Yaml
