import Deadwood.Text.Piece
import Deadwood.Yaml.Scalar

/-!
# YAML tokens

The tokens of a text, with the structure that indentation stands for spelled out. A scalar or
collection may turn out to be a key only when a colon follows it on the same line: until then it is
noted as a possible key, and the tokens of a key are put in before it afterwards.
-/

namespace Deadwood.Yaml

/-- A token. -/
inductive Token where
  | directive
  | documentStart
  | documentEnd
  | blockSequenceStart
  | blockMappingStart
  | blockEnd
  | flowSequenceStart
  | flowSequenceEnd
  | flowMappingStart
  | flowMappingEnd
  | blockEntry
  | flowEntry
  | key
  | value
  | alias (name : String)
  | anchor (name : String)
  | tag (name : String)
  | scalar (style : Style) (text : String)
  deriving Repr, DecidableEq, Inhabited

/-- What may turn out to be a key. -/
structure PossibleKey where
  /-- Has it to be a key, because of where it stands? -/
  isRequired : Bool
  /-- The number of tokens before it. -/
  tokens : Nat
  mark : Mark

/-- What the reader of tokens knows. -/
structure Reader where
  rest : List Char
  mark : Mark := ⟨0, 0, 0⟩
  /-- The tokens so far, last first. -/
  tokens : List Token := []
  /-- The indentation of the innermost block, `-1` outside of all. -/
  indent : Int := -1
  /-- The indentations of the blocks around it, innermost first. -/
  outer : List Int := []
  /-- The possible key outside of brackets and braces. -/
  blockKey : Option PossibleKey := none
  /-- The possible keys inside of brackets and braces, innermost first. -/
  flowKeys : List (Option PossibleKey) := []
  /-- May a key start here? -/
  keyAllowed : Bool := true

namespace Reader

/-- Is the reader inside brackets or braces? -/
def inFlow (r : Reader) : Bool := !r.flowKeys.isEmpty

/-- Adds a token. -/
def push (r : Reader) (t : Token) : Reader := { r with tokens := t :: r.tokens }

/-- Adds a token behind the first `n` ones. -/
def insert (r : Reader) (n : Nat) (t : Token) : Reader :=
  { r with tokens := r.tokens.insertIdx (r.tokens.length - n) t }

/-- Goes to another place. -/
def moveTo (r : Reader) (mark : Mark) (rest : List Char) : Reader := { r with mark, rest }

/-- Passes the next `n` characters. -/
def pass (r : Reader) (n : Nat) : Reader :=
  r.moveTo (r.mark.afterAll (r.rest.take n)) (r.rest.drop n)

/-- The innermost possible key. -/
def possibleKey (r : Reader) : Option PossibleKey :=
  match r.flowKeys with
  | k :: _ => k
  | [] => r.blockKey

/-- Notes an innermost possible key, or that there is none. -/
def setKey (r : Reader) (k : Option PossibleKey) : Reader :=
  match r.flowKeys with
  | _ :: rest => { r with flowKeys := k :: rest }
  | [] => { r with blockKey := k }

/-- The longest text that a key may have, in characters. -/
def maxKeyLength : Nat := 1024

/-- Can the key not be followed by its colon any more? -/
def isStale (m : Mark) (k : PossibleKey) : Bool :=
  k.mark.line < m.line || k.mark.index + maxKeyLength < m.index

/-- Gives up a possible key; fails if it has to be a key. -/
def dropKey (r : Reader) : Option Reader :=
  if r.possibleKey.any (·.isRequired) then none else some (r.setKey none)

/-- Gives up the possible keys that no colon can follow any more. -/
def dropStaleKeys (r : Reader) : Option Reader :=
  let stale := (r.blockKey :: r.flowKeys).filter fun k => k.any (isStale r.mark)
  if stale.any fun k => k.any (·.isRequired) then none
  else
    let fresh (k : Option PossibleKey) : Option PossibleKey := k.filter fun k => !isStale r.mark k
    some { r with blockKey := fresh r.blockKey, flowKeys := r.flowKeys.map fresh }

/-- Notes that what starts here may be a key. -/
def noteKey (r : Reader) : Option Reader :=
  if r.keyAllowed then
    (dropKey r).map fun r => r.setKey (some {
      isRequired := !r.inFlow && r.indent == r.mark.column
      tokens := r.tokens.length
      mark := r.mark })
  else some r

/-- Starts a block at a column, if it is indented more than the one around it. -/
def startBlock (r : Reader) (column : Nat) (before : Nat) (t : Token) : Reader :=
  if !r.inFlow && r.indent < column then
    { (r.insert before t) with indent := column, outer := r.indent :: r.outer }
  else r

/-- The blocks that are left open when those indented more than a column end: the indentations,
    and how many blocks end. -/
def endedBlocks (column : Int) : Int → List Int → Nat × Int × List Int
  | indent, [] => (0, indent, [])
  | indent, o :: outer =>
    if column < indent then
      let (n, left) := endedBlocks column o outer
      (n + 1, left)
    else (0, indent, o :: outer)

/-- Ends the blocks that are indented more than a column. -/
def endBlocks (r : Reader) (column : Int) : Reader :=
  if r.inFlow then r
  else
    let (n, indent, outer) := endedBlocks column r.indent r.outer
    { r with tokens := List.replicate n .blockEnd ++ r.tokens, indent, outer }

/-- Passes white space and comments. Outside of brackets and braces a new line may start with a
    key, and a tab may not stand where a key may start. -/
def passGaps (flow : Bool) (allowed comment : Bool) (mark : Mark) :
    List Char → Bool × Mark × List Char
  | [] => (allowed, mark, [])
  | c :: cs =>
    let next := mark.after c
    if isBreak c then passGaps flow (allowed || !flow) false next cs
    else if comment || c == ' ' || (c == '\t' && (flow || !allowed)) then
      passGaps flow allowed comment next cs
    else if c == '#' then passGaps flow allowed true next cs
    else (allowed, mark, c :: cs)

/-- Goes to the next token. -/
def toToken (r : Reader) : Reader :=
  let (keyAllowed, mark, rest) := passGaps r.inFlow r.keyAllowed false r.mark r.rest
  { r with keyAllowed, mark, rest }

/-- Ends all blocks before something that belongs to no document. -/
def leaveDocument (r : Reader) : Option Reader :=
  (r.endBlocks (-1)).dropKey.map fun r => { r with keyAllowed := false }

/-! ## The kinds of tokens -/

/-- Is it a character of a name? -/
def isNameChar (c : Char) : Bool := c.isAlphanum || c == '-' || c == '_'

/-- May this directive stand before a document? -/
def isDirective (line : List Char) : Bool :=
  let words := ((Text.splitAtAll isGapChar line).filter fun w => !w.isEmpty).takeWhile
    fun w => w.head? != some '#'
  match words with
  | [name, version] =>
    name == ['%', 'Y', 'A', 'M', 'L'] && (version == ['1', '.', '1'] || version == ['1', '.', '2'])
  | [name, handle, _] => name == ['%', 'T', 'A', 'G'] && handle.head? == some '!'
  | _ => false

/-- Reads a directive. -/
def readDirective (r : Reader) : Option Reader := do
  let line := r.rest.takeWhile fun c => !isBreak c
  if isDirective line then some (((← r.leaveDocument).pass line.length).push .directive) else none

/-- Reads a mark that separates documents. -/
def readDocumentMark (r : Reader) (t : Token) : Option Reader := do
  some (((← r.leaveDocument).pass 3).push t)

/-- Reads an opening bracket or brace. -/
def readFlowStart (r : Reader) (t : Token) : Option Reader := do
  let r ← r.noteKey
  some { (r.pass 1).push t with flowKeys := none :: r.flowKeys, keyAllowed := true }

/-- Reads a closing bracket or brace. -/
def readFlowEnd (r : Reader) (t : Token) : Option Reader := do
  let r ← r.dropKey
  some { (r.pass 1).push t with flowKeys := r.flowKeys.tail, keyAllowed := false }

/-- Reads a comma. -/
def readFlowEntry (r : Reader) : Option Reader := do
  some { ((← r.dropKey).pass 1).push .flowEntry with keyAllowed := true }

/-- Reads the dash before an item. -/
def readBlockEntry (r : Reader) : Option Reader := do
  if !r.inFlow && !r.keyAllowed then none
  else
    let r ← (r.startBlock r.mark.column r.tokens.length .blockSequenceStart).dropKey
    some { (r.pass 1).push .blockEntry with keyAllowed := true }

/-- Reads the question mark before a key. -/
def readKey (r : Reader) : Option Reader := do
  if !r.inFlow && !r.keyAllowed then none
  else
    let r ← (r.startBlock r.mark.column r.tokens.length .blockMappingStart).dropKey
    some { (r.pass 1).push .key with keyAllowed := !r.inFlow }

/-- Reads the colon before a value. What was noted as a possible key is one now. -/
def readValue (r : Reader) : Option Reader :=
  match r.possibleKey with
  | some k =>
    let r := (r.insert k.tokens .key).startBlock k.mark.column k.tokens .blockMappingStart
    some { (r.setKey none).pass 1 |>.push .value with keyAllowed := false }
  | none =>
    if !r.inFlow && !r.keyAllowed then none
    else
      let r := r.startBlock r.mark.column r.tokens.length .blockMappingStart
      some { (r.pass 1).push .value with keyAllowed := !r.inFlow }

/-- Reads the name of an anchor or alias. -/
def readName (r : Reader) (token : String → Token) : Option Reader := do
  let r ← r.noteKey
  let name := r.rest.tail.takeWhile isNameChar
  let after := r.rest.tail.drop name.length
  let ends :=
    after.head?.all fun c => isWhite c || ['?', ':', ',', ']', '\x7d', '%', '@'].contains c
  if name.isEmpty || !ends then none
  else
    some { (r.pass (name.length + 1)).push (token (String.ofList name)) with keyAllowed := false }

/-- The full name of a tag, where it is one that the language itself defines. -/
def tagName (written : List Char) : String :=
  match written with
  | '!' :: '!' :: name => coreTag ++ String.ofList name
  | '!' :: '<' :: rest => String.ofList (rest.takeWhile (· != '>'))
  | written => String.ofList written

/-- Reads a tag. -/
def readTag (r : Reader) : Option Reader := do
  let r ← r.noteKey
  let written := r.rest.takeWhile fun c => !isWhite c && !(r.inFlow && c == ',')
  some { (r.pass written.length).push (.tag (tagName written)) with keyAllowed := false }

/-- Reads a block of lines. -/
def readBlock (r : Reader) (isLiteral : Bool) : Option Reader := do
  let r ← r.dropKey
  let piece ← blockFrom isLiteral r.indent (r.pass 1).mark r.rest.tail
  let style := if isLiteral then Style.literal else .folded
  let r := (r.moveTo piece.mark piece.rest).push (.scalar style (String.ofList piece.text))
  some { r with keyAllowed := true }

/-- Reads a quoted scalar. -/
def readQuoted (r : Reader) (isSingle : Bool) : Option Reader := do
  let r ← r.noteKey
  let reader := if isSingle then singleFrom else doubleFrom
  let piece ← reader (.words none) [] (r.pass 1).mark r.rest.tail
  let r := (r.moveTo piece.mark piece.rest).push (.scalar .quoted (String.ofList piece.text))
  some { r with keyAllowed := false }

/-- Reads a plain scalar. -/
def readPlain (r : Reader) : Option Reader := do
  let r ← r.noteKey
  let plain ← plainFrom r.inFlow (r.indent + 1) [] none r.mark r.rest
  let piece := plain.piece
  let r := (r.moveTo piece.mark piece.rest).push (.scalar .plain (String.ofList piece.text))
  some { r with keyAllowed := plain.broken }

/-- May a plain scalar start with this character? -/
def startsPlain (flow : Bool) (c : Char) (cs : List Char) : Bool :=
  let marks : List Char := ['-', '?', ':', ',', '[', ']', '\x7b', '\x7d', '#', '&', '*', '!', '|',
    '>', '\'', '"', '%', '@', Char.ofNat 96]
  (!isWhite c && !marks.contains c) || (c == '-' && !cs.head?.any isGapChar) ||
    (!flow && (c == '?' || c == ':') && !atWhite cs)

/-- Reads the token that starts with a character. -/
def readToken (r : Reader) (c : Char) (cs : List Char) : Option Reader :=
  -- the order matters: marks of documents before entries, and plain text last
  if r.mark.column == 0 && c == '%' then r.readDirective
  else if atDocumentMark r.mark (c :: cs) then
    r.readDocumentMark (if c == '-' then .documentStart else .documentEnd)
  else if c == '[' then r.readFlowStart .flowSequenceStart
  else if c == '\x7b' then r.readFlowStart .flowMappingStart
  else if c == ']' then r.readFlowEnd .flowSequenceEnd
  else if c == '\x7d' then r.readFlowEnd .flowMappingEnd
  else if c == ',' then r.readFlowEntry
  else if c == '-' && atWhite cs then r.readBlockEntry
  else if c == '?' && (r.inFlow || atWhite cs) then r.readKey
  else if c == ':' && (r.inFlow || atWhite cs) then r.readValue
  else if c == '*' then r.readName .alias
  else if c == '&' then r.readName .anchor
  else if c == '!' then r.readTag
  else if c == '|' && !r.inFlow then r.readBlock true
  else if c == '>' && !r.inFlow then r.readBlock false
  else if c == '\'' then r.readQuoted true
  else if c == '"' then r.readQuoted false
  else if startsPlain r.inFlow c cs then r.readPlain
  else none

/-- Reads all tokens; each one takes at least one character, so `fuel` is the number of these. -/
def readAll : Nat → Reader → Option (List Token)
  | 0, _ => none
  | fuel + 1, r => do
    let r ← r.toToken.dropStaleKeys
    let r := r.endBlocks r.mark.column
    match r.rest with
    | [] => return (← (r.endBlocks (-1)).dropKey).tokens.reverse
    | c :: cs => readAll fuel (← r.readToken c cs)

end Reader

/-- The text with every line end written as one character. -/
def unifyBreaks : List Char → List Char
  | '\r' :: '\n' :: cs => '\n' :: unifyBreaks cs
  | '\r' :: cs => '\n' :: unifyBreaks cs
  | '\u0085' :: cs => '\n' :: unifyBreaks cs
  | c :: cs => c :: unifyBreaks cs
  | [] => []

/-- May the character stand in a text? -/
def isPrintable (c : Char) : Bool :=
  let n := c.toNat
  n == 9 || n == 10 || n == 13 || (32 ≤ n && n ≤ 126) || n == 0x85 ||
    (0xA0 ≤ n && n ≤ 0xFFFD) || 0x10000 ≤ n

/-- The reader at the start of a text. A mark of the byte order there is passed over, though it
    takes a column. -/
def Reader.start (cs : List Char) : Reader :=
  let r : Reader := { rest := unifyBreaks cs }
  if cs.head? == some '\uFEFF' then r.pass 1 else r

/-- The tokens of a text. -/
def tokens? (text : String) : Option (List Token) :=
  let cs := text.toList
  if cs.all isPrintable then Reader.readAll (cs.length + 1) (Reader.start cs) else none

end Deadwood.Yaml
