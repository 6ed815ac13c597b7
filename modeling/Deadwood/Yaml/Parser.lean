import Deadwood.Yaml.Token

/-!
# YAML documents

The node that the tokens of a text stand for. A text holds one document at most; where it holds
none, or an empty one, the node is the absent one.
-/

namespace Deadwood.Yaml

/-- The tokens to come, and the nodes that have been named so far, last first. -/
structure Progress where
  tokens : List Token
  anchors : List (String × Yaml) := []

/-- Reads part of a document. -/
abbrev Parse := StateT Progress Option

namespace Parse

/-- The next token. -/
def next : Parse (Option Token) := return (← get).tokens.head?

/-- Passes a token. -/
def pass : Parse Unit := modify fun p => { p with tokens := p.tokens.tail }

/-- Passes the next token if it is the given one, and says whether it was. -/
def skip (t : Token) : Parse Bool := do
  if (← next) == some t then
    pass
    return true
  else return false

/-- Is the next token one of these? -/
def at? (ts : List Token) : Parse Bool := return (← next).any ts.contains

/-- Reads the properties of a node: its anchor and its tag, in any order. -/
def properties : Parse (Option String × Option String) := do
  match ← next with
  | some (.anchor a) =>
    pass
    match ← next with
    | some (.tag t) => pass; return (some a, some t)
    | _ => return (some a, none)
  | some (.tag t) =>
    pass
    match ← next with
    | some (.anchor a) => pass; return (some a, some t)
    | _ => return (none, some t)
  | _ => return (none, none)

/-- Names a node. -/
def define (anchor : Option String) (node : Yaml) : Parse Yaml := do
  match anchor with
  | some a => modify fun p => { p with anchors := (a, node) :: p.anchors }
  | none => pure ()
  return node

/-- The node of a name. -/
def named (name : String) : Parse Yaml := do
  match (← get).anchors.lookup name with
  | some node => return node
  | none => failure

mutual

/-- Reads a node. Only a block may hold blocks; a sequence in it need not be indented where it is
    the value of a key. -/
def node (block bare : Bool) : Nat → Parse Yaml
  | 0 => failure
  | fuel + 1 => do
    match ← next with
    | some (.alias name) => pass; named name
    | _ =>
      let (anchor, tag) ← properties
      define anchor (← content block bare (anchor.isSome || tag.isSome) tag fuel)

/-- Reads what a node holds. Nothing need follow its properties. -/
def content (block bare hasProperties : Bool) (tag : Option String) : Nat → Parse Yaml
  | 0 => failure
  | fuel + 1 => do
    match ← next with
    | some (.scalar style text) => pass; return .scalar style tag text
    | some .flowSequenceStart => pass; return .sequence (← flowItems true fuel)
    | some .flowMappingStart => pass; return .mapping (← flowPairs true fuel)
    -- entries may stand as far left as the name that they belong to
    | some .blockEntry =>
      if bare then return .sequence (← bareItems fuel)
      else if hasProperties then return .scalar .plain tag ""
      else failure
    | some .blockSequenceStart =>
      if block then pass; return .sequence (← blockItems fuel)
      else if hasProperties then return .scalar .plain tag ""
      else failure
    | some .blockMappingStart =>
      if block then pass; return .mapping (← blockPairs fuel)
      else if hasProperties then return .scalar .plain tag ""
      else failure
    | _ => if hasProperties then return .scalar .plain tag "" else failure

/-- Reads a node, unless one of the tokens follows. -/
def nodeUnless (block bare : Bool) (ends : List Token) : Nat → Parse Yaml
  | 0 => failure
  | fuel + 1 => do
    if ← at? ends then return absent else node block bare fuel

/-- Reads the items of a sequence in a block of its own. -/
def blockItems : Nat → Parse (List Yaml)
  | 0 => failure
  | fuel + 1 => do
    if ← skip .blockEnd then return []
    else if ← skip .blockEntry then
      let item ← nodeUnless true false [.blockEntry, .blockEnd] fuel
      return item :: (← blockItems fuel)
    else failure

/-- Reads the items of a sequence that is not indented. -/
def bareItems : Nat → Parse (List Yaml)
  | 0 => failure
  | fuel + 1 => do
    if ← skip .blockEntry then
      let item ← nodeUnless true false [.blockEntry, .key, .value, .blockEnd] fuel
      return item :: (← bareItems fuel)
    else return []

/-- Reads the pairs of a mapping in a block. -/
def blockPairs : Nat → Parse (List (Yaml × Yaml))
  | 0 => failure
  | fuel + 1 => do
    if ← skip .blockEnd then return []
    else if ← skip .key then
      let name ← nodeUnless true true [.key, .value, .blockEnd] fuel
      let value ← if ← skip .value then nodeUnless true true [.key, .value, .blockEnd] fuel
        else pure absent
      return (name, value) :: (← blockPairs fuel)
    else failure

/-- Reads a pair inside brackets or braces behind the mark of its key. -/
def flowPair (close : Token) : Nat → Parse (Yaml × Yaml)
  | 0 => failure
  | fuel + 1 => do
    let name ← nodeUnless false false [.value, .flowEntry, close] fuel
    let value ← if ← skip .value then nodeUnless false false [.flowEntry, close] fuel
      else pure absent
    return (name, value)

/-- Reads the items of a sequence in brackets. A pair may stand there as a mapping of its own. -/
def flowItems (first : Bool) : Nat → Parse (List Yaml)
  | 0 => failure
  | fuel + 1 => do
    if ← skip .flowSequenceEnd then return []
    else if ← (if first then pure true else skip .flowEntry) then
      if ← skip .flowSequenceEnd then return []
      -- a pair in a list is a mapping of its own
      else if ← skip .key then
        let pair ← flowPair .flowSequenceEnd fuel
        return .mapping [pair] :: (← flowItems false fuel)
      else
        let item ← node false false fuel
        return item :: (← flowItems false fuel)
    else failure

/-- Reads the pairs of a mapping in braces. A key may stand there without a value. -/
def flowPairs (first : Bool) : Nat → Parse (List (Yaml × Yaml))
  | 0 => failure
  | fuel + 1 => do
    if ← skip .flowMappingEnd then return []
    else if ← (if first then pure true else skip .flowEntry) then
      if ← skip .flowMappingEnd then return []
      else if ← skip .key then
        let pair ← flowPair .flowMappingEnd fuel
        return pair :: (← flowPairs false fuel)
      else
        -- a name without a value
        let name ← node false false fuel
        return (name, absent) :: (← flowPairs false fuel)
    else failure

end

/-- Passes all tokens that are the given one. -/
def skipAll (t : Token) : Parse Unit :=
  modify fun p => { p with tokens := p.tokens.dropWhile (· == t) }

/-- Reads the node that the tokens to come start with. -/
def topNode : Parse Yaml := do node true false (8 * (← get).tokens.length + 8)

/-- Reads a text's only document. One that is announced may be empty. -/
def document : Parse Yaml := do
  if (← next).isNone then return absent
  -- directives must be followed by the mark of a document
  let announced ← at? [.directive, .documentStart]
  let found ← if announced then
      skipAll .directive
      if ← skip .documentStart then
        if (← next).isNone || (← at? [.directive, .documentStart, .documentEnd]) then pure absent
        else topNode
      else failure
    else topNode
  skipAll .documentEnd
  if (← next).isSome then failure else return found

end Parse

/-- Reads a text as one document. -/
def parse? (text : String) : Option Yaml := do
  let (found, _) ← Parse.document.run { tokens := ← tokens? text }
  return found

end Deadwood.Yaml
