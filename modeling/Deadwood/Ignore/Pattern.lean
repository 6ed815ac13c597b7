import Deadwood.Glob.Pattern
import Deadwood.Text.Octets

/-!
# Patterns of ignore files

The patterns by which ignore files name paths. They are stricter about slashes than those of the
settings: `*` and `?` stay inside a name, and `**` between slashes stands for any folders. There are
classes `[a-z]` and `[!a-z]`, alternatives in braces, and a backslash takes the next character as it
is. Patterns are matched against the octets of a path.
-/

namespace Deadwood.Ignore

/-- A part of a pattern. -/
inductive Token where
  /-- These octets. -/
  | octets (bytes : List UInt8)
  /-- `?`: an octet that is no slash. -/
  | anyOctet
  /-- `*`: octets that are no slashes. -/
  | anyName
  /-- `**` at the start: any folders. -/
  | foldersBefore
  /-- `/**` at the end: all that is below. -/
  | allBelow
  /-- `/**/`: a slash, or any folders between slashes. -/
  | foldersBetween
  /-- `[...]`: an octet that is, or is not, in one of the ranges. -/
  | oneOf (negated : Bool) (ranges : List (UInt8 × UInt8))
  /-- Any of the alternatives; without any it stands for nothing. -/
  | choice (alternatives : List (List Token))
  deriving Repr, Inhabited

/-- The octet of a slash. -/
def slash : UInt8 := 47

/-- The token for a character. -/
def charToken (c : Char) : Token := .octets (String.utf8EncodeChar c)

/-! ## Matching -/

/-- The places that can be come to from a marked one without passing a slash. -/
def spreadName : Bool → List Bool → List UInt8 → List Bool
  | _, [], _ => []
  | earlier, m :: marks, text =>
    let here := earlier || m
    here :: spreadName (here && text.head? != some slash) marks text.tail

/-- The places behind a slash that can be come to from a marked one, by passing anything. -/
def spreadSlash : Bool → Bool → List Bool → List UInt8 → List Bool
  | _, _, [], _ => []
  | earlier, behind, m :: marks, text =>
    (earlier && behind) :: spreadSlash (earlier || m) (text.head? == some slash) marks text.tail

/-- Marks that are set in either list. -/
def union (a b : List Bool) : List Bool := List.zipWith (· || ·) a b

/-- The places behind a slash that stands at a marked place. -/
def passSlash (text : List UInt8) (marks : List Bool) : List Bool :=
  Glob.pass (· == slash) marks text

mutual

/-- The places that can be come to by passing what a token stands for. -/
def advance (text : List UInt8) (marks : List Bool) : Token → List Bool
  | .octets bytes => bytes.foldl (fun marks b => Glob.pass (· == b) marks text) marks
  | .anyOctet => Glob.pass (· != slash) marks text
  | .anyName => spreadName false marks text
  | .foldersBefore => union marks (spreadSlash false false marks text)
  | .allBelow => Glob.spread false (passSlash text marks)
  -- one slash, or any number of folders between two slashes
  | .foldersBetween =>
    let behind := passSlash text marks
    union behind (spreadSlash false false behind text)
  | .oneOf negated ranges =>
    Glob.pass (fun b => (ranges.any fun r => r.1 ≤ b && b ≤ r.2) != negated) marks text
  | .choice [] => marks
  | .choice alternatives => advanceAny text marks alternatives

/-- The places that can be come to by passing what all tokens in turn stand for. -/
def advanceAll (text : List UInt8) (marks : List Bool) : List Token → List Bool
  | [] => marks
  | t :: ts => advanceAll text (advance text marks t) ts

/-- The places that can be come to by one of the alternatives. -/
def advanceAny (text : List UInt8) (marks : List Bool) : List (List Token) → List Bool
  | [] => marks.map fun _ => false
  | ts :: rest => union (advanceAll text marks ts) (advanceAny text marks rest)

end

/-- Does the whole text match? Any folders by themselves match everything. -/
def isMatch (pattern : List Token) (text : List UInt8) : Bool :=
  match pattern with
  | [.foldersBefore] => true
  | _ =>
    let start := true :: List.replicate text.length false
    (advanceAll text start pattern).getLast? == some true

/-! ## Reading -/

/-- What has been read of a pattern: the tokens outside of braces, and for each open brace the
    alternatives that are complete and the tokens of the current one. All are kept last first. -/
structure Open where
  alternatives : List (List Token) := []
  current : List Token := []

/-- The octets of a range's ends; characters of several octets stand for each of these. -/
def rangeOctets (a b : Char) : List (UInt8 × UInt8) :=
  let first := String.utf8EncodeChar a
  let last := String.utf8EncodeChar b
  if a = b then first.map fun x => (x, x)
  else
    (first.dropLast.map fun x => (x, x)) ++
      [(first.getLast?.getD 0, last.head?.getD 0)] ++ (last.tail.map fun x => (x, x))

/-- Reads a class from the middle: the ranges so far, last first, whether a dash waits for its other
    end, and whether nothing has been read yet. -/
def classFrom (ranges : List (Char × Char)) (dash first : Bool) :
    List Char → Option (List (Char × Char) × List Char)
  | [] => none
  | c :: cs =>
    -- a bracket at the start and a dash at the end stand for themselves
    if c == ']' && !first then
      some ((if dash then ('-', '-') :: ranges else ranges).reverse, cs)
    else if dash then
      match ranges with
      | (a, _) :: rest => if c < a then none else classFrom ((a, c) :: rest) false false cs
      | [] => none
    else if c == '-' && !first then classFrom ranges true false cs
    else classFrom ((c, c) :: ranges) false false cs

/-- Adds a token to the alternative that is being read. -/
def push (t : Token) : List Open → List Open
  | o :: rest => { o with current := t :: o.current } :: rest
  | [] => []

/-- Puts a token in place of the slash that was read last. What stands for folders already goes on
    doing so. -/
def replaceSlash (t : Token) : List Open → List Open
  | o :: rest =>
    match o.current with
    | .foldersBefore :: _ => o :: rest
    | .allBelow :: _ => o :: rest
    | _ :: before => { o with current := t :: before } :: rest
    | [] => { o with current := [t] } :: rest
  | [] => []

/-- Does the token stand for nothing? -/
def isVoid : Token → Bool
  | .choice [] => true
  | _ => false

/-- Closes a brace. Alternatives that stand for nothing do not count. -/
def closeBrace : List Open → Option (List Open)
  | o :: outer :: rest =>
    let alternatives := (o.current :: o.alternatives).reverse.map List.reverse
    some (push (.choice (alternatives.filter fun ts => !ts.all isVoid)) (outer :: rest))
  | _ => none

/-- Starts the next alternative. -/
def nextAlternative : List Open → List Open
  | o :: rest => { alternatives := o.current :: o.alternatives, current := [] } :: rest
  | [] => []

/-- Has the alternative that is being read any tokens? -/
def hasTokens (levels : List Open) : Bool := levels.head?.any fun o => !o.current.isEmpty

/-- Reads `**` behind a character of the pattern: the levels, and what is left of the pattern. It
    stands for folders only between slashes; elsewhere it is two stars. -/
def readStars (levels : List Open) (before : Option Char) (cs : List Char) :
    List Open × List Char :=
  let stars := (push .anyName (push .anyName levels), cs)
  if !hasTokens levels then
    match cs with
    | [] => (push .foldersBefore levels, [])
    | '/' :: rest => (push .foldersBefore levels, rest)
    | _ => stars
  -- two stars mean folders only between slashes or ends
  else if before != some '/' then stars
  else match cs with
    | [] => (replaceSlash .allBelow levels, [])
    | '/' :: rest => (replaceSlash .foldersBetween levels, rest)
    | c :: _ =>
      if (c == ',' || c == '\x7d') && 2 ≤ levels.length then (replaceSlash .allBelow levels, cs)
      else stars

/-- Reads a pattern from the middle; `fuel` is the number of its characters. -/
def parseFrom (levels : List Open) (before : Option Char) : Nat → List Char → Option (List Token)
  | 0, _ => none
  | _ + 1, [] =>
    match levels with
    | [o] => some o.current.reverse
    | _ => none
  | fuel + 1, c :: cs =>
    match c, cs with
    | '?', cs => parseFrom (push .anyOctet levels) (some c) fuel cs
    | '*', '*' :: rest =>
      let (levels, rest) := readStars levels before rest
      -- the slash behind two stars has been read with them
      let last := if rest.length < cs.length - 1 then '/' else '*'
      parseFrom levels (some last) fuel rest
    | '*', cs => parseFrom (push .anyName levels) (some c) fuel cs
    | '[', cs =>
      let (negated, body) := match cs with
        | '!' :: rest | '^' :: rest => (true, rest)
        | rest => (false, rest)
      (classFrom [] false true body).bind fun found =>
        let ranges := found.1.flatMap fun r => rangeOctets r.1 r.2
        parseFrom (push (.oneOf negated ranges) levels) (some ']') fuel found.2
    | '\x7b', cs => parseFrom ({} :: levels) (some c) fuel cs
    | '\x7d', cs => (closeBrace levels).bind fun levels => parseFrom levels (some c) fuel cs
    | ',', cs =>
      if 2 ≤ levels.length then parseFrom (nextAlternative levels) (some c) fuel cs
      else parseFrom (push (charToken c) levels) (some c) fuel cs
    | '\\', [] => none
    | '\\', d :: rest => parseFrom (push (charToken d) levels) (some d) fuel rest
    | c, cs => parseFrom (push (charToken c) levels) (some c) fuel cs

/-- Reads a pattern. -/
def parse? (pattern : List Char) : Option (List Token) :=
  parseFrom [{}] none (pattern.length + 1) pattern

end Deadwood.Ignore
