import Deadwood.Path.Basic

/-!
# Glob patterns

Patterns for paths. `*` stands for any characters and `?` for any one, slashes and leading dots
included; `[ab-d]` and `[!ab-d]` for one character that is or is not listed. `**` has to fill the
space between slashes: it stands for any number of folders, or for all that is left of the path.
There are no escapes and no alternatives in braces. A pattern that breaks a rule is no pattern.
-/

namespace Deadwood

namespace Glob

/-- A part of a pattern. -/
inductive Token where
  /-- This character. -/
  | char (c : Char)
  /-- `?`: any character. -/
  | anyChar
  /-- `*`: any characters. -/
  | anySequence
  /-- `**`: any folders. -/
  | anyFolders
  /-- `[...]`: a character in one of the ranges. -/
  | oneOf (ranges : List (Char × Char))
  /-- `[!...]`: a character in none of the ranges. -/
  | noneOf (ranges : List (Char × Char))
  deriving Repr, DecidableEq

/-- The ranges that a class lists: `a-z`, or single characters. -/
def classRanges : List Char → List (Char × Char)
  | a :: '-' :: b :: rest => (a, b) :: classRanges rest
  | a :: rest => (a, a) :: classRanges rest
  | [] => []

/-- Where the reader of a pattern stands. -/
inductive Place where
  /-- Outside a class, behind this character of the pattern. -/
  | outside (before : Option Char)
  /-- Inside a class, behind these characters of it, last first. -/
  | inside (negated : Bool) (listed : List Char)

/-- The token for a class. -/
def classToken (negated : Bool) (listed : List Char) : Token :=
  if negated then .noneOf (classRanges listed) else .oneOf (classRanges listed)

/-- May `**` start behind this character? -/
def startsFolder (before : Option Char) : Bool := before.all (· == '/')

/-- Reads a pattern from a place on. The first character of a class may be a `]`. -/
def parseFrom : Place → List Char → Option (List Token)
  | .inside _ _, [] => none
  | .inside negated listed, ']' :: cs =>
    (parseFrom (.outside (some ']')) cs).map (classToken negated listed.reverse :: ·)
  | .inside negated listed, c :: cs => parseFrom (.inside negated (c :: listed)) cs
  | .outside _, [] => some []
  | .outside _, '?' :: cs => (parseFrom (.outside (some '?')) cs).map (.anyChar :: ·)
  | .outside _, '*' :: '*' :: '*' :: _ => none
  -- two stars are a whole step of the path or a mistake
  | .outside before, '*' :: '*' :: '/' :: cs =>
    if startsFolder before then (parseFrom (.outside (some '/')) cs).map (.anyFolders :: ·)
    else none
  | .outside before, ['*', '*'] => if startsFolder before then some [.anyFolders] else none
  | .outside _, '*' :: '*' :: _ => none
  | .outside _, '*' :: cs => (parseFrom (.outside (some '*')) cs).map (.anySequence :: ·)
  | .outside _, '[' :: '!' :: c :: cs => parseFrom (.inside true [c]) cs
  | .outside _, ['[', '!'] => none
  | .outside _, '[' :: c :: cs => parseFrom (.inside false [c]) cs
  | .outside _, ['['] => none
  | .outside _, c :: cs => (parseFrom (.outside (some c)) cs).map (.char c :: ·)

/-- Is the character in one of the ranges? -/
def inClass (ranges : List (Char × Char)) (c : Char) : Bool :=
  ranges.any fun r => r.1 ≤ c && c ≤ r.2

/-- The places that can be come to from a marked place by passing any characters. A mark stands
    for each place of a text, from before its first character to behind its last. -/
def spread : Bool → List Bool → List Bool
  | _, [] => []
  | earlier, m :: marks => (earlier || m) :: spread (earlier || m) marks

/-- The places that can be come to from a marked place by passing whole folders, or all the rest.
    -/
def spreadFolders : Bool → Bool → List Bool → List Char → List Bool
  | _, _, [], _ => []
  | earlier, slash, m :: marks, text =>
    (m || (earlier && (slash || text.isEmpty))) ::
      spreadFolders (earlier || m) (text.head? == some '/') marks text.tail

/-- The places that can be come to from a marked place by passing one character. -/
def pass {α : Type} (test : α → Bool) (marks : List Bool) (text : List α) : List Bool :=
  false :: List.zipWith (fun m c => m && test c) marks text

/-- The places that can be come to by passing what a token stands for. -/
def Token.advance (text : List Char) (marks : List Bool) : Token → List Bool
  | .char c => pass (· == c) marks text
  | .anyChar => pass (fun _ => true) marks text
  | .anySequence => spread false marks
  | .anyFolders => spreadFolders false false marks text
  | .oneOf ranges => pass (inClass ranges) marks text
  | .noneOf ranges => pass (fun c => !inClass ranges c) marks text

end Glob

/-- A pattern for paths. -/
structure Glob where
  tokens : List Glob.Token
  deriving Repr, DecidableEq

namespace Glob

/-- Reads a pattern. -/
def parse? (pattern : String) : Option Glob :=
  (parseFrom (.outside none) pattern.toList).map Glob.mk

/-- Does the whole text match? -/
def matchesText (g : Glob) (text : List Char) : Bool :=
  let start := true :: List.replicate text.length false
  (g.tokens.foldl (fun marks t => t.advance text marks) start).getLast? == some true

/-- Does the path match, as it is written? -/
def isMatch (g : Glob) (p : Path) : Bool := g.matchesText p.text.toList

/-- The patterns among the texts; those that break a rule are left out. -/
def parseAll (patterns : List String) : List Glob := patterns.filterMap parse?

end Glob
end Deadwood
