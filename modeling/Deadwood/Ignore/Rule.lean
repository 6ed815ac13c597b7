import Deadwood.Ignore.Pattern

/-!
# Rules of ignore files

An ignore file holds a rule a line. A rule leaves out what it matches, or takes back with `!` that
it is left out; the last rule that matches a path counts.
-/

namespace Deadwood.Ignore

/-- What rules say about a path. -/
inductive Verdict where
  /-- No rule matches. -/
  | silent
  | leaveOut
  | keep
  deriving Repr, DecidableEq, Inhabited

/-- The first verdict, or the second where the first says nothing. -/
def Verdict.orElse (v w : Verdict) : Verdict := if v = .silent then w else v

/-- A rule. -/
structure Rule where
  pattern : List Token
  /-- Does it take back that something is left out? -/
  keeps : Bool
  /-- Is it about folders only? -/
  onlyFolders : Bool
  deriving Repr, Inhabited

namespace Rule

/-- A line without the white space at its end, unless its last blank is escaped. -/
def trimLine (line : List Char) : List Char :=
  match line.reverse with
  | ' ' :: '\\' :: _ => line
  | _ => Text.trimRight line

/-- A line without the slash at its end, and whether there was one. -/
def splitFolderMark (line : List Char) : List Char × Bool :=
  match line.reverse with
  | '/' :: '\\' :: rest => (rest.reverse, true)
  | '/' :: rest => (rest.reverse, true)
  | _ => (line, false)

/-- A line without the marks at its start: what is left, whether the rule keeps, and whether it is
    about the folder of the ignore file only. -/
def splitStart (line : List Char) : List Char × Bool × Bool :=
  match line with
  | '\\' :: '!' :: rest => ('!' :: rest, false, false)
  | '\\' :: '#' :: rest => ('#' :: rest, false, false)
  | '!' :: '/' :: rest => (rest, true, true)
  | '!' :: rest => (rest, true, false)
  | '/' :: rest => (rest, false, true)
  | rest => (rest, false, false)

/-- Does the text end in the given one? -/
def endsIn (ending text : List Char) : Bool := ending.reverse.isPrefixOf text.reverse

/-- The pattern of a rule: without a slash it matches in any folder, and one that matches all that
    is below a folder does not match the folder. -/
def fullPattern (anchored : Bool) (written : List Char) : List Char :=
  let isDeep := ['*', '*', '/'].isPrefixOf written || written == ['*', '*']
  let pattern := if anchored || written.contains '/' || isDeep then written
    else ['*', '*', '/'] ++ written
  if endsIn ['/', '*', '*'] pattern then pattern ++ ['/', '*'] else pattern

/-- The rule of a line. Empty lines, comments and broken patterns are none. -/
def ofLine? (line : List Char) : Option Rule :=
  if line.head? == some '#' then none
  else
    let line := trimLine line
    if line.isEmpty then none
    else
      let (rest, keeps, anchored) := splitStart line
      let (written, onlyFolders) := splitFolderMark rest
      (parse? (fullPattern anchored written)).map fun pattern => { pattern, keeps, onlyFolders }

/-- A line without the carriage return at its end. -/
def dropReturn (line : List Char) : List Char :=
  if line.getLast? == some '\r' then line.dropLast else line

/-- The rules of the lines of an ignore file. -/
def ofLines (lines : List (List Char)) : List Rule :=
  lines.filterMap fun line => ofLine? (dropReturn line)

/-- The rules of an ignore file. A mark of the byte order at its start does not count. -/
def ofText (text : String) : List Rule :=
  ofLines (Text.splitAtAll (· == '\n') (text.toList.dropWhile (· == '\uFEFF')))

/-- The rules of an ignore file whose octets are no text: those of the lines before the first one
    that is none. -/
def ofOctets (octets : List UInt8) : List Rule :=
  let lines := (Text.splitAtAll (· == 10) octets).map Text.ofOctets?
  let texts := (lines.takeWhile Option.isSome).filterMap id
  ofText ("\n".intercalate texts)

/-- Does the rule match a path? -/
def isMatch (path : List UInt8) (isFolder : Bool) (r : Rule) : Bool :=
  (isFolder || !r.onlyFolders) && Ignore.isMatch r.pattern path

/-- What rules say about a path: the last one that matches counts. -/
def judge (rules : List Rule) (path : List UInt8) (isFolder : Bool) : Verdict :=
  match rules.reverse.find? (isMatch path isFolder) with
  | some r => if r.keeps then .keep else .leaveOut
  | none => .silent

end Rule
end Deadwood.Ignore
