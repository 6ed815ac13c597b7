import Deadwood.Json.Basic

/-!
# Reading JSON

A reader that takes one character after the other. Its state is what it is in the middle of and
the arrays and objects that are still open, innermost first; a character leads to the next state
or is refused. So a text is read by a fold over its characters, and reading a text that another
one follows is reading the two in turn.

Arrays and objects may be nested up to `maxDepth` deep. Where a record is read, the members that it
does not have are passed over: their values have to be well written, but they may be nested deeper,
and their numbers and texts need not stand for anything.
-/

namespace Deadwood.Json

/-- The number of arrays and objects that may be open at once. -/
def maxDepth : Nat := 127

/-- An array or object that is still open. -/
inductive Frame where
  /-- An array with these items, last first. -/
  | array (items : List Json)
  /-- An object with these members, last first. -/
  | object (members : List (String × Json))
  /-- An object with these members, last first, and the name of the next one. -/
  | member (members : List (String × Json)) (name : String)

/-- What a text is read for. -/
inductive Layout where
  /-- A value of any kind. -/
  | any
  /-- A record with these members. -/
  | record (members : List (String × Layout))

namespace Layout

/-- The record whose members are of any kind. -/
def ofNames (names : List String) : Layout := .record (names.map fun n => (n, .any))

/-- Is the value inside these frames, outermost first, passed over? It is if one of them is for a
    member that its record does not have. A record may be written as the array of its members. -/
def passes : Layout → List Frame → Bool
  | .record members, .member _ name :: inner =>
    match members.find? fun m => m.1 == name with
    | some m => m.2.passes inner
    | none => true
  | .record members, .array items :: inner =>
    match members[items.length]? with
    | some m => m.2.passes inner
    | none => false
  | _, _ => false

end Layout

/-- What an escape in a text is in the middle of. -/
inductive Escape where
  /-- No escape. -/
  | none
  /-- Behind the backslash. -/
  | backslash
  /-- With some of four hexadecimal digits. -/
  | digits (count value : Nat)
  /-- Behind the first half of a surrogate pair. -/
  | half (high : Nat)
  /-- Behind the first half and a backslash. -/
  | halfBackslash (high : Nat)
  /-- Behind the first half, with some digits of the second. -/
  | halfDigits (high count value : Nat)

/-- What the reader is in the middle of. -/
inductive Mode where
  /-- Before a value. -/
  | value
  /-- Before the first item of an array, or its end. -/
  | firstItem
  /-- Before the first name of an object, or its end. -/
  | firstName
  /-- Before a name. -/
  | name
  /-- Before the colon behind a name. -/
  | colon
  /-- Behind an item or a member. -/
  | next
  /-- In a text, which is a name or a value; its characters so far, last first. -/
  | text (isName : Bool) (read : List Char) (escape : Escape)
  /-- In a number; its characters so far, last first. -/
  | number (read : List Char)
  /-- In a word that stands for a value; the characters that have to follow. -/
  | word (rest : List Char) (value : Json)
  /-- Behind the outermost value. -/
  | done (value : Json)

/-- What the reader knows. -/
structure Reader where
  frames : List Frame
  mode : Mode

/-- The white space of the format. -/
def isSpace (c : Char) : Bool := c == ' ' || c == '\n' || c == '\r' || c == '\t'

/-- May the character stand in a number? -/
def isNumberChar (c : Char) : Bool :=
  c.isDigit || c == '-' || c == '+' || c == '.' || c == 'e' || c == 'E'

/-- The number with the given decimal digits. -/
def digitsValue (digits : List Char) : Nat :=
  digits.foldl (fun n c => n * 10 + (c.toNat - 48)) 0

/-- Splits a text behind its leading digits. -/
def splitDigits (cs : List Char) : List Char × List Char :=
  (cs.takeWhile Char.isDigit, cs.dropWhile Char.isDigit)

/-- Reads a sign and digits, of which there is at least one. -/
def exponent? (cs : List Char) : Option Int :=
  let (sign, digits) : Int × List Char := match cs with
    | '-' :: rest => (-1, rest)
    | '+' :: rest => (1, rest)
    | rest => (1, rest)
  if digits.isEmpty || !digits.all Char.isDigit then none else some (sign * digitsValue digits)

/-- The number that digits are appended to, as long as it fits into 64 bits, and how many digits are
    left then. -/
def significand (n : Nat) : List Char → Nat × Nat
  | [] => (n, 0)
  | c :: cs =>
    let next := n * 10 + (c.toNat - 48)
    if next < 0x10000000000000000 then significand next cs else (n, cs.length + 1)

/-- Reads the digits of a number: those before the point, without needless zeros, and what
    follows. -/
def whole? (cs : List Char) : Option (List Char × List Char) :=
  match splitDigits cs with
  | ([], _) => none
  | ('0' :: _ :: _, _) => none
  | parts => some parts

/-- Reads the digits behind the point, if there is one. -/
def fraction? : List Char → Option (List Char × List Char)
  | '.' :: cs =>
    match splitDigits cs with
    | ([], _) => none
    | parts => some parts
  | cs => some ([], cs)

/-- Reads the exponent, if there is one, up to the end. -/
def power? : List Char → Option (Option Int)
  | [] => some none
  | c :: cs => if c == 'e' || c == 'E' then (exponent? cs).map some else none

/-- The number with these digits: an `int` if it is written without point and exponent and fits
    into 64 bits, a `double` otherwise. Digits that do not fit count by their places. -/
def numberOf (negative : Bool) (whole fraction : List Char) (power : Option Int) : Option Json :=
  let magnitude := digitsValue whole
  let plain := fraction.isEmpty && power.isNone
  -- minus zero is no whole number
  if plain && (if negative then 0 < magnitude && magnitude ≤ 0x8000000000000000
      else magnitude < 0x10000000000000000) then
    some (.int (if negative then -magnitude else magnitude))
  else
    let (front, left) := significand 0 whole
    let (digits, ignored) := significand front fraction
    let exponent : Int := power.getD 0 + left + ignored - fraction.length
    (Double.ofParts? negative digits exponent).map .double

/-- The parts of a number: is it negative, the digits before and behind the point, and the
    exponent. -/
structure NumberParts where
  negative : Bool
  whole : List Char
  fraction : List Char
  power : Option Int

/-- Reads the parts of a number. -/
def numberParts? (cs : List Char) : Option NumberParts := do
  let (negative, cs) := match cs with
    | '-' :: rest => (true, rest)
    | rest => (false, rest)
  let (whole, cs) ← whole? cs
  let (fraction, cs) ← fraction? cs
  let power ← power? cs
  some ⟨negative, whole, fraction, power⟩

/-- Reads a number. -/
def number? (cs : List Char) : Option Json :=
  (numberParts? cs).bind fun p => numberOf p.negative p.whole p.fraction p.power

/-- The value of a hexadecimal digit. -/
def hexValue? (c : Char) : Option Nat :=
  if c.isDigit then some (c.toNat - 48)
  else if 'a' ≤ c && c ≤ 'f' then some (c.toNat - 87)
  else if 'A' ≤ c && c ≤ 'F' then some (c.toNat - 55)
  else none

/-- The character that one letter stands for behind a backslash. -/
def simpleEscape? (c : Char) : Option Char :=
  if c == '"' || c == '\\' || c == '/' then some c
  else if c == 'b' then some (Char.ofNat 8)
  else if c == 'f' then some (Char.ofNat 12)
  else if c == 'n' then some '\n'
  else if c == 'r' then some '\r'
  else if c == 't' then some '\t'
  else none

namespace Reader

/-- The reader before a value. -/
def start : Reader := ⟨[], .value⟩

/-- The reader behind a value. -/
def finish (frames : List Frame) (v : Json) : Option Reader :=
  match frames with
  | [] => some ⟨[], .done v⟩
  | .array items :: rest => some ⟨.array (v :: items) :: rest, .next⟩
  | .member members name :: rest => some ⟨.object ((name, v) :: members) :: rest, .next⟩
  | .object _ :: _ => none

/-- Is the value inside these frames, innermost first, passed over? -/
def isPassed (layout : Layout) (frames : List Frame) : Bool := layout.passes frames.reverse

/-- The reader behind the opening of an array or object. -/
def openFrame (layout : Layout) (frames : List Frame) (f : Frame) (mode : Mode) : Option Reader :=
  if isPassed layout frames || frames.length < maxDepth then some ⟨f :: frames, mode⟩ else none

/-- The first character of a value. -/
def startValue (layout : Layout) (frames : List Frame) (c : Char) : Option Reader :=
  if isSpace c then some ⟨frames, .value⟩
  else if c == '[' then openFrame layout frames (.array []) .firstItem
  else if c == '\x7b' then openFrame layout frames (.object []) .firstName
  else if c == '"' then some ⟨frames, .text false [] .none⟩
  else if c == '-' || c.isDigit then some ⟨frames, .number [c]⟩
  else if c == 'n' then some ⟨frames, .word ['u', 'l', 'l'] .null⟩
  else if c == 't' then some ⟨frames, .word ['r', 'u', 'e'] (.bool true)⟩
  else if c == 'f' then some ⟨frames, .word ['a', 'l', 's', 'e'] (.bool false)⟩
  else none

/-- A character behind an item or a member. -/
def afterValue (frames : List Frame) (c : Char) : Option Reader :=
  if isSpace c then some ⟨frames, .next⟩
  else match frames with
    | .array items :: rest =>
      if c == ',' then some ⟨frames, .value⟩
      else if c == ']' then finish rest (.arr items.reverse)
      else none
    | .object members :: rest =>
      if c == ',' then some ⟨frames, .name⟩
      else if c == '\x7d' then finish rest (.obj members.reverse)
      else none
    | _ => none

/-- A character before a name. -/
def startName (frames : List Frame) (here : Mode) (c : Char) : Option Reader :=
  if isSpace c then some ⟨frames, here⟩
  else if c == '"' then some ⟨frames, .text true [] .none⟩
  else none

/-- The reader behind the closing quote of a text. -/
def finishText (frames : List Frame) (isName : Bool) (read : List Char) : Option Reader :=
  let s := String.ofList read.reverse
  if isName then
    match frames with
    | .object members :: rest => some ⟨.member members s :: rest, .colon⟩
    | _ => none
  else finish frames (.str s)

/-- The reader behind four hexadecimal digits. In what is passed over they need not stand for a
    character. -/
def finishDigits (layout : Layout) (frames : List Frame) (isName : Bool) (read : List Char)
    (value : Nat) : Option Reader :=
  if isPassed layout frames then some ⟨frames, .text isName read .none⟩
  else if 0xD800 ≤ value && value < 0xDC00 then some ⟨frames, .text isName read (.half value)⟩
  else if 0xDC00 ≤ value && value < 0xE000 then none
  else some ⟨frames, .text isName (Char.ofNat value :: read) .none⟩

/-- The reader behind the digits of the second half of a surrogate pair. -/
def finishPair (frames : List Frame) (isName : Bool) (read : List Char) (high low : Nat) :
    Option Reader :=
  if 0xDC00 ≤ low && low < 0xE000 then
    let c := Char.ofNat (0x10000 + (high - 0xD800) * 0x400 + (low - 0xDC00))
    some ⟨frames, .text isName (c :: read) .none⟩
  else none

/-- A character in a text. -/
def inText (layout : Layout) (frames : List Frame) (isName : Bool) (read : List Char)
    (escape : Escape) (c : Char) : Option Reader :=
  let stay (e : Escape) : Option Reader := some ⟨frames, .text isName read e⟩
  match escape with
  | .none =>
    if c == '"' then finishText frames isName read
    else if c == '\\' then stay .backslash
    else if c.toNat < 32 then none
    else some ⟨frames, .text isName (c :: read) .none⟩
  | .backslash =>
    if c == 'u' then stay (.digits 0 0)
    else (simpleEscape? c).map fun d => ⟨frames, .text isName (d :: read) .none⟩
  | .digits count value =>
    (hexValue? c).bind fun d =>
      if count < 3 then stay (.digits (count + 1) (value * 16 + d))
      else finishDigits layout frames isName read (value * 16 + d)
  -- the first half of a pair must be followed by an escape with the second one
  | .half high => if c == '\\' then stay (.halfBackslash high) else none
  | .halfBackslash high => if c == 'u' then stay (.halfDigits high 0 0) else none
  | .halfDigits high count value =>
    (hexValue? c).bind fun d =>
      if count < 3 then stay (.halfDigits high (count + 1) (value * 16 + d))
      else finishPair frames isName read high (value * 16 + d)

/-- A character behind a complete value: the outermost one, or one inside others. -/
def afterComplete (r : Reader) (c : Char) : Option Reader :=
  match r.mode with
  | .done v => if isSpace c then some ⟨r.frames, .done v⟩ else none
  | .next => afterValue r.frames c
  | _ => none

/-- The number that was read. What is passed over is only checked for its form. -/
def finishNumber (layout : Layout) (frames : List Frame) (read : List Char) : Option Json :=
  if isPassed layout frames then (numberParts? read.reverse).map fun _ => .null
  else number? read.reverse

/-- Takes one character. -/
def step (layout : Layout) (r : Reader) (c : Char) : Option Reader :=
  match r.mode with
  | .value => startValue layout r.frames c
  | .firstItem =>
    if isSpace c then some r
    else if c == ']' then afterValue r.frames c
    else startValue layout r.frames c
  | .firstName =>
    if c == '\x7d' then afterValue r.frames c else startName r.frames .firstName c
  | .name => startName r.frames .name c
  | .colon =>
    if isSpace c then some r
    else if c == ':' then some ⟨r.frames, .value⟩
    else none
  | .next => afterValue r.frames c
  | .text isName read escape => inText layout r.frames isName read escape c
  -- a number ends at the first character that cannot belong to one, which is read again
  | .number read =>
    if isNumberChar c then some ⟨r.frames, .number (c :: read)⟩
    else ((finishNumber layout r.frames read).bind (finish r.frames)).bind fun done =>
      done.afterComplete c
  | .word [] _ => none
  | .word [last] v => if c == last then finish r.frames v else none
  | .word (w :: rest) v => if c == w then some ⟨r.frames, .word rest v⟩ else none
  | .done v => if isSpace c then some ⟨r.frames, .done v⟩ else none

/-- The value that has been read, if it is complete. -/
def result? (r : Reader) : Option Json :=
  match r.mode, r.frames with
  | .done v, _ => some v
  | .number read, [] => number? read.reverse
  | _, _ => none

end Reader

/-- Reads a text for a value of the layout. What is passed over is left as some value. -/
def parseAs? (layout : Layout) (text : String) : Option Json :=
  (text.toList.foldlM (Reader.step layout) Reader.start).bind Reader.result?

/-- Reads a text as a JSON value. -/
def parse? (text : String) : Option Json := parseAs? .any text

end Deadwood.Json
