import Deadwood.Json.Parser
import Deadwood.Toml.Basic
import Deadwood.Yaml.Scalar

/-!
# TOML scalars

Strings in one or three quotes, with and without escapes; whole numbers to four bases; and numbers,
dates and times of which only the form is looked at.
-/

namespace Deadwood.Toml

/-- Is it a blank or a tab? -/
def isBlank (c : Char) : Bool := c == ' ' || c == '\t'

/-- May the character stand in comments and strings? -/
def isAllowed (c : Char) : Bool := c == '\t' || (32 ≤ c.toNat && c.toNat != 127)

/-- A text and what follows it. -/
abbrev Taken := List Char × List Char

/-- What a string is in the middle of. -/
inductive Inside where
  | text
  /-- Behind a backslash. -/
  | backslash
  /-- In a code, with so many digits to come. -/
  | code (digits value : Nat)
  /-- Behind a backslash at the end of a line; has the line ended? -/
  | lineEnd (ended : Bool)
  /-- Behind so many quotes, one after the other. -/
  | quotes (count : Nat)

/-- The character that a letter stands for behind a backslash. -/
def escaped? (c : Char) : Option Char :=
  if c == 'b' then some (Char.ofNat 8)
  else if c == 't' then some '\t'
  else if c == 'n' then some '\n'
  else if c == 'f' then some (Char.ofNat 12)
  else if c == 'r' then some '\r'
  else if c == '"' || c == '\\' then some c
  else none

/-- Reads a code, digit by digit. -/
def codeStep (digits value : Nat) (c : Char) : Option (Char ⊕ Nat) :=
  (Json.hexValue? c).bind fun d =>
    let value := value * 16 + d
    if digits ≤ 1 then (Yaml.ofCode? value).map .inl else some (.inr value)

/-- Reads a string of one line from the middle, up to its closing quote. -/
def lineFrom (quote : Char) (inside : Inside) (text : List Char) : List Char → Option Taken
  | [] => none
  | c :: cs =>
    match inside with
    | .text =>
      if c == quote then some (text.reverse, cs)
      else if c == '\\' && quote == '"' then lineFrom quote .backslash text cs
      else if isAllowed c then lineFrom quote .text (c :: text) cs
      else none
    | .backslash =>
      match escaped? c with
      | some d => lineFrom quote .text (d :: text) cs
      | none =>
        if c == 'u' then lineFrom quote (.code 4 0) text cs
        else if c == 'U' then lineFrom quote (.code 8 0) text cs
        else none
    -- the code point of an escape, digit by digit
    | .code digits value =>
      match codeStep digits value c with
      | some (.inl d) => lineFrom quote .text (d :: text) cs
      | some (.inr value) => lineFrom quote (.code (digits - 1) value) text cs
      | none => none
    | _ => none

/-- Reads a string in three quotes from the middle. Two quotes more may stand before the closing
    ones. Line ends have been written as one character each. -/
def linesFrom (quote : Char) (inside : Inside) (text : List Char) : List Char → Option Taken
  | [] =>
    match inside with
    -- three quotes end the text, and up to two more before them belong to it
    | .quotes n => if 3 ≤ n then some (text.drop 3 |>.reverse, []) else none
    | _ => none
  | c :: cs =>
    let plain : Option Taken :=
      if c == '\\' && quote == '"' then linesFrom quote .backslash text cs
      else if isAllowed c || c == '\n' then linesFrom quote .text (c :: text) cs
      else none
    match inside with
    | .text => if c == quote then linesFrom quote (.quotes 1) (c :: text) cs else plain
    | .quotes n =>
      if c == quote then
        if n < 5 then linesFrom quote (.quotes (n + 1)) (c :: text) cs else none
      else if 3 ≤ n then some (text.drop 3 |>.reverse, c :: cs)
      else plain
    | .backslash =>
      match escaped? c with
      | some d => linesFrom quote .text (d :: text) cs
      | none =>
        if c == 'u' then linesFrom quote (.code 4 0) text cs
        else if c == 'U' then linesFrom quote (.code 8 0) text cs
        else if isBlank c then linesFrom quote (.lineEnd false) text cs
        else if c == '\n' then linesFrom quote (.lineEnd true) text cs
        else none
    -- behind a backslash at the end of a line all white space is skipped
    | .lineEnd ended =>
      if c == '\n' then linesFrom quote (.lineEnd true) text cs
      else if isBlank c then linesFrom quote (.lineEnd ended) text cs
      else if !ended then none
      else if c == quote then linesFrom quote (.quotes 1) (c :: text) cs
      else plain
    | .code digits value =>
      match codeStep digits value c with
      | some (.inl d) => linesFrom quote .text (d :: text) cs
      | some (.inr value) => linesFrom quote (.code (digits - 1) value) text cs
      | none => none

/-- Reads a string from behind its first quote. -/
def string? (quote : Char) : List Char → Option Taken
  | a :: b :: cs =>
    if a == quote && b == quote then
      match cs with
      | '\n' :: cs => linesFrom quote .text [] cs
      | cs => linesFrom quote .text [] cs
    else lineFrom quote .text [] (a :: b :: cs)
  | cs => lineFrom quote .text [] cs

/-! ## Numbers, dates and times -/

/-- The digits of a number, with single underscores between them left out. -/
def digits? (isDigit : Char → Bool) : List Char → Option (List Char)
  | [] => none
  | [d] => if isDigit d then some [d] else none
  | d :: '_' :: rest => if isDigit d then (digits? isDigit rest).map (d :: ·) else none
  | d :: rest => if isDigit d then (digits? isDigit rest).map (d :: ·) else none

/-- The value of digits to a base. -/
def valueOf (base : Nat) (ds : List Char) : Nat :=
  ds.foldl (fun n d => n * base + (Json.hexValue? d).getD 0) 0

/-- Reads digits to a base. -/
def based? (base : Nat) (cs : List Char) : Option Int :=
  let isDigit (c : Char) : Bool := (Json.hexValue? c).any (· < base)
  (digits? isDigit cs).map fun ds => (valueOf base ds : Int)

/-- Splits off a sign. -/
def splitSign : List Char → Bool × List Char
  | '-' :: cs => (true, cs)
  | '+' :: cs => (false, cs)
  | cs => (false, cs)

/-- Reads decimal digits without needless zeros. -/
def decimalDigits? (cs : List Char) : Option (List Char) :=
  match digits? Char.isDigit cs with
  | some ('0' :: _ :: _) => none
  | ds => ds

/-- Reads a whole number of 64 bits. -/
def int? (cs : List Char) : Option Int := do
  let n ← match cs with
    | '0' :: 'x' :: ds => based? 16 ds
    | '0' :: 'o' :: ds => based? 8 ds
    | '0' :: 'b' :: ds => based? 2 ds
    -- only decimal numbers have a sign
    | cs =>
      let (negative, ds) := splitSign cs
      (decimalDigits? ds).map fun ds =>
        let n : Int := valueOf 10 ds
        if negative then -n else n
  if -0x8000000000000000 ≤ n && n < 0x8000000000000000 then some n else none

/-- Is it an exponent, without its letter? -/
def isExponent (cs : List Char) : Bool := (digits? Char.isDigit (splitSign cs).2).isSome

/-- Is it a number with a fraction or an exponent, or one that is none? -/
def isFraction (cs : List Char) : Bool :=
  let body := (splitSign cs).2
  let whole := body.takeWhile fun c => c != '.' && c != 'e' && c != 'E'
  -- digits must stand between the point and the exponent
  let splitExponent (cs : List Char) : Bool × Bool :=
    let front := cs.takeWhile fun c => c != 'e' && c != 'E'
    ((digits? Char.isDigit front).isSome,
      match cs.drop front.length with
      | [] => true
      | _ :: rest => isExponent rest)
  body == ['i', 'n', 'f'] || body == ['n', 'a', 'n'] ||
    ((decimalDigits? whole).isSome &&
      match body.drop whole.length with
      | '.' :: rest => (splitExponent rest).1 && (splitExponent rest).2
      | _ :: rest => isExponent rest
      | [] => false)

/-- Reads a number of so many decimal digits. -/
def fixed? (count : Nat) (cs : List Char) : Option (Nat × List Char) :=
  let ds := cs.take count
  if ds.length == count && ds.all Char.isDigit then some (valueOf 10 ds, cs.drop count) else none

/-- Passes a character. -/
def passChar (test : Char → Bool) : List Char → Option (List Char)
  | c :: cs => if test c then some cs else none
  | [] => none

/-- The number of days of a month. -/
def daysOf (year month : Nat) : Nat :=
  if month == 2 then
    if year % 4 == 0 && (year % 100 != 0 || year % 400 == 0) then 29 else 28
  else if month == 4 || month == 6 || month == 9 || month == 11 then 30
  else 31

/-- Passes a date. -/
def date? (cs : List Char) : Option (List Char) := do
  let (year, cs) ← fixed? 4 cs
  let (month, cs) ← fixed? 2 (← passChar (· == '-') cs)
  let (day, cs) ← fixed? 2 (← passChar (· == '-') cs)
  if 1 ≤ month && month ≤ 12 && 1 ≤ day && day ≤ daysOf year month then some cs else none

/-- Passes hours and minutes. -/
def clock? (cs : List Char) : Option (List Char) := do
  let (hour, cs) ← fixed? 2 cs
  let (minute, cs) ← fixed? 2 (← passChar (· == ':') cs)
  if hour ≤ 23 && minute ≤ 59 then some cs else none

/-- Passes a time of day. -/
def time? (cs : List Char) : Option (List Char) := do
  let (second, cs) ← fixed? 2 (← passChar (· == ':') (← clock? cs))
  if second ≤ 60 then
    match cs with
    | '.' :: ds =>
      if (ds.takeWhile Char.isDigit).isEmpty then none else some (ds.dropWhile Char.isDigit)
    | cs => some cs
  else none

/-- Passes the offset of a time from the one of the null meridian, if one follows. -/
def offset? (cs : List Char) : Option (List Char) :=
  match cs with
  | [] => some []
  | c :: rest =>
    if c == 'Z' || c == 'z' then some rest
    else if c == '+' || c == '-' then clock? rest
    else some (c :: rest)

/-- Is it a date, a time, or both? -/
def isMoment (cs : List Char) : Bool :=
  match date? cs with
  | some [] => true
  | some (c :: rest) =>
    (c == 'T' || c == 't' || c == ' ') && ((time? rest).bind offset?) == some []
  | none => time? cs == some []

/-- Is it a character of a number, a date or a word? -/
def isWordChar (c : Char) : Bool :=
  c.isAlphanum || c == '+' || c == '-' || c == '.' || c == '_' || c == ':'

/-- Splits off a number, a date or a word. A blank may stand between a date and a time. -/
def splitWord (cs : List Char) : Taken :=
  let word := cs.takeWhile isWordChar
  let rest := cs.drop word.length
  match date? word, rest with
  | some [], ' ' :: d :: more =>
    if d.isDigit then
      let time := (d :: more).takeWhile isWordChar
      (word ++ ' ' :: time, (d :: more).drop time.length)
    else (word, rest)
  | _, _ => (word, rest)

/-- The value of a number, a date or a word. -/
def wordValue? (word : List Char) : Option Toml :=
  if word == ['t', 'r', 'u', 'e'] then some (.bool true)
  else if word == ['f', 'a', 'l', 's', 'e'] then some (.bool false)
  else match int? word with
    | some n => some (.int n)
    | none => if isFraction word || isMoment word then some .other else none

end Deadwood.Toml
