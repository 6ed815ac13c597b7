import Deadwood.Json.Basic
import Deadwood.Text.Octets

/-!
# Writing JSON

`render` writes a value without white space; `pretty` writes one member or item per line, indented
by two blanks. In texts only quotes, backslashes and control characters are escaped.
-/

namespace Deadwood.Json

/-- How a character stands in a text. -/
def escapeChar (c : Char) : List Char :=
  if c = '"' then ['\\', '"']
  else if c = '\\' then ['\\', '\\']
  else if c = '\n' then ['\\', 'n']
  else if c = '\r' then ['\\', 'r']
  else if c = '\t' then ['\\', 't']
  else if c.toNat = 8 then ['\\', 'b']
  else if c.toNat = 12 then ['\\', 'f']
  else if c.toNat < 32 then '\\' :: 'u' :: '0' :: '0' :: Text.hexPair c.toNat.toUInt8
  else [c]

/-- A text in quotes. -/
def quote (s : List Char) : List Char := '"' :: s.flatMap escapeChar ++ ['"']

/-- The decimal digits of a whole number, with its sign. -/
def intChars (n : Int) : List Char :=
  match n with
  | .ofNat k => Nat.toDigits 10 k
  | .negSucc k => '-' :: Nat.toDigits 10 (k + 1)

/-- Digits that are multiplied with a power of ten, written with a point, or with an exponent if the
    point would be far away. Zeros at the end are left out, and no digits are zero. -/
def pointed (digits : List Char) (power : Int) : List Char :=
  let kept := (digits.reverse.dropWhile (· == '0')).reverse
  let power := power + (digits.length - kept.length : Nat)
  let point := kept.length + power
  match kept with
  | [] => ['0', '.', '0']
  | first :: rest =>
    -- whole numbers, numbers with the point inside, small ones, and all others with an exponent
    if 0 ≤ power ∧ point ≤ 16 then kept ++ List.replicate power.toNat '0' ++ ['.', '0']
    else if 0 < point ∧ point ≤ 16 then kept.take point.toNat ++ '.' :: kept.drop point.toNat
    else if -5 < point ∧ point ≤ 0 then '0' :: '.' :: List.replicate (-point).toNat '0' ++ kept
    else first :: (if rest.isEmpty then [] else '.' :: rest) ++ 'e' :: intChars (point - 1)

/-- The text of a number of double precision: the fewest digits that stand for it. -/
def doubleChars (f : Double) : List Char :=
  let text := pointed (Nat.toDigits 10 f.shortest.1) f.shortest.2
  if f.negative then '-' :: text else text

/-- The text of a value that holds no others. -/
def scalarChars : Json → List Char
  | .null => ['n', 'u', 'l', 'l']
  | .bool true => ['t', 'r', 'u', 'e']
  | .bool false => ['f', 'a', 'l', 's', 'e']
  | .int n => intChars n
  | .double f => doubleChars f
  | .str s => quote s.toList
  | .arr _ => ['[', ']']
  | .obj _ => ['\x7b', '\x7d']

mutual

/-- The text of a value, without white space. -/
def chars : Json → List Char
  | .arr items => '[' :: itemChars items
  | .obj members => '\x7b' :: memberChars members
  | v => scalarChars v

/-- The items of an array, commas between them, and the closing bracket. -/
def itemChars : List Json → List Char
  | [] => [']']
  | [v] => chars v ++ [']']
  | v :: rest => chars v ++ ',' :: itemChars rest

/-- The members of an object, commas between them, and the closing brace. -/
def memberChars : List (String × Json) → List Char
  | [] => ['\x7d']
  | [(name, v)] => quote name.toList ++ ':' :: chars v ++ ['\x7d']
  | (name, v) :: rest => quote name.toList ++ ':' :: chars v ++ ',' :: memberChars rest

end

/-- The text of a value, without white space. -/
def render (v : Json) : String := String.ofList v.chars

/-- A new line, indented by two blanks a level. -/
def newLine (level : Nat) : List Char := '\n' :: List.replicate (2 * level) ' '

mutual

/-- The text of a value whose first line stands at the given level. -/
def prettyChars (level : Nat) : Json → List Char
  | .arr (v :: rest) =>
    '[' :: newLine (level + 1) ++ prettyChars (level + 1) v ++ prettyItems level rest
  | .obj ((name, v) :: rest) =>
    '\x7b' :: newLine (level + 1) ++ quote name.toList ++ ':' :: ' ' :: prettyChars (level + 1) v ++
      prettyMembers level rest
  | v => scalarChars v

/-- The items behind the first one, and the closing bracket on a line of its own. -/
def prettyItems (level : Nat) : List Json → List Char
  | [] => newLine level ++ [']']
  | v :: rest => ',' :: newLine (level + 1) ++ prettyChars (level + 1) v ++ prettyItems level rest

/-- The members behind the first one, and the closing brace on a line of its own. -/
def prettyMembers (level : Nat) : List (String × Json) → List Char
  | [] => newLine level ++ ['\x7d']
  | (name, v) :: rest =>
    ',' :: newLine (level + 1) ++ quote name.toList ++ ':' :: ' ' :: prettyChars (level + 1) v ++
      prettyMembers level rest

end

/-- The text of a value on indented lines. -/
def pretty (v : Json) : String := String.ofList (v.prettyChars 0)

end Deadwood.Json
