import Deadwood.Yaml.Parser

/-!
# Reading values out of YAML

Readers for the kinds of values that a node can be. A text is read from any scalar; numbers and
truth values only from plain ones. Where nothing is written, that is an empty list, a mapping
without members, or none.
-/

namespace Deadwood.Yaml

/-- Reads a number with digits to a base, of at most 64 bits. -/
def digits? (base : Nat) (ds : List Char) : Option Nat := do
  if ds.isEmpty then none
  else
    let values ← ds.mapM Json.hexValue?
    let n := values.foldl (fun n d => n * base + d) 0
    if values.all (· < base) && n < 0x10000000000000000 then some n else none

/-- Reads a decimal number. One that starts with a needless zero is a text. -/
def decimal? : List Char → Option Nat
  | '0' :: d :: ds => if (d :: ds).all Char.isDigit then none else digits? 10 ('0' :: d :: ds)
  | ds => digits? 10 ds

/-- Reads a number without a sign: hexadecimal, octal, binary or decimal. -/
def magnitude? : List Char → Option Nat
  | '0' :: 'x' :: ds => digits? 16 ds
  | '0' :: 'o' :: ds => digits? 8 ds
  | '0' :: 'b' :: ds => digits? 2 ds
  | ds => decimal? ds

/-- Reads a number that may have a plus sign. -/
def unsigned? : List Char → Option Nat
  | '+' :: ds => magnitude? ds
  | ds => magnitude? ds

/-- The text of a scalar that may stand for a value of a kind: a plain one, or a literal block
    that is tagged as such. -/
def valueText? (kind : String) : Yaml → Option String
  | .scalar .plain _ text => some text
  | .scalar .literal (some tag) text => if tag = coreTag ++ kind then some text else none
  | _ => none

/-- Reads a number from zero on. -/
def nat? (v : Yaml) : Option Nat := (valueText? "int" v).bind fun text => unsigned? text.toList

/-- Reads a truth value. -/
def bool? (v : Yaml) : Option Bool := do
  let text ← valueText? "bool" v
  if ["true", "True", "TRUE"].contains text then some true
  else if ["false", "False", "FALSE"].contains text then some false
  else none

/-- The texts that stand for none. -/
def noneTexts : List String := ["", "null", "Null", "NULL", "~"]

/-- Does the scalar say that there is no value? -/
def isNone : Yaml → Bool
  | .scalar .plain none text => noneTexts.contains text
  | .scalar .plain (some tag) text =>
    tag = coreTag ++ "null" && text != "" && noneTexts.contains text
  | _ => false

/-- Is nothing written? -/
def isAbsent : Yaml → Bool
  | .scalar .plain _ text => text.isEmpty
  | _ => false

/-- Reads the text of a scalar. -/
def text? : Yaml → Option String
  | .scalar _ _ text => some text
  | _ => none

/-- Reads a sequence. -/
def list? : Yaml → Option (List Yaml)
  | .sequence items => some items
  | v => if isAbsent v then some [] else none

/-- The value of a name among pairs; fails where there is more than one. -/
def single? (pairs : List (String × Yaml)) (name : String) :
    Option (Option Yaml) :=
  match pairs.filter fun p => p.1 == name with
  | [] => some none
  | [p] => some (some p.2)
  | _ => none

/-- Reads the values of named members. All keys have to be scalars. -/
def members? (names : List String) : Yaml → Option (List (Option Yaml))
  | .mapping pairs => do
    let named ← pairs.mapM fun p => (text? p.1).map fun name => (name, p.2)
    names.mapM (single? named)
  | v => if isAbsent v then some (names.map fun _ => none) else none

end Deadwood.Yaml
