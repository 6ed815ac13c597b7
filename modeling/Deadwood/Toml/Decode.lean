import Deadwood.Toml.Parser

/-!
# Reading values out of TOML

Readers for the kinds of values that a TOML value can be. A record is written as a table, or as the
array of its members' values in their order; items beyond these do not count.
-/

namespace Deadwood.Toml

/-- Reads a truth value. -/
def bool? : Toml → Option Bool
  | .bool b => some b
  | _ => none

/-- Reads a whole number from zero on. -/
def nat? : Toml → Option Nat
  | .int (.ofNat n) => some n
  | _ => none

/-- Reads a text. -/
def text? : Toml → Option String
  | .str s => some s
  | _ => none

/-- Reads an array. -/
def list? : Toml → Option (List Toml)
  | .arr items => some items
  | .tables items => some (items.map (.table .header))
  | _ => none

/-- The values of a record's members, in the order of their names. -/
def record? (names : List String) : Toml → Option (List (Option Toml))
  | .table _ members => some (names.map fun n => members.lookup n)
  | v => (list? v).map fun items => (names.zipIdx).map fun n => items[n.2]?

end Deadwood.Toml
