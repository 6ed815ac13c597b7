import Deadwood.Json.Basic

/-!
# Reading values out of JSON

Readers for the kinds of values that a JSON value can be. A record is written as an object, whose
unknown members are passed over, or as the array of its members' values in their order.
-/

namespace Deadwood.Json

/-- Reads a truth value. -/
def bool? : Json → Option Bool
  | .bool b => some b
  | _ => none

/-- Reads a whole number from zero on. -/
def nat? : Json → Option Nat
  | .int (.ofNat n) => some n
  | _ => none

/-- Reads a text. -/
def text? : Json → Option String
  | .str s => some s
  | _ => none

/-- Reads an array. -/
def list? : Json → Option (List Json)
  | .arr items => some items
  | _ => none

/-- Is it `null`? -/
def isNull : Json → Bool
  | .null => true
  | _ => false

/-- Reads `null` as none, and any other value with the reader. -/
def optional? {α : Type} (read : Json → Option α) (v : Json) : Option (Option α) :=
  if v.isNull then some none else (read v).map some

/-- The values under a name, in their order. -/
def valuesOf (members : List (String × Json)) (name : String) : List Json :=
  (members.filter fun m => m.1 == name).map (·.2)

/-- The value under a name; fails where there is more than one. -/
def single? (members : List (String × Json)) (name : String) : Option (Option Json) :=
  match valuesOf members name with
  | [] => some none
  | [v] => some (some v)
  | _ => none

/-- The values of a record's members, in the order of their names. -/
def record? (names : List String) : Json → Option (List (Option Json))
  | .obj members => names.mapM (single? members)
  | .arr items =>
    if items.length ≤ names.length then
      some (items.map some ++ List.replicate (names.length - items.length) none)
    else none
  | _ => none

mutual

/-- The value in which of members of one name only the last is left. -/
def lastMembers : Json → Json
  | .arr items => .arr (lastMembersOfItems items)
  | .obj members => .obj (lastMembersOf members)
  | v => v

/-- `lastMembers` for each item. -/
def lastMembersOfItems : List Json → List Json
  | [] => []
  | v :: rest => lastMembers v :: lastMembersOfItems rest

/-- Of members of one name, the last one, its own value treated alike. -/
def lastMembersOf : List (String × Json) → List (String × Json)
  | [] => []
  | (name, v) :: rest =>
    let kept := lastMembersOf rest
    if rest.any fun m => m.1 == name then kept else (name, lastMembers v) :: kept

end

end Deadwood.Json
