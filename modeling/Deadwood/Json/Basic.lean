import Deadwood.Json.Double

/-!
# JSON values

The values of the JSON format. The members of an object keep their order, and a name may occur
more than once: which one counts is for the reader of the value to say.
-/

namespace Deadwood

/-- A JSON value. -/
inductive Json where
  | null
  | bool (value : Bool)
  /-- A whole number of at most 64 bits. -/
  | int (value : Int)
  /-- Any other number. -/
  | double (value : Double)
  | str (value : String)
  | arr (items : List Json)
  | obj (members : List (String × Json))
  deriving Repr, Inhabited

namespace Json

/-- The number `n`. -/
def ofNat (n : Nat) : Json := .int n

/-- The member that exists only where there is a value. -/
def optional (name : String) (value : Option Json) : List (String × Json) :=
  (value.map fun v => (name, v)).toList

end Json
end Deadwood
