import Deadwood.Json.Decode
import Deadwood.Json.Parser
import Deadwood.Json.Printer

/-!
# Entries

A kept result: the key that it is kept under, when and by which version of the analysis it was
made, and the result itself as a JSON value. An entry is stored as the text of a JSON object.
-/

namespace Deadwood.Store

/-- A kept result. -/
structure Entry where
  key : String
  /-- When the result was made, in milliseconds. -/
  createdAt : Nat
  /-- The version of the analysis that made it. -/
  schema : String
  payload : Json
  deriving Repr, Inhabited

namespace Entry

/-- The JSON of an entry. -/
def toJson (e : Entry) : Json :=
  .obj [("key", .str e.key), ("created_at", .ofNat e.createdAt), ("schema_version", .str e.schema),
    ("payload", e.payload)]

/-- The names of an entry's members. -/
def memberNames : List String := ["key", "created_at", "schema_version", "payload"]

/-- Reads an entry; all of its members have to be there. -/
def ofJson? (v : Json) : Option Entry := do
  match ← v.record? memberNames with
  | [some key, some createdAt, some schema, some payload] =>
    some {
      key := ← key.text?
      createdAt := ← createdAt.nat?
      schema := ← schema.text?
      payload := payload.lastMembers }
  | _ => none

/-- The text that stores an entry. -/
def encode (e : Entry) : String := e.toJson.render

/-- Reads the text that stores an entry. Members that an entry does not have are passed over. -/
def decode? (text : String) : Option Entry :=
  (Json.parseAs? (.ofNames memberNames) text).bind ofJson?

end Entry
end Deadwood.Store
