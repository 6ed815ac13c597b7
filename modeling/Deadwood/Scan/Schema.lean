import Deadwood.Digest.Sha256
import Deadwood.Text.Octets

/-!
# Versions of results

Kept results are only good for the same analysis: the same program, the same layout of what is
kept, the same analyzers in the same order, and the same choice about imports of types.
-/

namespace Deadwood.Scan

/-- The version of the program. -/
def version : String := "0.4.0"

/-- The number of the layout in which results are kept. -/
def layout : Nat := 1

/-- The octets that tell analyses apart: each analyzer's name up to a zero octet, and a last one
    for the choice about imports of types. -/
def schemaOctets (analyzers : List String) (checkTypeImports : Bool) : List UInt8 :=
  analyzers.flatMap (fun name => Text.octets name ++ [0]) ++ [if checkTypeImports then 1 else 0]

/-- The version under which the results of an analysis are kept. -/
def schema (analyzers : List String) (checkTypeImports : Bool) : String :=
  let print := (Sha256.digest (schemaOctets analyzers checkTypeImports)).take 6
  version ++ "+c" ++ String.ofList (Nat.toDigits 10 layout) ++ "+" ++ Text.hex print

end Deadwood.Scan
