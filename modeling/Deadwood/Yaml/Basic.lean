/-!
# YAML nodes

The nodes of a YAML document. A scalar keeps its text as written once quotes and folding are
undone; what it stands for is decided by who reads it, and depends on whether it was quoted.
-/

namespace Deadwood

namespace Yaml

/-- How a scalar is written. -/
inductive Style where
  | plain
  | quoted
  /-- A block behind `|`. -/
  | literal
  /-- A block behind `>`. -/
  | folded
  deriving Repr, DecidableEq, Inhabited

end Yaml

/-- A node of a document. -/
inductive Yaml where
  | scalar (style : Yaml.Style) (tag : Option String) (text : String)
  | sequence (items : List Yaml)
  | mapping (pairs : List (Yaml × Yaml))
  deriving Repr, Inhabited

namespace Yaml

/-- The scalar that stands where nothing is written. -/
def absent : Yaml := .scalar .plain none ""

/-- The first part of the tags that the language itself defines. -/
def coreTag : String := "tag:yaml.org,2002:"

end Yaml
end Deadwood
