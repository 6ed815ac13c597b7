import Deadwood.Import.Pattern

/-!
# Import clauses

The part of an import statement between `import` and `from`, read for the names that it binds:
a default name, `* as name`, and names in braces. What cannot be bound is passed over.
-/

namespace Deadwood.Import

open Text

/-- The binding that one item before the braces makes: `*` with an alias, or a default name. -/
def headBinding? (typeOnly : Bool) (item : List Char) : Option Binding :=
  match item with
  | '*' :: rest =>
    match afterLiteral asWord (trim rest) with
    | some aliased =>
      let name := trim aliased
      if isIdentifier name then some ⟨String.ofList name, none, .namespaceAlias, typeOnly⟩ else none
    | none => none
  | name => if isIdentifier name then some ⟨String.ofList name, none, .default, typeOnly⟩ else none

/-- The text without the quotes at its ends. -/
def trimQuotes (text : List Char) : List Char :=
  let quoted (c : Char) : Bool := c == '"' || c == '\''
  ((text.dropWhile quoted).reverse.dropWhile quoted).reverse

/-- The binding that one item in braces makes: a name, or a name and its alias. -/
def namedBinding? (typeOnly : Bool) (item : List Char) : Option Binding :=
  let (inlineType, item) := match afterLiteral (typeWord ++ [' ']) item with
    | some rest => (true, trim rest)
    | none => (false, item)
  let binding? (source : Option String) (name : List Char) : Option Binding :=
    if isIdentifier name then some ⟨String.ofList name, source, .named, typeOnly || inlineType⟩
    else none
  match words item with
  | [name] => binding? none name
  -- the imported name may be in quotes, the local one not
  | [source, keyword, name] =>
    if keyword = asWord then binding? (some (String.ofList (trimQuotes source))) name else none
  | _ => none

/-- The text up to the last `}`, or all of it where there is none. -/
def beforeLastBrace (text : List Char) : List Char :=
  match text.reverse.dropWhile (· != '}') with
  | _ :: inside => inside.reverse
  | [] => text

/-- The names that a clause binds, in its order. -/
def bindingsOf (typeOnly : Bool) (clause : List Char) : List Binding :=
  let clause := trim clause
  let head := clause.takeWhile (· != '{')
  let braced := (clause.dropWhile (· != '{')).drop 1
  (items head).filterMap (headBinding? typeOnly) ++
    (items (beforeLastBrace braced)).filterMap (namedBinding? typeOnly)

end Deadwood.Import
