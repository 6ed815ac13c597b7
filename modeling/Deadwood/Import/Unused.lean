import Deadwood.Import.Extract
import Deadwood.Issue.Basic
import Deadwood.Text.Octets

/-!
# Unused imports

A name that an import statement binds is in use where it occurs as a whole word outside the
statement. Scopes are not looked at: an occurrence in a string or a comment is a use as well.

Words are looked for in the octets of the text.
-/

namespace Deadwood.Import

open Text

/-- Would the octet, next to a name, make it part of a longer word? Every octet above ASCII
    would. -/
def extendsWord (b : UInt8) : Bool :=
  (Char.ofUInt8 b).isAlphanum || b == '_'.toUInt8 || b == '$'.toUInt8 || 0x80 ≤ b

/-- Does the word occur in the octets, which have this one before them? Where it stands but is
    part of a longer word, it is passed over whole: `skip` counts its octets that are still
    ahead. -/
def occursFrom (word : List UInt8) : Nat → Option UInt8 → List UInt8 → Bool
  | _, _, [] => false
  | skip + 1, _, b :: bs => occursFrom word skip (some b) bs
  | 0, before, b :: bs =>
    if word.isPrefixOf (b :: bs) then
      !before.any extendsWord && !((b :: bs).drop word.length).head?.any extendsWord ||
        occursFrom word (word.length - 1) (some b) bs
    else occursFrom word 0 (some b) bs

/-- Does the word occur in the octets as a whole word? -/
def occurs (word octets : List UInt8) : Bool := !word.isEmpty && occursFrom word 0 none octets

/-- Is the binding in use outside its statement? -/
def isUsed (octets : List UInt8) (s : Statement) (b : Binding) : Bool :=
  occurs (Text.octets b.name) (octets.take s.start) ||
    occurs (Text.octets b.name) (octets.drop s.stop)

/-- The issue about a binding that is not in use. -/
def unusedIssue (file : Path) (s : Statement) (b : Binding) : Issue :=
  { Issue.ofKind .unusedImport file s!"'{b.name}' is imported but never used" with
    line := some s.line
    symbol := some b.name
    flavor := if b.typeOnly then some "typescript" else none }

/-- The issues about the imports that a text does not use, in the order of the text. Bindings of
    types are left out unless `checkTypes` asks for them. -/
def unusedIssues (checkTypes : Bool) (file : Path) (text : String) : List Issue :=
  let octets := Text.octets text
  (extract text).statements.flatMap fun s =>
    (s.bindings.filter fun b =>
      (checkTypes || !b.typeOnly) && isIdentifier b.name.toList && !isUsed octets s b).map
        (unusedIssue file s)

end Deadwood.Import
