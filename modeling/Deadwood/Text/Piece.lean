import Deadwood.Text.CharClass

/-!
# Offsets, lines and pieces of a text

A text is read as its list of characters. Positions are counted in bytes of the UTF-8 encoding,
so a character advances the position by one to four. Lines are counted from one and end at `'\n'`.

The second half cuts texts into pieces: at a separator, into words, between the ends that white
space leaves free.
-/

namespace Deadwood.Text

/-- The number of bytes that the characters take in UTF-8. -/
def byteLength : List Char → Nat
  | [] => 0
  | c :: cs => c.utf8Size + byteLength cs

@[simp] theorem byteLength_nil : byteLength [] = 0 := rfl

@[simp] theorem byteLength_cons (c : Char) (cs : List Char) :
    byteLength (c :: cs) = c.utf8Size + byteLength cs := rfl

/-- Nothing is counted twice or left out where two texts meet. -/
@[simp] theorem byteLength_append (xs ys : List Char) :
    byteLength (xs ++ ys) = byteLength xs + byteLength ys := by
  induction xs with
  | nil => simp
  | cons c cs ih => simp only [List.cons_append, byteLength_cons, ih]; omega

/-- How many line ends start before the byte offset. -/
def lineEndsBefore : Nat → List Char → Nat
  | _, [] => 0
  | 0, _ :: _ => 0
  | n + 1, c :: cs => (if c = '\n' then 1 else 0) + lineEndsBefore (n + 1 - c.utf8Size) cs

/-- The line that holds the byte offset, counted from one. -/
def lineOf (text : List Char) (offset : Nat) : Nat :=
  lineEndsBefore offset text + 1

/-- The text with a literal taken off its front, if it starts with it. -/
def afterLiteral : List Char → List Char → Option (List Char)
  | [], text => some text
  | _ :: _, [] => none
  | w :: ws, c :: cs => if w = c then afterLiteral ws cs else none

/-- What is left of a text is what follows the literal. -/
theorem afterLiteral_eq_some_iff {word text rest : List Char} :
    afterLiteral word text = some rest ↔ text = word ++ rest := by
  induction word generalizing text with
  | nil => simp [afterLiteral, eq_comm]
  | cons w ws ih =>
    cases text with
    | nil => simp [afterLiteral]
    | cons c cs =>
      -- letter by letter
      by_cases h : w = c
      · simp [afterLiteral, h, ih]
      · simp [afterLiteral, h, Ne.symm h]

/-- The pieces between the members that satisfy `sep`; `n` separators make `n + 1` pieces. -/
def splitAtAll {α : Type} (sep : α → Bool) : List α → List (List α)
  | [] => [[]]
  | c :: cs =>
    if sep c then [] :: splitAtAll sep cs
    else match splitAtAll sep cs with
      | p :: ps => (c :: p) :: ps
      | [] => [[c]]

/-- Does the text hold the word somewhere? -/
def holds (word : List Char) : List Char → Bool
  | [] => word.isEmpty
  | c :: cs => word.isPrefixOf (c :: cs) || holds word cs

/-- The pieces put together with a separator between them. -/
def joinWith (sep : Char) : List (List Char) → List Char
  | [] => []
  | [p] => p
  | p :: ps => p ++ sep :: joinWith sep ps

/-- The text without the white space at its start. -/
def trimLeft (text : List Char) : List Char := text.dropWhile isSpace

/-- The text without the white space at its end. -/
def trimRight (text : List Char) : List Char := (text.reverse.dropWhile isSpace).reverse

/-- The text without the white space at its ends. -/
def trim (text : List Char) : List Char := trimRight (trimLeft text)

/-- The maximal runs of characters without white space. -/
def words (text : List Char) : List (List Char) :=
  (splitAtAll isSpace text).filter fun w => !w.isEmpty

/-- The comma-separated items, trimmed; empty ones are left out. -/
def items (text : List Char) : List (List Char) :=
  ((splitAtAll (· == ',') text).map trim).filter fun w => !w.isEmpty

end Deadwood.Text
