import Deadwood.Digest.Sha256
import Deadwood.Path.Basic
import Deadwood.Text.Octets

/-!
# Keys of kept results

A result is kept under a key that depends on what was done, on the path and on the content of a
file. The parts of a key are set apart by zero octets before they are digested. A file that holds
a result is named by its key; a file that is still being written has a name of its own.
-/

namespace Deadwood.Store

/-- What a result is the result of: an operation on a file of a certain content. -/
structure Subject where
  operation : String
  path : Path
  contentHash : String
  deriving Repr, DecidableEq, Inhabited

/-- The digest of a text. -/
def contentHash (text : String) : String := Text.hex (Sha256.digest (Text.octets text))

/-- The octets that make up a key. -/
def Subject.octets (s : Subject) : List UInt8 :=
  Text.octets s.operation ++ 0 :: Text.octets s.path.text ++ 0 :: Text.octets s.contentHash

/-- The key under which a result is kept. -/
def Subject.key (s : Subject) : String := Text.hex (Sha256.digest s.octets)

/-- Is it a digit of a key? -/
def isKeyDigit (c : Char) : Bool := ('0' ≤ c && c ≤ '9') || ('a' ≤ c && c ≤ 'f')

/-- Is it formed like a key? -/
def isKey (cs : List Char) : Bool := cs.length == 64 && cs.all isKeyDigit

/-- The ending of the names of results. -/
def entryEnding : List Char := ['.', 'j', 's', 'o', 'n']

/-- What stands between the key and the number in the name of an unfinished file. -/
def draftMark : List Char := ['.', 't', 'm', 'p', '.']

/-- The name of the file that holds the result of a key. -/
def entryName (key : String) : String := String.ofList (key.toList ++ entryEnding)

/-- The name of a file in which the result of a key is being written, by the number of the writer
    and a number that it uses once. -/
def draftName (key : String) (writer count : Nat) : String :=
  String.ofList (key.toList ++ draftMark ++ Nat.toDigits 10 writer ++ '.' :: Nat.toDigits 10 count)

/-- The key of a file that is named as a result. -/
def entryKey? (name : String) : Option String :=
  let cs := name.toList
  let key := cs.take 64
  if cs.drop 64 = entryEnding ∧ isKey key then some (String.ofList key) else none

/-- Is it the name of an unfinished file? -/
def isDraftName (name : String) : Bool :=
  let cs := name.toList
  isKey (cs.take 64) && draftMark.isPrefixOf (cs.drop 64)

end Deadwood.Store
