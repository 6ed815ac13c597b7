import Deadwood.Store.Key

/-!
# Names of entries and drafts

A key has sixty-four hexadecimal digits, whatever it is the key of, so the name of an entry tells
its key: `entryKey?_entryName`. The name of a draft is never taken for that of an entry
(`entryKey?_of_isDraftName`).
-/

namespace Deadwood

/-- `bigEndian` writes as many octets as it is asked for. -/
theorem Sha256.length_bigEndian (count n : Nat) : (bigEndian count n).length = count := by
  induction count with
  | zero => rfl
  | succ count ih => rw [bigEndian, List.length_cons, ih]

/-- `digest` has 32 octets, whatever the message is. -/
theorem Sha256.length_digest (message : List UInt8) : (digest message).length = 32 := by
  simp [digest, State.words, length_bigEndian]

/-- `hex` writes two digits for each octet. -/
theorem Text.length_toList_hex (bytes : List UInt8) :
    (hex bytes).toList.length = 2 * bytes.length := by
  rw [hex, String.toList_ofList]
  induction bytes with
  | nil => rfl
  | cons b bytes ih =>
    rw [List.flatMap_cons, List.length_append, ih, List.length_cons]
    simp only [hexPair, List.length_cons, List.length_nil]
    omega

namespace Store

/-- `lowerHex` gives digits of the kind that keys have. -/
theorem isKeyDigit_lowerHex : ∀ n < 16, isKeyDigit (Text.lowerHex n) = true := by
  decide

/-- `hex` writes nothing but digits of the kind that keys have. -/
theorem all_isKeyDigit_hex (bytes : List UInt8) :
    (Text.hex bytes).toList.all isKeyDigit = true := by
  rw [Text.hex, String.toList_ofList, List.all_eq_true]
  intro c hc
  obtain ⟨b, -, hc⟩ := List.mem_flatMap.1 hc
  have hb : b.toNat < 256 := b.toNat_lt
  simp only [Text.hexPair, List.mem_cons, List.not_mem_nil, or_false] at hc
  rcases hc with rfl | rfl
  · exact isKeyDigit_lowerHex _ (by omega)
  · exact isKeyDigit_lowerHex _ (by omega)

/-- `Subject.key` gives keys of one length. -/
theorem length_key (t : Subject) : t.key.toList.length = 64 := by
  rw [Subject.key, Text.length_toList_hex, Sha256.length_digest]

/-- `isKey` holds of the key of any subject. -/
theorem isKey_key (t : Subject) : isKey t.key.toList = true := by
  rw [isKey, Subject.key, Text.length_toList_hex, Sha256.length_digest, all_isKeyDigit_hex]
  rfl

/-! ## Entries -/

/-- `entryKey?` reads the key off the name of an entry. -/
@[simp] theorem entryKey?_entryName (t : Subject) : entryKey? (entryName t.key) = some t.key := by
  have hkey := isKey_key t
  have hlength := length_key t
  rw [entryKey?, entryName, String.toList_ofList]
  simp only [List.take_left' hlength, List.drop_left' hlength, hkey, and_self, if_true,
    String.ofList_toList]

/-- `entryName` tells keys apart. -/
theorem entryName_injective {key key' : String} (h : entryName key = entryName key') :
    key = key' := by
  rw [entryName, entryName, String.ofList_inj] at h
  exact String.toList_inj.1 (List.append_cancel_right h)

/-! ## Drafts -/

/-- What `isDraftName` takes for a draft has no key for `entryKey?`. -/
theorem entryKey?_of_isDraftName {name : String} (h : isDraftName name = true) :
    entryKey? name = none := by
  rw [isDraftName, Bool.and_eq_true, List.isPrefixOf_iff_prefix] at h
  obtain ⟨rest, hrest⟩ := h.2
  rw [entryKey?, if_neg]
  rintro ⟨hending, -⟩
  rw [hending] at hrest
  simp [draftMark, entryEnding] at hrest

/-- `draftName` letter by letter: the key, the mark of drafts, and two numbers with a dot between
    them. -/
theorem toList_draftName (key : String) (writer count : Nat) : (draftName key writer count).toList =
    key.toList ++ (draftMark ++ (Nat.toDigits 10 writer ++ '.' :: Nat.toDigits 10 count)) := by
  simp [draftName]

/-- `isDraftName` knows the names that `draftName` gives. -/
theorem isDraftName_draftName (t : Subject) (writer count : Nat) :
    isDraftName (draftName t.key writer count) = true := by
  simp only [isDraftName, toList_draftName, List.take_left' (length_key t),
    List.drop_left' (length_key t), isKey_key, Bool.true_and]
  rw [List.isPrefixOf_iff_prefix]
  exact List.prefix_append _ _

/-- `draftName` and `entryName` never give the same name. -/
theorem draftName_ne_entryName (t t' : Subject) (writer count : Nat) :
    draftName t.key writer count ≠ entryName t'.key := by
  intro heq
  have hkey := entryKey?_of_isDraftName (isDraftName_draftName t writer count)
  rw [heq, entryKey?_entryName] at hkey
  cases hkey

end Store
end Deadwood
