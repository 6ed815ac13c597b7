import Deadwood.Text.Octets

/-!
# Texts and their octets

A text is read back from its octets (`ofOctets?_octets`), so different texts have different ones.
All octets of a character beyond ASCII are high, and so a place of the octets with a low octet on
one side of it is a place between characters (`cut_or_inside`).
-/

namespace Deadwood.Text

/-- `ofOctets?` reads a text back from its octets. -/
theorem ofOctets?_octets (s : String) : ofOctets? (octets s) = some s := by
  have hencode : s.toByteArray = s.toList.utf8Encode := by
    rw [← String.toByteArray_ofList, String.ofList_toList]
  have hbytes : (⟨(octets s).toArray⟩ : ByteArray) = s.toByteArray := by
    rw [hencode]
    exact ByteArray.ext List.data_toByteArray.symm
  rw [ofOctets?, hbytes, String.fromUTF8?, dif_pos s.isValidUTF8]
  rfl

/-- `octets` are those of the characters, one after the other. -/
theorem octets_ofList (cs : List Char) :
    octets (String.ofList cs) = cs.flatMap String.utf8EncodeChar := by
  rw [octets, String.toList_ofList]

/-- `octets` tell texts apart. -/
theorem octets_inj {s t : String} (h : octets s = octets t) : s = t := by
  have hsome := congrArg ofOctets? h
  rwa [ofOctets?_octets, ofOctets?_octets, Option.some_inj] at hsome

/-- `octets` tell lists of characters apart. -/
theorem octets_ofList_inj {cs ds : List Char}
    (h : octets (String.ofList cs) = octets (String.ofList ds)) : cs = ds :=
  String.ofList_injective (octets_inj h)

/-- `octets` start with those of the first character. -/
theorem octets_ofList_cons (c : Char) (cs : List Char) :
    octets (String.ofList (c :: cs)) = String.utf8EncodeChar c ++ octets (String.ofList cs) := by
  simp only [octets_ofList, List.flatMap_cons]

/-- `octets` of texts that are put together are put together. -/
theorem octets_ofList_append (cs ds : List Char) :
    octets (String.ofList (cs ++ ds)) = octets (String.ofList cs) ++ octets (String.ofList ds) := by
  simp only [octets_ofList, List.flatMap_append]

/-- `byteLength` is the number of octets. -/
theorem length_octets_ofList (cs : List Char) :
    (octets (String.ofList cs)).length = byteLength cs := by
  induction cs with
  | nil => rfl
  | cons c cs ih =>
    rw [octets_ofList_cons, List.length_append, ih, String.length_utf8EncodeChar, byteLength_cons]

/-! ## Octets of a character -/

/-- `utf8EncodeChar` gives one octet for an ASCII character. -/
theorem utf8EncodeChar_of_lt {c : Char} (hc : c.toNat < 128) :
    String.utf8EncodeChar c = [UInt8.ofNat c.toNat] :=
  if_pos (Nat.le_of_lt_succ hc)

/-- `utf8EncodeChar` of a character beyond ASCII gives octets whose highest bit is set. -/
theorem le_of_mem_utf8EncodeChar {c : Char} (hc : 128 ≤ c.toNat) {b : UInt8}
    (hb : b ∈ String.utf8EncodeChar c) : 0x80 ≤ b := by
  have hval : ¬c.val.toNat ≤ 127 := Nat.not_le_of_lt hc
  rw [String.utf8EncodeChar.eq_1, if_neg hval] at hb
  rw [UInt8.le_iff_toNat_le]
  change 128 ≤ b.toNat
  -- two, three or four octets
  split at hb
  · simp only [List.mem_cons, List.not_mem_nil, or_false] at hb
    rcases hb with rfl | rfl <;> rw [UInt8.toNat_ofNat'] <;> omega
  · split at hb
    · simp only [List.mem_cons, List.not_mem_nil, or_false] at hb
      rcases hb with rfl | rfl | rfl <;> rw [UInt8.toNat_ofNat'] <;> omega
    · simp only [List.mem_cons, List.not_mem_nil, or_false] at hb
      rcases hb with rfl | rfl | rfl | rfl <;> rw [UInt8.toNat_ofNat'] <;> omega

/-- `octets` have a zero only for the zero character. -/
theorem ne_zero_of_mem_octets {s : String} (hs : '\x00' ∉ s.toList) {b : UInt8}
    (hb : b ∈ octets s) : b ≠ 0 := by
  obtain ⟨c, hc, hb⟩ := List.mem_flatMap.1 hb
  rintro rfl
  rcases Nat.lt_or_ge c.toNat 128 with hascii | hhigh
  · rw [utf8EncodeChar_of_lt hascii, List.mem_singleton] at hb
    have hzero : c.toNat = 0 := by
      have hnat := congrArg UInt8.toNat hb
      rw [UInt8.toNat_ofNat', UInt8.toNat_zero] at hnat
      omega
    have hchar : c = '\x00' := by
      rw [← Char.ofNat_toNat c, hzero]
    exact hs (hchar ▸ hc)
  · exact absurd (le_of_mem_utf8EncodeChar hhigh hb) (by decide)

/-! ## Places between characters -/

/-- `octets` are cut at a place between characters, or inside of one, and then the octets on both
    sides are high. -/
theorem cut_or_inside (cs : List Char) {i : Nat} (hi : i ≤ (octets (String.ofList cs)).length) :
    (∃ pre post, cs = pre ++ post ∧ (octets (String.ofList pre)).length = i) ∨
      (∃ b ∈ ((octets (String.ofList cs)).take i).getLast?, 0x80 ≤ b) ∧
        ∃ b ∈ ((octets (String.ofList cs)).drop i).head?, 0x80 ≤ b := by
  induction cs generalizing i with
  | nil => exact .inl ⟨[], [], rfl, (Nat.le_zero.1 hi).symm⟩
  | cons c cs ih =>
    rw [octets_ofList_cons] at hi ⊢
    rcases Nat.lt_or_ge i (String.utf8EncodeChar c).length with hlt | hge
    · rcases Nat.eq_zero_or_pos i with rfl | hpos
      · exact .inl ⟨[], c :: cs, rfl, rfl⟩
      · -- a character that has octets on both sides of a place has more than one
        have hhigh : 128 ≤ c.toNat := by
          refine Nat.le_of_not_lt fun hascii => ?_
          rw [utf8EncodeChar_of_lt hascii, List.length_singleton] at hlt
          omega
        have htake : (String.utf8EncodeChar c).take i ≠ [] := by
          rw [← List.length_pos_iff, List.length_take]
          omega
        have hdrop : (String.utf8EncodeChar c).drop i ≠ [] := by
          rw [← List.length_pos_iff, List.length_drop]
          omega
        rw [List.take_append_of_le_length (Nat.le_of_lt hlt),
          List.drop_append_of_le_length (Nat.le_of_lt hlt), List.getLast?_eq_some_getLast htake,
          List.head?_append, List.head?_eq_some_head hdrop]
        exact .inr ⟨⟨_, rfl, le_of_mem_utf8EncodeChar hhigh (List.mem_of_mem_take
          (List.getLast_mem htake))⟩, _, rfl, le_of_mem_utf8EncodeChar hhigh (List.mem_of_mem_drop
          (List.head_mem hdrop))⟩
    · obtain ⟨j, rfl⟩ := Nat.exists_eq_add_of_le hge
      rw [List.length_append, Nat.add_le_add_iff_left] at hi
      rw [List.take_length_add_append, List.drop_length_add_append]
      rcases ih hi with ⟨pre, post, rfl, hlength⟩ | ⟨⟨b, hb, hhigh⟩, hdrop⟩
      · refine .inl ⟨c :: pre, post, rfl, ?_⟩
        rw [octets_ofList_cons, List.length_append, hlength]
      · refine .inr ⟨⟨b, ?_, hhigh⟩, hdrop⟩
        rw [List.getLast?_append, Option.mem_def.1 hb]
        rfl

end Deadwood.Text
