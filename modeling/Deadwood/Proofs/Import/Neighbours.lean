import Deadwood.Proofs.Import.Unused

/-!
# The neighbours of a use

A name is used where it stands between characters that cannot be part of a name. The search for uses
looks at octets, and next to a name it takes every character beyond ASCII for a part of the name: a
no-break space, a typographic quote or an ideographic comma as well as a letter. So a use with such
a neighbour is overlooked, and an import all of whose uses are overlooked is reported
(`unusedIssues_eq_overlooked`).
-/

namespace Deadwood.Import

open Text

/-! ## Uses -/

/-- The characters next to the name, if it stands at place `i`. -/
def neighbours (name piece : List Char) (i : Nat) : List Char :=
  (piece.take i).getLast?.toList ++ (piece.drop (i + name.length)).head?.toList

/-- The name stands at place `i`, and the characters next to it cannot be part of a name. -/
structure IsUseAt (name piece : List Char) (i : Nat) : Prop where
  stands : name <+: piece.drop i
  apart : (neighbours name piece i).any isNamePart = false

instance (name piece : List Char) (i : Nat) : Decidable (IsUseAt name piece i) :=
  decidable_of_iff (name <+: piece.drop i ∧ (neighbours name piece i).any isNamePart = false)
    ⟨fun h => ⟨h.1, h.2⟩, fun h => ⟨h.stands, h.apart⟩⟩

/-- Is the character beyond ASCII? -/
def isHigh (c : Char) : Bool := 128 ≤ c.toNat

/-- Every use of the name has a neighbour beyond ASCII. -/
def IsOverlooked (name piece : List Char) : Prop :=
  ∀ i < piece.length, IsUseAt name piece i → (neighbours name piece i).any isHigh = true

instance (name piece : List Char) : Decidable (IsOverlooked name piece) :=
  inferInstanceAs (Decidable (∀ i < piece.length, _ → _))

/-- `neighbours` of a name between two texts. -/
theorem neighbours_append (pre name post : List Char) :
    neighbours name (pre ++ (name ++ post)) pre.length =
      pre.getLast?.toList ++ post.head?.toList := by
  rw [neighbours, ← List.drop_drop, List.drop_left, List.drop_left, List.take_left]

/-! ## Octets next to a name -/

section

variable {cs : List Char}

/-- `extendsWord` holds of an octet of a character by what the character is. -/
private theorem any_octets_iff {o : Option UInt8} {c : Char}
    (h : ∃ b ∈ String.utf8EncodeChar c, o = some b) :
    o.any extendsWord = false ↔ isNamePart c = false ∧ isHigh c = false := by
  obtain ⟨b, hb, rfl⟩ := h
  rw [Option.any_some, ← Bool.not_eq_true, extendsWord_iff hb, not_or, Bool.not_eq_true, isHigh,
    decide_eq_false_iff_not]

/-- `extendsWord` of the last octet of a text is about its last character. -/
theorem getLast?_octets_iff : (octets (String.ofList cs)).getLast?.any extendsWord = false ↔
    ∀ c ∈ cs.getLast?, isNamePart c = false ∧ isHigh c = false := by
  rcases List.eq_nil_or_concat' cs with rfl | ⟨cs, c, rfl⟩
  · rw [octets_ofList]
    simp
  · have hne : String.utf8EncodeChar c ≠ [] := String.utf8EncodeChar_ne_nil
    -- the last octet is one of the last character
    have hlast : (octets (String.ofList (cs ++ [c]))).getLast? =
        some ((String.utf8EncodeChar c).getLast hne) := by
      rw [octets_ofList_append, octets_ofList [c], List.flatMap_singleton, List.getLast?_append,
        List.getLast?_eq_some_getLast hne]
      rfl
    rw [any_octets_iff ⟨_, List.getLast_mem hne, hlast⟩]
    simp

/-- `extendsWord` of the first octet of a text is about its first character. -/
theorem head?_octets_iff : (octets (String.ofList cs)).head?.any extendsWord = false ↔
    ∀ c ∈ cs.head?, isNamePart c = false ∧ isHigh c = false := by
  cases cs with
  | nil =>
    rw [octets_ofList]
    simp
  | cons c cs =>
    have hne : String.utf8EncodeChar c ≠ [] := String.utf8EncodeChar_ne_nil
    -- the first octet is one of the first character
    have hhead : (octets (String.ofList (c :: cs))).head? =
        some ((String.utf8EncodeChar c).head hne) := by
      rw [octets_ofList_cons, List.head?_append, List.head?_eq_some_head hne]
      rfl
    rw [any_octets_iff ⟨_, List.head_mem hne, hhead⟩]
    simp

end

/-- `IsWordAt` of octets: a name is a whole word exactly where all of its `neighbours` are
    characters of ASCII that are no part of names. -/
theorem isWordAt_octets_iff {name pre post : List Char} :
    IsWordAt (octets (String.ofList name)) (octets (String.ofList (pre ++ (name ++ post))))
      (octets (String.ofList pre)).length ↔
    ∀ c ∈ neighbours name (pre ++ (name ++ post)) pre.length,
      isNamePart c = false ∧ isHigh c = false := by
  rw [octets_ofList_append, octets_ofList_append, isWordAt_length_iff,
    and_iff_right (List.prefix_append _ _), List.drop_left, getLast?_octets_iff, head?_octets_iff,
    neighbours_append, List.forall_mem_append]
  simp only [Option.mem_toList, Option.mem_def]

/-- `IsWordAt` of octets: a whole word in the octets of a text is a piece of the text. -/
theorem exists_append_of_isWordAt {name piece : List Char} {i : Nat}
    (h : IsWordAt (octets (String.ofList name)) (octets (String.ofList piece)) i)
    (hi : i ≤ (octets (String.ofList piece)).length) :
    ∃ pre post, piece = pre ++ (name ++ post) ∧ (octets (String.ofList pre)).length = i := by
  -- octets inside a character are high, and high octets extend words
  have hlow {o : Option UInt8} (ho : o.any extendsWord = false) : ¬∃ b ∈ o, 0x80 ≤ b := by
    rintro ⟨b, hb, hhigh⟩
    rw [Option.mem_def.1 hb] at ho
    simp [extendsWord, hhigh] at ho
  -- the octet before the word is low, so the word starts between characters
  rcases cut_or_inside piece hi with ⟨pre, rest, rfl, rfl⟩ | ⟨hbefore, -⟩
  · rw [octets_ofList_append] at h
    obtain ⟨⟨tail, htail⟩, -, hbehind⟩ := isWordAt_length_iff.1 h
    have hle : (octets (String.ofList name)).length ≤ (octets (String.ofList rest)).length := by
      rw [← htail, List.length_append]
      omega
    -- and so is the octet behind it, so it ends between characters as well
    rcases cut_or_inside rest hle with ⟨mid, post, rfl, hlength⟩ | ⟨-, hafter⟩
    · rw [octets_ofList_append] at htail
      have hmid := octets_ofList_inj (List.append_inj_left htail hlength.symm)
      exact ⟨pre, post, by rw [hmid], rfl⟩
    · exact absurd hafter (hlow hbehind)
  · exact absurd hbefore (hlow h.before)

/-- `HasWord` of octets: a name is a whole word in the octets of a text exactly if it has a use with
    neighbours of ASCII only. -/
theorem hasWord_octets_iff {name piece : List Char} (hname : name ≠ []) :
    HasWord (octets (String.ofList name)) (octets (String.ofList piece)) ↔
      ∃ i < piece.length, IsUseAt name piece i ∧ (neighbours name piece i).any isHigh = false := by
  constructor
  · rintro ⟨i, hi, hword⟩
    obtain ⟨pre, post, rfl, rfl⟩ := exists_append_of_isWordAt hword (Nat.le_of_lt hi)
    have hapart := isWordAt_octets_iff.1 hword
    refine ⟨pre.length, ?_, ⟨?_, ?_⟩, ?_⟩
    · have hpos := List.length_pos_iff.2 hname
      simp only [List.length_append]
      omega
    · rw [List.drop_left]
      exact List.prefix_append name post
    · rw [List.any_eq_false]
      exact fun c hc => ne_true_of_eq_false (hapart c hc).1
    · rw [List.any_eq_false]
      exact fun c hc => ne_true_of_eq_false (hapart c hc).2
  · rintro ⟨i, hi, ⟨⟨post, hpost⟩, hapart⟩, hascii⟩
    rw [List.any_eq_false] at hapart hascii
    obtain ⟨pre, rfl, rfl⟩ : ∃ pre, pre.length = i ∧ pre ++ (name ++ post) = piece :=
      ⟨piece.take i, List.length_take_of_le (Nat.le_of_lt hi),
        hpost ▸ List.take_append_drop i piece⟩
    refine ⟨_, ?_, isWordAt_octets_iff.2 fun c hc =>
      ⟨eq_false_of_ne_true (hapart c hc), eq_false_of_ne_true (hascii c hc)⟩⟩
    -- a name has octets, so the place of the word lies inside the text
    rw [octets_ofList_append, octets_ofList_append, List.length_append, List.length_append]
    have hpos : (octets (String.ofList name)).length ≠ 0 := by
      rw [length_octets_ofList]
      exact byteLength_eq_zero_iff.not.2 hname
    omega

/-- `HasWord` does not hold of octets exactly if the name `IsOverlooked`. -/
theorem not_hasWord_octets_iff {name piece : List Char} (hname : name ≠ []) :
    ¬HasWord (octets (String.ofList name)) (octets (String.ofList piece)) ↔
      IsOverlooked name piece := by
  rw [hasWord_octets_iff hname, IsOverlooked]
  simp only [not_exists, not_and, Bool.not_eq_false]

/-! ## The issues of a text -/

/-- The characters of a text before an offset. -/
def charsBefore (offset : Nat) : List Char → List Char
  | [] => []
  | c :: cs => if offset = 0 then [] else c :: charsBefore (offset - c.utf8Size) cs

/-- The characters of a text from an offset on. -/
def charsFrom (offset : Nat) : List Char → List Char
  | [] => []
  | c :: cs => if offset = 0 then c :: cs else charsFrom (offset - c.utf8Size) cs

/-- `charsBefore` the end of a first part is this part. -/
theorem charsBefore_byteLength (pre post : List Char) :
    charsBefore (byteLength pre) (pre ++ post) = pre := by
  induction pre with
  | nil => cases post <;> rfl
  | cons c cs ih =>
    have hpos := c.utf8Size_pos
    rw [List.cons_append, charsBefore, byteLength_cons, if_neg (by omega), Nat.add_sub_cancel_left,
      ih]

/-- `charsFrom` the end of a first part is the second part. -/
theorem charsFrom_byteLength (pre post : List Char) :
    charsFrom (byteLength pre) (pre ++ post) = post := by
  induction pre with
  | nil => cases post <;> rfl
  | cons c cs ih =>
    have hpos := c.utf8Size_pos
    rw [List.cons_append, charsFrom, byteLength_cons, if_neg (by omega), Nat.add_sub_cancel_left,
      ih]

/-- The text before a statement and the text behind it. -/
def outside (text : String) (s : Statement) : List (List Char) :=
  [charsBefore s.start text.toList, charsFrom s.stop text.toList]

/-- Every use of the binding's name outside its statement is overlooked. -/
def IsOverlookedOutside (text : String) (s : Statement) (b : Binding) : Prop :=
  ∀ piece ∈ outside text s, IsOverlooked b.name.toList piece

instance (text : String) (s : Statement) (b : Binding) :
    Decidable (IsOverlookedOutside text s b) :=
  List.decidableBAll (IsOverlooked b.name.toList) (outside text s)

/-- `IsUsedOutside` does not hold exactly if all uses are overlooked. -/
theorem not_isUsedOutside_iff {text : String} {s : Statement} (hs : s ∈ (extract text).statements)
    {b : Binding} (hb : b ∈ s.bindings) :
    ¬IsUsedOutside text s b ↔ IsOverlookedOutside text s b := by
  obtain ⟨n, hn⟩ := exists_name_of_mem_bindings hs hb
  obtain ⟨pre, inside, post, htext, -, hstart, hstop⟩ := exists_pieces_of_mem_statements hs
  -- the octets of the text are cut where its characters are
  have hoctets : octets text = octets (String.ofList pre) ++ octets (String.ofList inside) ++
      octets (String.ofList post) := by
    rw [← octets_ofList_append, ← octets_ofList_append, ← htext, String.ofList_toList]
  have hbefore : (octets text).take s.start = octets (String.ofList pre) := by
    rw [hstart, ← length_octets_ofList, hoctets, List.append_assoc, List.take_left]
  have hbehind : (octets text).drop s.stop = octets (String.ofList post) := by
    rw [hstop, ← length_octets_ofList, octets_ofList_append, hoctets, List.drop_left]
  have houtside : outside text s = [pre, post] := by
    rw [outside, hstart, hstop, htext, charsFrom_byteLength, List.append_assoc,
      charsBefore_byteLength]
  rw [IsUsedOutside, hbefore, hbehind, hn, not_or, not_hasWord_octets_iff n.ne_nil,
    not_hasWord_octets_iff n.ne_nil, IsOverlookedOutside, houtside, hn, String.toList_ofList]
  simp

/-- `unusedIssues` has an issue for each binding all of whose uses outside its statement are
    overlooked, in the order of the text; types are passed over unless they are asked for. -/
theorem unusedIssues_eq_overlooked (checkTypes : Bool) (file : Path) (text : String) :
    unusedIssues checkTypes file text = (extract text).statements.flatMap fun s =>
      (s.bindings.filter fun b =>
        (b.typeOnly = true → checkTypes = true) ∧ IsOverlookedOutside text s b).map
          (unusedIssue file s) := by
  refine List.flatMap_congr fun s hs => congrArg _ (List.filter_congr fun b hb => ?_)
  -- what is bound has a name, so nothing is passed over for having none
  have hname : isIdentifier b.name.toList = true := by
    obtain ⟨n, hn⟩ := exists_name_of_mem_bindings hs hb
    rw [hn, String.toList_ofList]
    exact n.isIdentifier
  have hused : isUsed (octets text) s b = false ↔ IsOverlookedOutside text s b := by
    rw [← Bool.not_eq_true, isUsed_iff_isUsedOutside hs hb, not_isUsedOutside_iff hs hb]
  have htypes : (checkTypes || !b.typeOnly) = true ↔ (b.typeOnly = true → checkTypes = true) := by
    cases b.typeOnly <;> simp
  rw [Bool.eq_iff_iff, decide_eq_true_iff, hname, Bool.and_true, Bool.and_eq_true,
    Bool.not_eq_true', hused, htypes]

/-- A text that uses its import behind a no-break space. -/
def noBreakText : String := "import \x7b a \x7d from 'm';\nreturn\u00a0a;"

/-- What its import binds. -/
def noBreakBinding : Binding := ⟨"a", none, .named, false⟩

/-- Its import. -/
def noBreakImport : Statement := ⟨"m", 0, 22, 1, false, [noBreakBinding]⟩

/-- Behind the import the name stands between a no-break space and a `;`, but it is reported. -/
theorem unusedIssues_noBreakText :
    (extract noBreakText).statements = [noBreakImport] ∧
    (∃ piece ∈ outside noBreakText noBreakImport, IsUseAt noBreakBinding.name.toList piece 8) ∧
    unusedIssues true ⟨"a.ts"⟩ noBreakText =
      [unusedIssue ⟨"a.ts"⟩ noBreakImport noBreakBinding] := by
  refine ⟨by decide +kernel, ⟨charsFrom 22 noBreakText.toList, ?_, by decide +kernel⟩,
    by decide +kernel⟩
  simp [outside, noBreakImport]

end Deadwood.Import
