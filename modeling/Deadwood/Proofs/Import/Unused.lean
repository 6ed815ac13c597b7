import Mathlib.Data.List.Basic
import Deadwood.Import.Unused
import Deadwood.Proofs.Import.Span
import Deadwood.Proofs.Text.Octets

/-!
# Unused imports are told exactly

The search for a word goes on behind a place where the word is part of a longer one, so it does not
look at the places inside. Nothing is missed: what can be bound is a name, every octet of a name
extends words, and so a word that starts inside an occurrence is never a whole one
(`occursFrom_iff`). From this, `unusedIssues_eq` says for which bindings there is an issue.
-/

namespace Deadwood.Import

open Text

/-! ## Whole words -/

/-- The word stands at place `i`, and neither the octet before it nor the one behind it would make
    it longer. -/
structure IsWordAt (word octets : List UInt8) (i : Nat) : Prop where
  stands : word <+: octets.drop i
  before : (octets.take i).getLast?.any extendsWord = false
  behind : (octets.drop (i + word.length)).head?.any extendsWord = false

instance (word octets : List UInt8) (i : Nat) : Decidable (IsWordAt word octets i) :=
  decidable_of_iff (word <+: octets.drop i ∧ (octets.take i).getLast?.any extendsWord = false ∧
      (octets.drop (i + word.length)).head?.any extendsWord = false)
    ⟨fun h => ⟨h.1, h.2.1, h.2.2⟩, fun h => ⟨h.stands, h.before, h.behind⟩⟩

/-- The word is a whole word somewhere in the octets. -/
def HasWord (word octets : List UInt8) : Prop := ∃ i < octets.length, IsWordAt word octets i

instance (word octets : List UInt8) : Decidable (HasWord word octets) :=
  inferInstanceAs (Decidable (∃ i < octets.length, IsWordAt word octets i))

/-- `IsWordAt` a place behind a first part, by the octets around that place. -/
theorem isWordAt_length_iff {word pre octets : List UInt8} :
    IsWordAt word (pre ++ octets) pre.length ↔ word <+: octets ∧
      pre.getLast?.any extendsWord = false ∧
        (octets.drop word.length).head?.any extendsWord = false := by
  constructor
  · intro h
    -- what stands behind the word is told from the start of all octets
    have hbehind := h.behind
    rw [← List.drop_drop, List.drop_left] at hbehind
    refine ⟨?_, ?_, hbehind⟩
    · simpa using h.stands
    · simpa using h.before
  · rintro ⟨hstands, hbefore, hbehind⟩
    refine ⟨?_, ?_, ?_⟩
    · simpa using hstands
    · simpa using hbefore
    · rwa [← List.drop_drop, List.drop_left]

/-- `IsWordAt` a place or a later one: right there, or from the next place on. -/
private theorem exists_isWordAt_cons {word pre : List UInt8} {b : UInt8} {bs : List UInt8} :
    (∃ i, pre.length ≤ i ∧ i < (pre ++ b :: bs).length ∧ IsWordAt word (pre ++ b :: bs) i) ↔
      IsWordAt word (pre ++ b :: bs) pre.length ∨
        ∃ i, (pre ++ [b]).length ≤ i ∧ i < (pre ++ [b] ++ bs).length ∧
          IsWordAt word (pre ++ [b] ++ bs) i := by
  have hlength : (pre ++ [b]).length = pre.length + 1 := by simp
  rw [List.append_assoc, List.singleton_append, hlength]
  constructor
  · rintro ⟨i, hle, hlt, hword⟩
    -- the word stands at the next octet or behind it
    rcases Nat.eq_or_lt_of_le hle with rfl | hgt
    · exact .inl hword
    · exact .inr ⟨i, hgt, hlt, hword⟩
  · rintro (hword | ⟨i, hle, hlt, hword⟩)
    · exact ⟨pre.length, Nat.le_refl _, by simp, hword⟩
    · exact ⟨i, Nat.le_of_succ_le hle, hlt, hword⟩

/-- `occursFrom` finds a word, all of whose octets extend words, exactly if it is a whole word there
    or further on. While octets are passed over, the last octet read extends words and so do those
    that are still to be passed over. -/
theorem occursFrom_iff {word : List UInt8} (hne : word ≠ [])
    (hword : ∀ b ∈ word, extendsWord b = true) {skip : Nat} {pre octets : List UInt8}
    (hpre : skip ≠ 0 → pre.getLast?.any extendsWord = true)
    (hskip : ∀ b ∈ octets.take skip, extendsWord b = true) :
    occursFrom word skip pre.getLast? octets = true ↔
      ∃ i, pre.length ≤ i ∧ i < (pre ++ octets).length ∧ IsWordAt word (pre ++ octets) i := by
  induction octets generalizing skip pre with
  | nil =>
    rw [occursFrom, List.append_nil]
    constructor
    · intro h
      cases h
    · rintro ⟨i, hle, hlt, -⟩
      omega
  | cons b bs ih =>
    rw [exists_isWordAt_cons]
    have hlast : some b = (pre ++ [b]).getLast? := by simp
    cases skip with
    | succ skip =>
      -- the octet before this one extends words, so no whole word starts here
      have hnot : ¬IsWordAt word (pre ++ b :: bs) pre.length := by
        intro h
        have hbefore := (isWordAt_length_iff.1 h).2.1
        rw [hpre (Nat.succ_ne_zero skip)] at hbefore
        cases hbefore
      rw [or_iff_right hnot, occursFrom, hlast]
      refine ih (fun _ => ?_) fun d hd => ?_
      · rw [← hlast]
        exact hskip b List.mem_cons_self
      · exact hskip d (List.mem_cons_of_mem b hd)
    | zero =>
      rw [occursFrom]
      split
      · rename_i hstands
        rw [List.isPrefixOf_iff_prefix] at hstands
        have hiff : IsWordAt word (pre ++ b :: bs) pre.length ↔
            (!pre.getLast?.any extendsWord &&
              !((b :: bs).drop word.length).head?.any extendsWord) = true := by
          simp [isWordAt_length_iff, hstands]
        rw [Bool.or_eq_true, hiff, hlast]
        -- what is passed over now is the rest of the word
        obtain ⟨w, ws, rfl⟩ := List.exists_cons_of_ne_nil hne
        obtain ⟨rfl, hws⟩ := List.cons_prefix_cons.1 hstands
        rw [List.length_cons, Nat.add_sub_cancel]
        refine or_congr_right (ih (fun _ => ?_) fun d hd => ?_)
        · rw [← hlast]
          exact hword w List.mem_cons_self
        · rw [← List.prefix_iff_eq_take.1 hws] at hd
          exact hword d (List.mem_cons_of_mem w hd)
      · rename_i hstands
        have hnot : ¬IsWordAt word (pre ++ b :: bs) pre.length := fun h =>
          hstands (List.isPrefixOf_iff_prefix.2 (isWordAt_length_iff.1 h).1)
        rw [or_iff_right hnot, hlast]
        exact ih (fun h => absurd rfl h) fun d hd => by simp at hd

/-! ## The octets of names -/

/-- `extendsWord` holds of the octets of a character if it may continue a name or is beyond ASCII.
    -/
theorem extendsWord_iff {c : Char} {b : UInt8} (hb : b ∈ String.utf8EncodeChar c) :
    extendsWord b = true ↔ isNamePart c = true ∨ 128 ≤ c.toNat := by
  rcases Nat.lt_or_ge c.toNat 128 with hascii | hhigh
  · -- below 128 the characters can be gone through
    have hall : ∀ n < 128, extendsWord (UInt8.ofNat n) = isNamePart (Char.ofNat n) := by
      decide +kernel
    rw [utf8EncodeChar_of_lt hascii, List.mem_singleton] at hb
    rw [hb, hall c.toNat hascii, Char.ofNat_toNat, or_iff_left (Nat.not_le_of_lt hascii)]
  · have hle := le_of_mem_utf8EncodeChar hhigh hb
    simp [extendsWord, hle, hhigh]

/-- `extendsWord` holds of all octets of a `Name`. -/
theorem Name.extendsWord_of_mem (n : Name) {b : UInt8}
    (hb : b ∈ octets (String.ofList n.chars)) : extendsWord b = true := by
  rw [octets, String.toList_ofList] at hb
  obtain ⟨c, hc, hb⟩ := List.mem_flatMap.1 hb
  exact (extendsWord_iff hb).2 (.inl (n.isNamePart_of_mem hc))

/-- The octets of a `Name` are not empty. -/
theorem Name.octets_ne_nil (n : Name) : octets (String.ofList n.chars) ≠ [] := by
  intro h
  rw [octets, String.toList_ofList, List.flatMap_eq_nil_iff] at h
  obtain ⟨c, cs, hcs⟩ := List.exists_cons_of_ne_nil n.ne_nil
  exact String.utf8EncodeChar_ne_nil (h c (hcs ▸ List.mem_cons_self))

/-- `occurs` finds a name exactly where it is a whole word. -/
theorem occurs_name_iff (n : Name) (bs : List UInt8) :
    occurs (octets (String.ofList n.chars)) bs = true ↔
      HasWord (octets (String.ofList n.chars)) bs := by
  -- at the start nothing was read and nothing is to be passed over
  have hsearch :
      occursFrom (octets (String.ofList n.chars)) 0 ([] : List UInt8).getLast? bs = true ↔
        ∃ i, 0 ≤ i ∧ i < bs.length ∧ IsWordAt (octets (String.ofList n.chars)) bs i :=
    occursFrom_iff n.octets_ne_nil (fun _ => n.extendsWord_of_mem) (fun h => absurd rfl h)
      fun d hd => by simp at hd
  have hempty : (octets (String.ofList n.chars)).isEmpty = false :=
    List.isEmpty_eq_false_iff.2 n.octets_ne_nil
  rw [occurs, hempty, Bool.not_false, Bool.true_and, ← List.getLast?_nil, hsearch]
  simp only [Nat.zero_le, true_and]
  rfl

-- where occurrences overlap, only the first one is looked at
example : occurs (octets "ana") (octets "anana") = false ∧
    occurs (octets "ana") (octets "anana;ana") = true := by decide +kernel

/-! ## What a clause binds -/

/-- A binding that is only made for an identifier has a `Name`. -/
private theorem exists_name_of_if {name : List Char} {made b : Binding}
    (hmade : made.name = String.ofList name)
    (h : (if isIdentifier name then some made else none) = some b) :
    ∃ n : Name, b.name = String.ofList n.chars := by
  split at h
  · rename_i hname
    cases h
    exact ⟨⟨name, hname⟩, hmade⟩
  · cases h

/-- `headBinding?` binds a `Name`. -/
theorem exists_name_of_headBinding? {typeOnly : Bool} {item : List Char} {b : Binding}
    (h : headBinding? typeOnly item = some b) : ∃ n : Name, b.name = String.ofList n.chars := by
  unfold headBinding? at h
  split at h
  · split at h
    · exact exists_name_of_if rfl h
    · cases h
  · exact exists_name_of_if rfl h

/-- `namedBinding?` binds a `Name`. -/
theorem exists_name_of_namedBinding? {typeOnly : Bool} {item : List Char} {b : Binding}
    (h : namedBinding? typeOnly item = some b) : ∃ n : Name, b.name = String.ofList n.chars := by
  simp only [namedBinding?] at h
  split at h
  · exact exists_name_of_if rfl h
  · split at h
    · exact exists_name_of_if rfl h
    · cases h
  · cases h

/-- `extract` gives statements all of whose bindings have a `Name`. -/
theorem exists_name_of_mem_bindings {text : String} {s : Statement}
    (hs : s ∈ (extract text).statements) {b : Binding} (hb : b ∈ s.bindings) :
    ∃ n : Name, b.name = String.ofList n.chars := by
  obtain ⟨found, -, rfl⟩ := List.mem_map.1 hs
  rcases List.mem_append.1 hb with hhead | hnamed
  · obtain ⟨item, -, hitem⟩ := List.mem_filterMap.1 hhead
    exact exists_name_of_headBinding? hitem
  · obtain ⟨item, -, hitem⟩ := List.mem_filterMap.1 hnamed
    exact exists_name_of_namedBinding? hitem

/-! ## The issues of a text -/

/-- The binding's name is a whole word of the text before its statement or behind it. -/
def IsUsedOutside (text : String) (s : Statement) (b : Binding) : Prop :=
  HasWord (octets b.name) ((octets text).take s.start) ∨
    HasWord (octets b.name) ((octets text).drop s.stop)

instance (text : String) (s : Statement) (b : Binding) : Decidable (IsUsedOutside text s b) :=
  inferInstanceAs (Decidable (_ ∨ _))

/-- `isUsed` holds exactly if the name `IsUsedOutside` its statement. -/
theorem isUsed_iff_isUsedOutside {text : String} {s : Statement}
    (hs : s ∈ (extract text).statements) {b : Binding} (hb : b ∈ s.bindings) :
    isUsed (octets text) s b = true ↔ IsUsedOutside text s b := by
  obtain ⟨n, hn⟩ := exists_name_of_mem_bindings hs hb
  rw [isUsed, IsUsedOutside, hn, Bool.or_eq_true, occurs_name_iff, occurs_name_iff]

/-- `unusedIssues` without types leaves out those of the flavor `typescript`. -/
theorem unusedIssues_false (file : Path) (text : String) :
    unusedIssues false file text =
      (unusedIssues true file text).filter fun i => i.flavor ≠ some "typescript" := by
  -- the flavor tells which bindings are types
  have hflavor (s : Statement) (b : Binding) :
      decide ((unusedIssue file s b).flavor ≠ some "typescript") = !b.typeOnly := by
    cases h : b.typeOnly <;> simp [unusedIssue, h]
  simp only [unusedIssues, List.filter_flatMap, List.filter_map, List.filter_filter,
    Function.comp_def, hflavor, Bool.true_or, Bool.true_and, Bool.false_or, Bool.and_assoc]

/-- The unused imports of a text. The offsets of every statement are places between characters of
    the text. There is one issue for each binding that is not used outside its statement, in the
    order of the statements and of their bindings; types are passed over unless they are asked
    for, which leaves out the issues of the flavor `typescript`. -/
theorem unusedIssues_eq (file : Path) (text : String) :
    (∀ s ∈ (extract text).statements, s.start ≤ s.stop ∧
      String.Pos.Raw.IsValid text ⟨s.start⟩ ∧ String.Pos.Raw.IsValid text ⟨s.stop⟩) ∧
    (∀ checkTypes, unusedIssues checkTypes file text =
      (extract text).statements.flatMap fun s =>
        (s.bindings.filter fun b =>
          (b.typeOnly = true → checkTypes = true) ∧ ¬IsUsedOutside text s b).map fun b =>
            { kind := .unusedImport
              file
              line := some s.line
              symbol := some b.name
              message := s!"'{b.name}' is imported but never used"
              severity := .info
              flavor := if b.typeOnly then some "typescript" else none }) ∧
    unusedIssues false file text =
      (unusedIssues true file text).filter fun i => i.flavor ≠ some "typescript" := by
  refine ⟨fun s hs => isValid_of_mem_statements hs, fun checkTypes => ?_,
    unusedIssues_false file text⟩
  refine List.flatMap_congr fun s hs => congrArg _ (List.filter_congr fun b hb => ?_)
  -- what is bound has a name, so nothing is passed over for having none
  have hname : isIdentifier b.name.toList = true := by
    obtain ⟨n, hn⟩ := exists_name_of_mem_bindings hs hb
    rw [hn, String.toList_ofList]
    exact n.isIdentifier
  rw [hname, Bool.and_true, Bool.eq_iff_iff]
  simp only [Bool.and_eq_true, Bool.or_eq_true, Bool.not_eq_true', decide_eq_true_eq,
    ← Bool.not_eq_true, isUsed_iff_isUsedOutside hs hb]
  cases checkTypes <;> cases b.typeOnly <;> simp

example : (unusedIssues true ⟨"a.ts"⟩ "import ana, { type T as é } from 'm';\nanana($é)").map
    (fun i => (i.line, i.symbol, i.flavor)) =
      [(some 1, some "ana", none), (some 1, some "é", some "typescript")] := by decide +kernel

end Deadwood.Import
