import Mathlib.Data.Bool.AllAny
import Mathlib.Data.List.TakeWhile
import Deadwood.Proofs.Import.Declaration
import Deadwood.Proofs.Text

/-!
# Reading printed clauses

The names that a printed clause binds are read back in their order, each with the name it was
imported under: `bindingsOf_chars`.
-/

namespace Deadwood.Import

open Text

/-! ## Characters of names -/

/-- `isNamePart` takes no space. -/
theorem isSpace_of_isNamePart {c : Char} (h : isNamePart c = true) : isSpace c = false := by
  by_cases hascii : isAscii c = true
  · -- below 128 the characters can be gone through
    have hall : ∀ n < 128, isNamePart (Char.ofNat n) = true → isSpace (Char.ofNat n) = false := by
      decide +kernel
    have hc := hall c.toNat (by simpa [isAscii] using hascii)
    rw [Char.ofNat_toNat] at hc
    exact hc h
  · have hne : c ≠ '_' ∧ c ≠ '$' := by
      constructor <;> rintro rfl <;> exact hascii rfl
    -- above, both are told by ranges, and these are disjoint
    simp only [isNamePart, isLetter, isNumeral, if_neg hascii, Bool.or_eq_true, beq_iff_eq, hne.1,
      hne.2, or_false] at h
    simp only [isSpace, if_neg hascii]
    rcases h with h | h | h
    · exact inRanges_eq_false_of_disjoint (by decide +kernel) h
    · exact inRanges_eq_false_of_disjoint (by decide +kernel) h
    · exact inRanges_eq_false_of_disjoint (by decide +kernel) h

namespace Name

/-- A `Name` has characters, as `isIdentifier` takes no empty text. -/
theorem ne_nil (n : Name) : n.chars ≠ [] := by
  intro h
  have := n.isIdentifier
  rw [h] at this
  cases this

/-- All characters of a `Name` pass `isNamePart`, the first one as well. -/
theorem isNamePart_of_mem (n : Name) {c : Char} (hc : c ∈ n.chars) : isNamePart c = true := by
  obtain ⟨chars, hchars⟩ := n
  cases chars with
  | nil => cases hc
  | cons d cs =>
    simp only [Import.isIdentifier, Bool.and_eq_true, List.all_eq_true] at hchars
    rcases List.mem_cons.1 hc with rfl | hc
    · -- what may start a name may be part of it
      have hstart := hchars.1
      simp only [isNameStart, isNamePart, Bool.or_eq_true] at hstart ⊢
      rcases hstart with (h | h) | h <;> simp [h]
    · exact hchars.2 c hc

/-- A `Name` has no spaces. -/
theorem isSpace_of_mem (n : Name) : ∀ c ∈ n.chars, isSpace c = false := fun _ hc =>
  isSpace_of_isNamePart (n.isNamePart_of_mem hc)

/-- A `Name` has no spaces at its ends, so `trim` leaves it alone. -/
theorem tight (n : Name) : Tight n.chars := .of_all n.ne_nil n.isSpace_of_mem

/-- `trimQuotes` leaves a name as it is. -/
theorem trimQuotes_chars (n : Name) : trimQuotes n.chars = n.chars := by
  have hnone : ∀ c ∈ n.chars, ¬(c == '"' || c == '\'') = true := by
    intro c hc h
    have hpart := n.isNamePart_of_mem hc
    rcases Bool.or_eq_true_iff.1 h with h | h <;> cases eq_of_beq h <;>
      exact absurd hpart (by decide)
  -- neither the first nor the last character of a name is dropped
  have hfront : n.chars.dropWhile (fun c => c == '"' || c == '\'') = n.chars :=
    List.dropWhile_eq_self_iff.2 fun hl => hnone _ (List.getElem_mem hl)
  have hback : n.chars.reverse.dropWhile (fun c => c == '"' || c == '\'') = n.chars.reverse :=
    List.dropWhile_eq_self_iff.2 fun hl => hnone _ (List.mem_reverse.1 (List.getElem_mem hl))
  rw [trimQuotes, hfront, hback, List.reverse_reverse]

end Name

/-- The text is made of the characters of names and of some others. -/
def Over (others cs : List Char) : Prop := ∀ c ∈ cs, isNamePart c = true ∨ c ∈ others

namespace Over

variable {others : List Char}

/-- The empty text is `Over` any characters. -/
@[simp] theorem nil : Over others [] := fun _ hc => nomatch hc

/-- `Over` is about each character, the first one and those behind it. -/
@[simp] theorem cons_iff {c : Char} {cs : List Char} :
    Over others (c :: cs) ↔ (isNamePart c = true ∨ c ∈ others) ∧ Over others cs :=
  List.forall_mem_cons

/-- `Over` is about each character of both parts. -/
@[simp] theorem append_iff {xs ys : List Char} :
    Over others (xs ++ ys) ↔ Over others xs ∧ Over others ys :=
  List.forall_mem_append

/-- A `Name` is `Over` any characters. -/
@[simp] theorem name (n : Name) : Over others n.chars := fun _ hc => .inl (n.isNamePart_of_mem hc)

/-- A text that is `Over` some characters has no others, apart from those of names. -/
theorem ne {cs : List Char} (h : Over others cs) {d : Char} (hd : isNamePart d = false)
    (hother : d ∉ others) : ∀ c ∈ cs, c ≠ d := by
  rintro c hc rfl
  rcases h c hc with hpart | hmem
  · rw [hpart] at hd
    cases hd
  · exact hother hmem

/-- A word made of characters of names is `Over` any characters. -/
theorem word {w : List Char} (hw : w.all isNamePart = true) : Over others w := fun _ hc =>
  .inl (List.all_eq_true.1 hw _ hc)

/-- `typeMark` is `Over` any characters with a blank. -/
theorem typeMark (typeOnly : Bool) (hblank : ' ' ∈ others) : Over others (typeMark typeOnly) := by
  cases typeOnly with
  | false => exact nil
  | true =>
    have htype : Over others typeWord := word (by decide)
    simp [Import.typeMark, htype, hblank]

end Over

/-- A `Name` has no character that is no part of names. -/
theorem Name.ne_of_mem (n : Name) {d : Char} (hd : isNamePart d = false) : ∀ c ∈ n.chars, c ≠ d :=
  @Over.ne [] n.chars (.name n) d hd (List.not_mem_nil)

/-- A `Name` has no comma. -/
theorem Name.comma_of_mem (n : Name) : ∀ c ∈ n.chars, c ≠ ',' := n.ne_of_mem (by decide)

/-! ## Items in braces -/

/-- `typeMark` keeps the ends of what is behind it. -/
theorem tight_typeMark (typeOnly : Bool) {cs : List Char} (h : Tight cs) :
    Tight (typeMark typeOnly ++ cs) := by
  cases typeOnly with
  | false => exact h
  | true =>
    have htype : Tight typeWord := ⟨⟨'t', rfl, rfl⟩, ⟨'e', rfl, rfl⟩⟩
    exact htype.append h [' ']

namespace ListItem

/-- A name, and the name behind `as` if there is one. -/
private def nameChars (i : ListItem) : List Char :=
  i.name.chars ++ i.renamed.elim [] fun n => ' ' :: asWord ++ ' ' :: n.chars

/-- `ListItem.chars` is `typeMark` and then the names. -/
private theorem chars_eq (i : ListItem) : i.chars = typeMark i.typeOnly ++ i.nameChars := by
  rw [chars, nameChars, List.append_assoc]

/-- `ListItem.nameChars` has no spaces at its ends. -/
private theorem tight_nameChars (i : ListItem) : Tight i.nameChars := by
  obtain ⟨typeOnly, name, renamed⟩ := i
  cases renamed with
  | none => simpa [nameChars] using name.tight
  | some n =>
    have := name.tight.append n.tight (' ' :: asWord ++ [' '])
    simpa [nameChars] using this

/-- `ListItem.chars` has no spaces at its ends. -/
theorem tight (i : ListItem) : Tight i.chars := by
  rw [chars_eq]
  exact tight_typeMark i.typeOnly i.tight_nameChars

/-- `words` of the names of an item are these names, with `as` between them. -/
private theorem words_nameChars (i : ListItem) :
    words i.nameChars = i.name.chars :: i.renamed.elim [] fun n => [asWord, n.chars] := by
  obtain ⟨typeOnly, name, renamed⟩ := i
  cases renamed with
  | none =>
    simp only [nameChars, Option.elim_none, List.append_nil]
    exact words_of_all name.ne_nil name.isSpace_of_mem
  | some n =>
    simp only [nameChars, Option.elim_some, List.cons_append]
    -- one blank after the other sets the words apart
    rw [words_append_space name.ne_nil name.isSpace_of_mem,
      words_append_space (by decide) (List.all_iff_forall_prop.1 rfl),
      words_of_all n.ne_nil n.isSpace_of_mem]

/-- `afterLiteral` finds no keyword `type` in front of the names of an item, where
    `ListItem.IsClear` rules that out. -/
private theorem afterLiteral_type_nameChars {i : ListItem} (hclear : i.IsClear)
    (htype : i.typeOnly = false) : afterLiteral (typeWord ++ [' ']) i.nameChars = none := by
  rw [Option.eq_none_iff_forall_not_mem]
  intro rest h
  have h : i.nameChars = typeWord ++ ' ' :: rest := by simpa using afterLiteral_eq_some_iff.1 h
  have hname := i.name.ne_of_mem (d := ' ') (by decide)
  -- a single name has no blank, and a renamed one would have to be `type` itself
  cases hrenamed : i.renamed with
  | none =>
    simp only [nameChars, hrenamed, Option.elim_none, List.append_nil] at h
    exact hname ' ' (by simp [h]) rfl
  | some n =>
    simp only [nameChars, hrenamed, Option.elim_some, List.cons_append] at h
    exact hclear htype (by simp [hrenamed]) (append_cons_inj hname
      (List.all_iff_forall_prop.1 rfl) h).1

/-- `namedBinding?` reads a printed item back. -/
theorem namedBinding?_chars {i : ListItem} (hclear : i.IsClear) (typeOnly : Bool) :
    namedBinding? typeOnly i.chars = some (i.binding typeOnly) := by
  have hwords := i.words_nameChars
  have hbinding : i.binding typeOnly =
      ⟨String.ofList (i.renamed.getD i.name).chars,
        i.renamed.map fun _ => String.ofList i.name.chars, .named, typeOnly || i.typeOnly⟩ := rfl
  -- the keyword `type` is told from a name, and what is left are the names
  cases htype : i.typeOnly with
  | false =>
    have hchars : i.chars = i.nameChars := by
      rw [chars_eq, htype]
      rfl
    simp only [namedBinding?, hchars, afterLiteral_type_nameChars hclear htype, hwords, hbinding,
      htype]
    cases i.renamed with
    | none => simp [i.name.isIdentifier]
    | some n => simp [n.isIdentifier, i.name.trimQuotes_chars]
  | true =>
    -- `trim` finds nothing to take off behind the keyword
    have hafter : afterLiteral (typeWord ++ [' ']) i.chars = some i.nameChars := by
      rw [afterLiteral_eq_some_iff, chars_eq, htype]
      rfl
    simp only [namedBinding?, hafter, i.tight_nameChars.trim_eq, hwords, hbinding, htype]
    cases i.renamed with
    | none => simp [i.name.isIdentifier]
    | some n => simp [n.isIdentifier, i.name.trimQuotes_chars]

/-- `ListItem.chars` is `Over` any characters with a blank. -/
theorem over_chars {others : List Char} (hblank : ' ' ∈ others) (i : ListItem) :
    Over others i.chars := by
  have htype := Over.typeMark i.typeOnly hblank
  have has : Over others asWord := .word (by decide)
  cases hrenamed : i.renamed with
  | none => simp [chars, hrenamed, htype]
  | some n => simp [chars, hrenamed, htype, has, hblank]

/-- `ListItem.chars` has no comma. -/
theorem comma_of_mem (i : ListItem) : ∀ c ∈ i.chars, c ≠ ',' := by
  have hover : Over [' '] i.chars := i.over_chars List.mem_cons_self
  exact hover.ne (by decide) (by decide)

end ListItem

/-! ## Clauses -/

/-- `items` finds the printed items of a list, in their order. -/
theorem items_itemsChars {is : List ListItem} (hne : is ≠ []) :
    items (itemsChars is ++ [' ']) = is.map ListItem.chars := by
  -- one item is split off at a time, the last one ends with a blank
  induction is with
  | nil => exact absurd rfl hne
  | cons i rest ih =>
    cases rest with
    | nil =>
      have hover : Over [' '] (i.chars ++ [' ']) := by simp [i.over_chars]
      have hall := hover.ne (d := ',') (by decide) (by decide)
      rw [itemsChars, items_of_all hall, i.tight.trim_append_space (by decide),
        if_neg i.tight.ne_nil]
      rfl
    | cons j rest =>
      rw [show itemsChars (i :: j :: rest) ++ [' '] =
          i.chars ++ ',' :: ' ' :: (itemsChars (j :: rest) ++ [' ']) by simp [itemsChars],
        items_append_comma i.comma_of_mem, items_space_cons (by decide) (by decide),
        ih (List.cons_ne_nil j rest), i.tight.trim_eq, if_neg i.tight.ne_nil]
      rfl

/-- `items` finds a default name as the first item before the braces. -/
theorem items_firstChars (first : Option Name) (rest : List Char) :
    items (firstChars first ++ rest) = (first.map Name.chars).toList ++ items rest := by
  cases first with
  | none => rfl
  | some n =>
    rw [show firstChars (some n) ++ rest = n.chars ++ ',' :: ' ' :: rest by simp [firstChars],
      items_append_comma n.comma_of_mem, items_space_cons (by decide) (by decide), n.tight.trim_eq,
      if_neg n.ne_nil]
    rfl

/-- `headBinding?` reads a default name back. -/
theorem headBinding?_name (typeOnly : Bool) (n : Name) :
    headBinding? typeOnly n.chars = some (n.default typeOnly) := by
  unfold headBinding?
  split
  · rename_i rest heq
    exact absurd rfl (n.ne_of_mem (by decide) '*' (by simp [heq]))
  · rw [if_pos n.isIdentifier]
    rfl

/-- `headBinding?` reads the name of a whole module back. -/
theorem headBinding?_starChars (typeOnly : Bool) (n : Name) :
    headBinding? typeOnly (starChars n) =
      some ⟨String.ofList n.chars, none, .namespaceAlias, typeOnly⟩ := by
  have has : Tight asWord := ⟨⟨'a', rfl, rfl⟩, ⟨'s', rfl, rfl⟩⟩
  have htrim : trim (' ' :: asWord ++ ' ' :: n.chars) = asWord ++ ' ' :: n.chars := by
    rw [List.cons_append, trim_space_cons (by decide)]
    simpa using (has.append n.tight [' ']).trim_eq
  -- behind the star comes `as`, behind that the name, each after a blank
  have hafter : afterLiteral asWord (asWord ++ ' ' :: n.chars) = some (' ' :: n.chars) :=
    afterLiteral_eq_some_iff.2 rfl
  simp only [headBinding?, starChars, List.cons_append] at htrim ⊢
  rw [htrim]
  simp only [hafter, trim_space_cons (show isSpace ' ' = true by decide), n.tight.trim_eq,
    n.isIdentifier, if_true]

/-- `bindingsOf` reads the part of a clause in front of the braces and the part in them, each on its
    own. -/
theorem bindingsOf_eq {typeOnly : Bool} {clause head braced : List Char} (htight : Tight clause)
    (hclause : clause = head ++ braced) (hhead : ∀ c ∈ head, c ≠ '{')
    (hbraced : braced = [] ∨ ∃ rest, braced = '{' :: rest) :
    bindingsOf typeOnly clause = (items head).filterMap (headBinding? typeOnly) ++
      (items (beforeLastBrace (braced.drop 1))).filterMap (namedBinding? typeOnly) := by
  -- the first brace is where the second part starts
  have htake : clause.takeWhile (· != '{') = head := by
    rw [hclause, List.takeWhile_append_of_pos (by simpa using hhead)]
    rcases hbraced with rfl | ⟨rest, rfl⟩ <;> simp
  have hdrop : clause.dropWhile (· != '{') = braced := by
    rw [hclause, List.dropWhile_append_of_pos (by simpa using hhead)]
    rcases hbraced with rfl | ⟨rest, rfl⟩ <;> simp
  simp only [bindingsOf, htight.trim_eq, htake, hdrop]

section

variable {others : List Char}

/-- `starChars` is `Over` any characters with a blank and a star. -/
theorem Over.starChars {n : Name} (hblank : ' ' ∈ others) (hstar : '*' ∈ others) :
    Over others (starChars n) := by
  have has : Over others asWord := .word (by decide)
  simp [Import.starChars, has, hblank, hstar]

/-- `firstChars` is `Over` any characters with a blank and a comma. -/
theorem Over.firstChars {first : Option Name} (hblank : ' ' ∈ others) (hcomma : ',' ∈ others) :
    Over others (firstChars first) := by
  cases first <;> simp [Import.firstChars, hblank, hcomma]

end

/-- `firstChars` keeps the ends of what is behind it. -/
theorem tight_firstChars (first : Option Name) {cs : List Char} (hcs : Tight cs) :
    Tight (firstChars first ++ cs) := by
  cases first with
  | none => exact hcs
  | some n => exact n.tight.append hcs [',', ' ']

/-- `starChars` has no spaces at its ends. -/
theorem tight_starChars (n : Name) : Tight (starChars n) := by
  have hstar : Tight ['*'] := ⟨⟨'*', rfl, rfl⟩, ⟨'*', rfl, rfl⟩⟩
  simpa [starChars] using hstar.append n.tight (' ' :: asWord ++ [' '])

/-- `listChars` starts and ends with a brace. -/
theorem tight_listChars (is : List ListItem) : Tight (listChars is) := by
  unfold listChars
  split
  · exact ⟨⟨'{', rfl, rfl⟩, ⟨'}', rfl, rfl⟩⟩
  · have hopen : Tight ['{'] := ⟨⟨'{', rfl, rfl⟩, ⟨'{', rfl, rfl⟩⟩
    have hclose : Tight ['}'] := ⟨⟨'}', rfl, rfl⟩, ⟨'}', rfl, rfl⟩⟩
    simpa using hopen.append hclose (' ' :: itemsChars is ++ [' '])

/-- `Clause.chars` has no spaces at its ends. -/
theorem Clause.tight (c : Clause) : Tight c.chars := by
  cases c with
  | default name => exact name.tight
  | namespaceAlias first name => exact tight_firstChars first (tight_starChars name)
  | named first is _ => exact tight_firstChars first (tight_listChars is)

/-- `items` finds those items in the braces of `listChars` that were printed. -/
theorem items_beforeLastBrace (is : List ListItem) :
    items (beforeLastBrace ((listChars is).drop 1)) = is.map ListItem.chars := by
  unfold listChars
  cases is with
  | nil => decide
  | cons i rest =>
    have hbefore : beforeLastBrace (' ' :: itemsChars (i :: rest) ++ [' ', '}']) =
        ' ' :: (itemsChars (i :: rest) ++ [' ']) := by
      simp [beforeLastBrace]
    show items (beforeLastBrace (' ' :: itemsChars (i :: rest) ++ [' ', '}'])) = _
    rw [hbefore, items_space_cons (by decide) (by decide),
      items_itemsChars (List.cons_ne_nil i rest)]

/-- `bindingsOf` reads the names back that a printed clause binds. -/
theorem bindingsOf_chars (c : Clause) (typeOnly : Bool) :
    bindingsOf typeOnly c.chars = c.bindings typeOnly := by
  have hfirst : ∀ first : Option Name, (first.map Name.chars).toList.filterMap
      (headBinding? typeOnly) = (first.map (·.default typeOnly)).toList := by
    rintro (_ | n)
    · rfl
    · simp [headBinding?_name]
  -- without braces there is no second part
  have hnone : (items (beforeLastBrace (List.drop 1 []))).filterMap (namedBinding? typeOnly) = [] :=
    rfl
  cases c with
  | default name =>
    have hbrace := name.ne_of_mem (d := '{') (by decide)
    rw [Clause.chars, bindingsOf_eq name.tight (List.append_nil _).symm hbrace (.inl rfl), hnone,
      items_of_all name.comma_of_mem, name.tight.trim_eq, if_neg name.ne_nil]
    simp [headBinding?_name, Clause.bindings]
  | namespaceAlias first name =>
    have htight := tight_firstChars first (tight_starChars name)
    have hstar : Over [' ', '*'] (starChars name) := .starChars (by simp) (by simp)
    -- neither part has a brace, so all of the clause is in front of them
    have hbrace : ∀ c ∈ firstChars first ++ starChars name, c ≠ '{' := by
      have hover : Over [' ', ',', '*'] (firstChars first ++ starChars name) := by
        simp [Over.firstChars, Over.starChars]
      exact hover.ne (by decide) (by decide)
    rw [Clause.chars, bindingsOf_eq htight (List.append_nil _).symm hbrace (.inl rfl), hnone,
      items_firstChars, items_of_all (hstar.ne (by decide) (by decide)),
      (tight_starChars name).trim_eq, if_neg (tight_starChars name).ne_nil, List.filterMap_append,
      hfirst, List.append_nil]
    simp [headBinding?_starChars, Clause.bindings]
  | named first is hclear =>
    have htight := tight_firstChars first (tight_listChars is)
    have hfirstOver : Over [' ', ','] (firstChars first) := .firstChars (by simp) (by simp)
    have hbrace := hfirstOver.ne (d := '{') (by decide) (by decide)
    have hlist : ∃ rest, listChars is = '{' :: rest := by
      unfold listChars
      split <;> exact ⟨_, rfl⟩
    -- every item is read back on its own
    have hitems : (is.map ListItem.chars).filterMap (namedBinding? typeOnly) =
        is.map (·.binding typeOnly) := by
      clear htight hlist
      induction is with
      | nil => rfl
      | cons i is ih =>
        have hi := ListItem.namedBinding?_chars (hclear i List.mem_cons_self) typeOnly
        rw [List.map_cons, List.filterMap_cons_some hi,
          ih fun j hj => hclear j (List.mem_cons_of_mem i hj), List.map_cons]
    have hhead : items (firstChars first) = (first.map Name.chars).toList := by
      have := items_firstChars first []
      rwa [List.append_nil, show items [] = [] from rfl, List.append_nil] at this
    rw [Clause.chars, bindingsOf_eq htight rfl hbrace (.inr hlist), hhead, hfirst,
      items_beforeLastBrace, hitems, Clause.bindings]

end Deadwood.Import
