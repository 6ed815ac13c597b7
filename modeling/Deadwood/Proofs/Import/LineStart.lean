import Deadwood.Proofs.Import.Recognise

/-!
# What is found at the start of a printed declaration

Each of the five recognisers, at the start of a line, finds a declaration of its own form up to the
closing quote of the specifier, and nothing in one of another form. The shortest clause that a
source follows is the printed one, since a name `from` inside it is not followed by a quote, and
`type` is read as a keyword where it was printed as one.
-/

namespace Deadwood.Import

open Text

/-! ## Characters up to the opening quote -/

/-- A text of such characters only is `Over` them. -/
theorem Over.of_subset {others cs : List Char} (h : cs ⊆ others) : Over others cs := fun _ hc =>
  .inr (h hc)

/-- `itemsChars` is `Over` any characters with a blank and a comma. -/
theorem Over.itemsChars {others : List Char} (hblank : ' ' ∈ others) (hcomma : ',' ∈ others)
    {is : List ListItem} : Over others (itemsChars is) := by
  -- the items one by one, where only the last one has no comma behind it
  induction is with
  | nil => exact .nil
  | cons i rest ih =>
    have hi : Over others i.chars := i.over_chars hblank
    cases rest with
    | nil => exact hi
    | cons j rest =>
      show Over others (i.chars ++ ',' :: ' ' :: Import.itemsChars (j :: rest))
      rw [append_iff, cons_iff, cons_iff]
      exact ⟨hi, .inr hcomma, .inr hblank, ih⟩

/-- `listChars` has only names and `marks`. -/
theorem Over.listChars {is : List ListItem} : Over marks (listChars is) := by
  unfold Import.listChars
  split
  · exact of_subset (by decide)
  · simp only [List.cons_append, cons_iff, append_iff]
    exact ⟨.inr (by decide), .inr (by decide), itemsChars (by decide) (by decide),
      .inr (by decide), .inr (by decide), .nil⟩

/-- `Clause.chars` has only names and `marks`. -/
theorem Over.clause (c : Clause) : Over marks c.chars := by
  cases c with
  | default n => exact .name n
  | namespaceAlias first n =>
    exact append_iff.2 ⟨firstChars (by decide) (by decide), starChars (by decide) (by decide)⟩
  | named first is _ => exact append_iff.2 ⟨firstChars (by decide) (by decide), listChars⟩

/-- `Exports.chars` has only names and `marks`. -/
theorem Over.exports (e : Exports) : Over marks e.chars := by
  cases e with
  | all => exact of_subset (by decide)
  | allAs n _ => exact starChars (by decide) (by decide)
  | listed is => exact listChars

/-- `fromMark` has only names and `marks`. -/
theorem Over.fromMark : Over marks fromMark :=
  List.all_iff_forall_prop.1 rfl

/-- What `Shape.chars` prints in front of a specifier has only names and `marks`. -/
theorem Over.shape (s : Shape) : Over marks s.chars := by
  have himport : Over marks importWord := word (by decide)
  have hexport : Over marks exportWord := word (by decide)
  have hblank : isNamePart ' ' = true ∨ ' ' ∈ marks := .inr (by decide)
  cases s with
  | sideEffect => exact append_iff.2 ⟨himport, cons_iff.2 ⟨hblank, .nil⟩⟩
  | binding typeOnly c =>
    simp only [Shape.chars, append_iff, cons_iff]
    exact ⟨⟨⟨himport, hblank, typeMark typeOnly (by decide)⟩, clause c⟩, fromMark⟩
  | reExport e =>
    simp only [Shape.chars, append_iff, cons_iff]
    exact ⟨⟨hexport, hblank, exports e⟩, fromMark⟩

/-- `isQuote` holds of none of the `marks`, so such a text has no quotes. -/
theorem Over.isQuote_eq {cs : List Char} (h : Over marks cs) : ∀ c ∈ cs, isQuote c = false := by
  intro c hc
  by_contra hq
  rcases eq_of_isQuote (Bool.not_eq_false _ ▸ hq) with rfl | rfl
  · exact h.ne (by decide) (by decide) _ hc rfl
  · exact h.ne (by decide) (by decide) _ hc rfl

/-! ## Quoted specifiers -/

/-- `isSpecifierChar` takes no quotes. -/
theorem isSpecifierChar_of_isQuote {q : Char} (hq : isQuote q = true) :
    isSpecifierChar q = false := by
  simp [isSpecifierChar, hq]

/-- `quoted?` reads a specifier between quotes back. -/
theorem quoted?_specifier (s : Specifier) {q : Char} (hq : isQuote q = true) (rest : List Char) :
    quoted? (q :: s.chars ++ q :: rest) = some (s.chars, rest) := by
  have hnot : ¬isSpecifierChar q = true := by simp [isSpecifierChar_of_isQuote hq]
  have htake : (s.chars ++ q :: rest).takeWhile isSpecifierChar = s.chars := by
    rw [List.takeWhile_append_of_pos s.plain, List.takeWhile_cons_of_neg hnot, List.append_nil]
  have hdrop : (s.chars ++ q :: rest).dropWhile isSpecifierChar = q :: rest := by
    rw [List.dropWhile_append_of_pos s.plain, List.dropWhile_cons_of_neg hnot]
  -- `quoted?` wants at least one character between the quotes
  obtain ⟨chars, hne, plain⟩ := s
  cases chars with
  | nil => exact absurd rfl hne
  | cons c cs =>
    rw [List.cons_append, quoted?, htake, hdrop, hq]
    simp [hq]

/-- `quoted?` finds nothing where passing over characters stops in front of the opening quote. -/
theorem quoted?_dropWhile_of_over {p : Char → Bool} {cs : List Char} (hcs : Over marks cs)
    {c : Char} (hc : c ∈ cs) (hpc : p c = false) (rest : List Char) :
    quoted? ((cs ++ rest).dropWhile p) = none := by
  -- what is dropped ends in the first part, in which nothing is quoted
  have hne : cs.dropWhile p ≠ [] := by
    intro hnil
    have := List.dropWhile_eq_nil_iff.1 hnil c hc
    rw [hpc] at this
    cases this
  obtain ⟨d, ds, hds⟩ := List.exists_cons_of_ne_nil hne
  have hd : isQuote d = false :=
    hcs.isQuote_eq d ((List.dropWhile_suffix p).mem (hds ▸ List.mem_cons_self))
  rw [List.dropWhile_append, hds]
  simp [quoted?, hd]

/-! ## Sources -/

/-- `gapSource?` reads a printed source back. -/
theorem gapSource?_fromMark (s : Specifier) {q : Char} (hq : isQuote q = true) (rest : List Char) :
    gapSource? (fromMark ++ q :: s.chars ++ q :: rest) = some (s.chars, rest) := by
  -- the gap in front of the quote is the one blank of `fromMark`
  have hgap : ¬isGap q = true := by
    intro h
    rw [isQuote_of_isGap h] at hq
    cases hq
  have hquoted := quoted?_specifier s hq rest
  simp only [List.cons_append] at hquoted
  show quoted? (List.dropWhile isGap (' ' :: q :: (s.chars ++ q :: rest))) = _
  rw [List.dropWhile_cons_of_pos (by decide), List.dropWhile_cons_of_neg hgap, hquoted]

/-- `source?` finds nothing at a `from` in front of the printed one, as no quote follows it. -/
theorem source?_of_over {cs : List Char} (hcs : Over marks cs) (rest : List Char) :
    source? (cs ++ fromMark ++ rest) = none := by
  rw [source?, Option.bind_eq_none_iff]
  intro z hz
  -- the word ends before the blank in front of the printed `from`
  obtain ⟨cs', rfl, rfl⟩ := exists_of_afterLiteral_append_cons (by decide)
    (show afterLiteral fromWord (cs ++ ' ' :: (fromWord ++ ' ' :: rest)) = some z by
      simpa [fromMark] using hz)
  have hover : Over marks (cs' ++ fromMark) :=
    Over.append_iff.2 ⟨(Over.append_iff.1 hcs).2, .fromMark⟩
  have hquoted := @quoted?_dropWhile_of_over isGap _ hover 'f' (by simp [fromMark, fromWord])
    (by decide) rest
  simpa [fromMark] using hquoted

/-- `sourceAfter?` finds no source inside a clause. -/
theorem sourceAfter?_of_over (c : Char) {cs : List Char} (hcs : Over marks cs)
    (hlast : ∃ d ∈ cs.getLast?, isSpace d = false) (rest : List Char) :
    sourceAfter? c (cs ++ fromMark ++ rest) = none := by
  unfold sourceAfter?
  split
  · -- gaps are passed up to a character of the clause, at the latest up to its last one
    obtain ⟨d, hd, hspace⟩ := hlast
    have hne : cs.dropWhile isGap ≠ [] := by
      intro hnil
      have hgap := List.dropWhile_eq_nil_iff.1 hnil d (List.mem_of_getLast? hd)
      rw [isSpace_of_isGap hgap] at hspace
      cases hspace
    have hdrop : (cs ++ fromMark ++ rest).dropWhile isGap =
        cs.dropWhile isGap ++ fromMark ++ rest := by
      rw [List.append_assoc, List.dropWhile_append, if_neg (by simpa using hne), List.append_assoc]
    rw [hdrop]
    exact source?_of_over (fun c hc => hcs c ((List.dropWhile_suffix isGap).mem hc)) rest
  · rfl

/-- `clause?` reads a printed clause back, up to its last character. -/
theorem clause?_printed {clause : List Char} (hover : Over marks clause)
    (hlast : ∃ d ∈ clause.getLast?, isSpace d = false) (s : Specifier) {q : Char}
    (hq : isQuote q = true) (rest : List Char) :
    clause? (clause ++ fromMark ++ q :: s.chars ++ q :: rest) =
      some (clause, s.chars, rest) := by
  -- character by character, as `clause?` tries the shortest clause first
  induction clause with
  | nil =>
    obtain ⟨d, hd, -⟩ := hlast
    cases hd
  | cons c cs ih =>
    have hc : (isQuote c || c == ';') = false := by
      rw [hover.isQuote_eq c List.mem_cons_self, Bool.false_or, beq_eq_false_iff_ne]
      exact hover.ne (by decide) (by decide) c List.mem_cons_self
    have hcs := (Over.cons_iff.1 hover).2
    simp only [List.cons_append, clause?, hc]
    cases cs with
    | nil =>
      -- behind the last character of the clause the source follows
      have hsource : sourceAfter? c (fromMark ++ q :: s.chars ++ q :: rest) =
          some (s.chars, rest) :=
        (if_pos rfl).trans (gapSource?_fromMark s hq rest)
      simp only [List.nil_append] at hsource ⊢
      rw [hsource]
      rfl
    | cons d ds =>
      have hlast' : ∃ e ∈ (d :: ds).getLast?, isSpace e = false := by
        simpa [List.getLast?_cons_cons] using hlast
      have hnone := sourceAfter?_of_over c hcs hlast' (q :: s.chars ++ q :: rest)
      have ih := ih hcs hlast'
      simp only [List.append_assoc, List.cons_append] at hnone ih ⊢
      rw [hnone, ih]
      rfl

/-! ## The keyword `type` -/

/-- `passBlanks` wants a blank at the start. -/
theorem passBlanks_of_head {β : Type} {text : List Char} {next : List Char → Option β}
    (h : ∀ c ∈ text.head?, isBlank c = false) : passBlanks text next = none := by
  cases text with
  | nil => rfl
  | cons c cs =>
    have htake : (c :: cs).takeWhile isBlank = [] :=
      List.takeWhile_cons_of_neg (by simp [h c rfl])
    rw [passBlanks, htake]
    rfl

/-- `clause?` finds no clause where a `from` stands in its place, behind a name `type`. -/
private theorem clause?_fromWord {q : Char} (hq : isQuote q = true) (rest : List Char) :
    clause? (fromWord ++ ' ' :: q :: rest) = none := by
  rcases eq_of_isQuote hq with rfl | rfl <;> rfl

/-- `typedClause?` does not take a name at the start of a clause for the keyword. -/
private theorem typed_name (n : Name) {cs : List Char} {c : Char} (hc : isNamePart c = false)
    (hcs : passBlanks (c :: cs) (clauseOf true) = none) :
    ((afterLiteral typeWord (n.chars ++ c :: cs)).bind fun rest =>
      passBlanks rest (clauseOf true)) = none := by
  rw [Option.bind_eq_none_iff]
  intro rest hrest
  have hmem : c ∉ typeWord := by
    intro hmem
    have : isNamePart c = true := List.all_eq_true.1 (by decide) c hmem
    rw [hc] at this
    cases this
  obtain ⟨name, hname, rfl⟩ := exists_of_afterLiteral_append_cons hmem hrest
  cases name with
  | nil => exact hcs
  | cons d ds =>
    -- the name goes on where the keyword would have to be followed by a blank
    refine passBlanks_of_head fun e he => ?_
    cases he
    exact isBlank_of_isSpace (n.isSpace_of_mem d (by simp [hname]))

/-- `typedClause?` does not take the start of a printed clause for the keyword. -/
theorem typed_clause (c : Clause) {q : Char} (hq : isQuote q = true) (rest : List Char) :
    ((afterLiteral typeWord (c.chars ++ fromMark ++ q :: rest)).bind fun rest =>
      passBlanks rest (clauseOf true)) = none := by
  -- a comma behind a first name is no blank, which the keyword would need
  have hcomma : ∀ (n : Name) (cs : List Char),
      ((afterLiteral typeWord (n.chars ++ ',' :: cs)).bind fun rest =>
        passBlanks rest (clauseOf true)) = none := by
    intro n cs
    refine typed_name n (by decide) (passBlanks_of_head fun e he => ?_)
    cases he
    decide
  cases c with
  | default n =>
    -- a name `type` has a blank behind it, but then no clause
    have hblank : passBlanks (fromMark ++ q :: rest) (clauseOf true) = none := by
      show passBlanks (' ' :: (fromWord ++ ' ' :: q :: rest)) (clauseOf true) = none
      rw [passBlanks_blank_cons (by intro e he; cases he; decide), clauseOf,
        clause?_fromWord hq]
      rfl
    rw [Clause.chars, List.append_assoc]
    exact typed_name n (by decide) hblank
  | namespaceAlias first n =>
    cases first with
    | none => rfl
    | some first => simpa [Clause.chars, firstChars] using hcomma first _
  | named first is _ =>
    cases first with
    | none =>
      cases is with
      | nil => rfl
      | cons i is => rfl
    | some first => simpa [Clause.chars, firstChars] using hcomma first _

/-- `typedClause?` reads a printed clause back together with its `type`. -/
theorem typedClause?_printed (typeOnly : Bool) (c : Clause) (s : Specifier) {q : Char}
    (hq : isQuote q = true) (rest : List Char) :
    typedClause? (typeMark typeOnly ++ c.chars ++ fromMark ++ q :: s.chars ++ q :: rest) =
      some (⟨typeOnly, c.chars, s.chars⟩, rest) := by
  have hclause : ∀ typeOnly, clauseOf typeOnly (c.chars ++ fromMark ++ q :: s.chars ++ q :: rest) =
      some (⟨typeOnly, c.chars, s.chars⟩, rest) := by
    intro typeOnly
    rw [clauseOf, clause?_printed (.clause c) c.tight.last s hq rest]
    rfl
  -- the word for types is tried first, and must not be found in a clause without it
  cases typeOnly with
  | false =>
    have htyped := typed_clause c hq (s.chars ++ q :: rest)
    simp only [List.append_assoc, List.cons_append] at htyped hclause ⊢
    rw [typedClause?, typeMark, if_neg (by decide), List.nil_append, htyped, Option.none_or,
      hclause]
  | true =>
    have hafter : afterLiteral typeWord
        (typeMark true ++ c.chars ++ fromMark ++ q :: s.chars ++ q :: rest) =
          some (' ' :: (c.chars ++ fromMark ++ q :: s.chars ++ q :: rest)) := by
      rw [afterLiteral_eq_some_iff]
      simp [typeMark]
    have hhead : ∀ d ∈ (c.chars ++ fromMark ++ q :: s.chars ++ q :: rest).head?,
        isBlank d = false := by
      simpa using c.tight.isBlank_head? (fromMark ++ q :: s.chars ++ q :: rest)
    rw [typedClause?, hafter, Option.bind_some, passBlanks_blank_cons hhead, hclause]
    rfl

/-! ## Re-exported names -/

/-- `isAliasChar` takes the ASCII characters of names. -/
theorem isAliasChar_of_isNamePart {c : Char} (hc : isNamePart c = true)
    (hascii : isAscii c = true) : isAliasChar c = true := by
  -- all 128 characters are tried
  have hall : ∀ n < 128, isNamePart (Char.ofNat n) = true → isAliasChar (Char.ofNat n) = true := by
    decide +kernel
  have hall := hall c.toNat (by simpa [isAscii] using hascii)
  rw [Char.ofNat_toNat] at hall
  exact hall hc

/-- `aliasSource?` reads a printed name and its source back. It tries the longest name first, which
    is the printed one. -/
theorem aliasSource?_printed {n : Name} (hascii : ∀ c ∈ n.chars, isAscii c = true) (s : Specifier)
    {q : Char} (hq : isQuote q = true) (rest : List Char) :
    aliasSource? (' ' :: asWord ++ ' ' :: n.chars ++ fromMark ++ q :: s.chars ++ q :: rest) =
      some (s.chars, rest) := by
  -- the blank of `fromMark` ends the longest name
  have htake : (n.chars ++ (fromMark ++ q :: s.chars ++ q :: rest)).takeWhile isAliasChar =
      n.chars := by
    rw [List.takeWhile_append_of_pos fun c hc =>
      isAliasChar_of_isNamePart (n.isNamePart_of_mem hc) (hascii c hc)]
    exact List.append_nil _
  obtain ⟨k, hk⟩ : ∃ k, n.chars.length = k + 1 :=
    Nat.exists_eq_succ_of_ne_zero (by simpa using n.ne_nil)
  have hdrop : (n.chars ++ (fromMark ++ q :: s.chars ++ q :: rest)).drop (k + 1) =
      fromMark ++ q :: s.chars ++ q :: rest := by
    rw [← hk, List.drop_left]
  have hblank := n.tight.isBlank_head? (fromMark ++ q :: s.chars ++ q :: rest)
  have htext : ' ' :: asWord ++ ' ' :: n.chars ++ fromMark ++ q :: s.chars ++ q :: rest =
      ' ' :: (asWord ++ ' ' :: (n.chars ++ (fromMark ++ q :: s.chars ++ q :: rest))) := by
    simp
  rw [htext, aliasSource?, passBlanks_blank_cons (by intro c hc; cases hc; decide),
    afterLiteral_eq_some_iff.2 rfl, Option.bind_some, passBlanks_blank_cons hblank, htake, hk,
    List.range_succ, List.reverse_append, List.reverse_singleton, List.singleton_append,
    List.findSome?_cons, hdrop, gapSource?_fromMark s hq rest]

/-- `listChars` has a brace at each end and no other closing one. -/
private theorem exists_listChars (is : List ListItem) :
    ∃ inside, listChars is = '{' :: inside ++ ['}'] ∧ ∀ c ∈ inside, c ≠ '}' := by
  cases is with
  | nil => exact ⟨[], rfl, fun _ hc => nomatch hc⟩
  | cons i is =>
    have hover : Over [' ', ','] (' ' :: itemsChars (i :: is) ++ [' ']) := by
      simp only [List.cons_append, Over.cons_iff, Over.append_iff]
      exact ⟨.inr (by decide), .itemsChars (by decide) (by decide), .inr (by decide), .nil⟩
    refine ⟨' ' :: itemsChars (i :: is) ++ [' '], ?_, hover.ne (by decide) (by decide)⟩
    simp [listChars]

/-- `exported?` reads the source of a printed re-export back. -/
theorem exported?_printed (e : Exports) (s : Specifier) {q : Char} (hq : isQuote q = true)
    (rest : List Char) :
    exported? (e.chars ++ fromMark ++ q :: s.chars ++ q :: rest) = some (s.chars, rest) := by
  have hsource := gapSource?_fromMark s hq rest
  cases e with
  | all =>
    -- `from` stands where `as` would have to
    have halias : aliasSource? (fromMark ++ q :: s.chars ++ q :: rest) = none :=
      passBlanks_blank_cons (by intro c hc; cases hc; decide)
    show (aliasSource? (fromMark ++ q :: s.chars ++ q :: rest)).or
      (gapSource? (fromMark ++ q :: s.chars ++ q :: rest)) = _
    rw [halias, hsource]
    rfl
  | allAs n hascii =>
    show (aliasSource? (' ' :: asWord ++ ' ' :: n.chars ++ fromMark ++ q :: s.chars ++
      q :: rest)).or _ = _
    rw [aliasSource?_printed hascii s hq rest]
    rfl
  | listed is =>
    -- no name holds the brace that ends the list
    obtain ⟨inside, hinside, hbrace⟩ := exists_listChars is
    have hdrop : (inside ++ '}' :: (fromMark ++ q :: s.chars ++ q :: rest)).dropWhile (· != '}') =
        '}' :: (fromMark ++ q :: s.chars ++ q :: rest) := by
      rw [List.dropWhile_append_of_pos fun c hc => by simpa using hbrace c hc]
      rfl
    have htext : Exports.chars (.listed is) ++ fromMark ++ q :: s.chars ++ q :: rest =
        '{' :: (inside ++ '}' :: (fromMark ++ q :: s.chars ++ q :: rest)) := by
      simp [Exports.chars, hinside]
    rw [htext, exported?, hdrop]
    exact hsource

/-! ## The recognisers at the start of a line -/

/-- The text of a declaration up to its closing quote. -/
def Declaration.head (d : Declaration) : List Char :=
  d.shape.chars ++ d.quote :: d.specifier.chars ++ [d.quote]

/-- The import that a declaration prints, if it binds names. -/
def Declaration.staticImport? (d : Declaration) : Option StaticImport :=
  match d.shape with
  | .binding typeOnly clause => some ⟨typeOnly, clause.chars, d.specifier.chars⟩
  | _ => none

/-- The specifier of a declaration of the given form. -/
def Declaration.specifierOf? (form : Form) (d : Declaration) : Option (List Char) :=
  if d.shape.form = form then some d.specifier.chars else none

namespace Declaration

/-- `Declaration.head` of an import for its effects, keyword first. -/
theorem head_append_of_sideEffect {d : Declaration} (h : d.shape = .sideEffect)
    (rest : List Char) :
    d.head ++ rest = importWord ++ ' ' :: d.quote :: (d.specifier.chars ++ d.quote :: rest) := by
  simp [head, Shape.chars, h]

/-- `Declaration.head` of an import that binds names, keyword first. -/
theorem head_append_of_binding {d : Declaration} {typeOnly : Bool} {c : Clause}
    (h : d.shape = .binding typeOnly c) (rest : List Char) :
    d.head ++ rest = importWord ++ ' ' :: (typeMark typeOnly ++ c.chars ++ fromMark ++
      d.quote :: d.specifier.chars ++ d.quote :: rest) := by
  simp [head, Shape.chars, h]

/-- `Declaration.head` of a re-export, keyword first. -/
theorem head_append_of_reExport {d : Declaration} {e : Exports} (h : d.shape = .reExport e)
    (rest : List Char) :
    d.head ++ rest = exportWord ++ ' ' :: (e.chars ++ fromMark ++
      d.quote :: d.specifier.chars ++ d.quote :: rest) := by
  simp [head, Shape.chars, h]

end Declaration

/-- `isBlank` takes no quotes. -/
theorem isBlank_of_isQuote {q : Char} (hq : isQuote q = true) : isBlank q = false := by
  cases hblank : isBlank q with
  | false => rfl
  | true =>
    rw [isQuote_of_isBlank hblank] at hq
    cases hq

/-- `Exports.chars` starts with `*` or with a brace. -/
theorem Exports.exists_opening (e : Exports) :
    ∃ c cs, e.chars = c :: cs ∧ (c = '*' ∨ c = '{') := by
  cases e with
  | all => exact ⟨_, _, rfl, .inl rfl⟩
  | allAs n _ => exact ⟨_, _, rfl, .inl rfl⟩
  | listed is =>
    obtain ⟨inside, hinside, -⟩ := exists_listChars is
    exact ⟨_, _, hinside, .inr rfl⟩

/-- `findBetween` of a text and its end takes what is in front of that end. -/
theorem findBetween_append {α : Type} (xs rest : List Char) (value : α) :
    findBetween (xs ++ rest) (xs ++ rest) rest value = ⟨0, xs.length, value⟩ := by
  simp [findBetween]

/-- `statement?` at the start of a line goes on behind the keyword. -/
theorem statement?_of_start {α β : Type} {word : List Char} {next : List Char → Option β}
    {make : List Char → List Char → β → Find α} {before : Option Char} {body : List Char}
    (hstart : statementStart? before (word ++ body) = some (word ++ body)) :
    statement? word next make before (word ++ body) =
      (next body).map (make (word ++ body) (word ++ body)) := by
  rw [statement?, hstart, Option.bind_some, afterLiteral_eq_some_iff.2 rfl, Option.bind_some]

section

variable {before : Option Char} (hbefore : before.all (· == '\n') = true)

include hbefore

/-- `statementStart?` passes over nothing in front of a keyword. -/
theorem statementStart?_word {w : Char} {ws : List Char} (hw : w ≠ ';') (hblank : isBlank w = false)
    (body : List Char) : statementStart? before (w :: ws ++ body) = some (w :: ws ++ body) := by
  have hhead : (w :: ws ++ body).head? ≠ some ';' := by simpa using hw
  rw [statementStart?_of_head hhead, if_pos hbefore, List.cons_append,
    List.dropWhile_cons_of_neg (by simp [hblank])]

/-- `statementStart?` in front of an import. -/
theorem statementStart?_import (body : List Char) :
    statementStart? before (importWord ++ body) = some (importWord ++ body) :=
  statementStart?_word hbefore (by decide) (by decide) body

/-- `statementStart?` in front of a re-export. -/
theorem statementStart?_export (body : List Char) :
    statementStart? before (exportWord ++ body) = some (exportWord ++ body) :=
  statementStart?_word hbefore (by decide) (by decide) body

/-- `static?` finds no import in a re-export. -/
theorem static?_export (body : List Char) : static? before (exportWord ++ body) = none := by
  rw [static?_eq, statement?, statementStart?_export hbefore]
  rfl

/-- `sideEffect?` finds no import in a re-export. -/
theorem sideEffect?_export (body : List Char) : sideEffect? before (exportWord ++ body) = none := by
  rw [sideEffect?_eq, statement?, statementStart?_export hbefore]
  rfl

/-- `reExport?` finds no re-export in an import. -/
theorem reExport?_import (body : List Char) : reExport? before (importWord ++ body) = none := by
  rw [reExport?_eq, statement?, statementStart?_import hbefore]
  rfl

/-- `static?` finds a printed import that binds names, with its clause, and no other declaration. -/
theorem static?_head (d : Declaration) (rest : List Char) :
    static? before (d.head ++ rest) =
      d.staticImport?.map fun found => ⟨0, d.head.length, (found, rest)⟩ := by
  cases hshape : d.shape with
  | sideEffect =>
    -- a quote can not start a clause
    have htyped : typedClause? (d.quote :: (d.specifier.chars ++ d.quote :: rest)) = none := by
      rcases eq_of_isQuote d.isQuote with hquote | hquote <;> rw [hquote] <;> rfl
    rw [Declaration.head_append_of_sideEffect hshape, static?_eq,
      statement?_of_start (statementStart?_import hbefore _),
      passBlanks_blank_cons (by simpa using isBlank_of_isQuote d.isQuote), htyped]
    simp [Declaration.staticImport?, hshape]
  | binding typeOnly c =>
    -- the keyword is followed by one blank
    have hblank := (tight_typeMark typeOnly c.tight).isBlank_head?
      (fromMark ++ d.quote :: d.specifier.chars ++ d.quote :: rest)
    simp only [← List.append_assoc] at hblank
    have htext := Declaration.head_append_of_binding hshape rest
    rw [htext, static?_eq, statement?_of_start (statementStart?_import hbefore _),
      passBlanks_blank_cons hblank, typedClause?_printed typeOnly c d.specifier d.isQuote rest,
      Option.map_some, ← htext, findBetween_append]
    simp [Declaration.staticImport?, hshape]
  | reExport e =>
    rw [Declaration.head_append_of_reExport hshape, static?_export hbefore]
    simp [Declaration.staticImport?, hshape]

/-- `sideEffect?` finds a printed import for its effects, and no other declaration. -/
theorem sideEffect?_head (d : Declaration) (rest : List Char) :
    sideEffect? before (d.head ++ rest) =
      (d.specifierOf? .sideEffect).map fun found => ⟨0, d.head.length, found⟩ := by
  cases hshape : d.shape with
  | sideEffect =>
    have hquoted := quoted?_specifier d.specifier d.isQuote rest
    have htext := Declaration.head_append_of_sideEffect hshape rest
    have hdrop : (' ' :: d.quote :: (d.specifier.chars ++ d.quote :: rest)).dropWhile isBlank =
        d.quote :: (d.specifier.chars ++ d.quote :: rest) := by
      rw [List.dropWhile_cons_of_pos (by decide),
        List.dropWhile_cons_of_neg (by simp [isBlank_of_isQuote d.isQuote])]
    rw [List.cons_append] at hquoted
    rw [htext, sideEffect?_eq, statement?_of_start (statementStart?_import hbefore _), hdrop,
      hquoted, Option.map_some, ← htext, findBetween_append]
    simp [Declaration.specifierOf?, hshape, Shape.form]
  | binding typeOnly c =>
    -- the `f` of `from` stands before the opening quote
    have hover : Over marks (' ' :: (typeMark typeOnly ++ c.chars ++ fromMark)) := by
      simp only [Over.cons_iff, Over.append_iff]
      exact ⟨.inr (by decide), ⟨.typeMark typeOnly (by decide), .clause c⟩, .fromMark⟩
    have hquoted := @quoted?_dropWhile_of_over isBlank _ hover 'f' (by simp [fromMark, fromWord])
      (by decide) (d.quote :: d.specifier.chars ++ d.quote :: rest)
    simp only [List.cons_append, List.append_assoc] at hquoted
    rw [Declaration.head_append_of_binding hshape, sideEffect?_eq,
      statement?_of_start (statementStart?_import hbefore _)]
    simp only [List.cons_append, List.append_assoc]
    rw [hquoted]
    simp [Declaration.specifierOf?, hshape, Shape.form]
  | reExport e =>
    rw [Declaration.head_append_of_reExport hshape, sideEffect?_export hbefore]
    simp [Declaration.specifierOf?, hshape, Shape.form]

/-- `reExport?` finds a printed re-export, and no other declaration. -/
theorem reExport?_head (d : Declaration) (rest : List Char) :
    reExport? before (d.head ++ rest) =
      (d.specifierOf? .reExport).map fun found => ⟨0, d.head.length, found⟩ := by
  cases hshape : d.shape with
  | sideEffect =>
    rw [Declaration.head_append_of_sideEffect hshape, reExport?_import hbefore]
    simp [Declaration.specifierOf?, hshape, Shape.form]
  | binding typeOnly c =>
    rw [Declaration.head_append_of_binding hshape, reExport?_import hbefore]
    simp [Declaration.specifierOf?, hshape, Shape.form]
  | reExport e =>
    have htext := Declaration.head_append_of_reExport hshape rest
    obtain ⟨c, cs, hc, hopening⟩ := e.exists_opening
    have hlisted : e.chars ++ fromMark ++ d.quote :: d.specifier.chars ++ d.quote :: rest =
        c :: (cs ++ (fromMark ++ d.quote :: d.specifier.chars ++ d.quote :: rest)) := by
      simp [hc]
    -- what is exported starts with no letter, so not with `type`
    have htype : afterLiteral typeWord
        (e.chars ++ fromMark ++ d.quote :: d.specifier.chars ++ d.quote :: rest) = none := by
      rw [hlisted]
      rcases hopening with rfl | rfl <;> rfl
    have hblank : ∀ b ∈ (e.chars ++ fromMark ++ d.quote :: d.specifier.chars ++
        d.quote :: rest).head?, isBlank b = false := by
      rw [hlisted]
      rintro b ⟨⟩
      rcases hopening with rfl | rfl <;> decide
    rw [htext, reExport?_eq, statement?_of_start (statementStart?_export hbefore _),
      passBlanks_blank_cons hblank, htype, Option.bind_none, Option.none_or,
      exported?_printed e d.specifier d.isQuote rest, Option.map_some, ← htext, findBetween_append]
    simp [Declaration.specifierOf?, hshape, Shape.form]

end

/-- `call?` finds nothing at the start of a declaration, as the quote of its specifier does not
    stand behind a parenthesis. -/
theorem call?_head {word : List Char} (hword : word.any isQuote = false)
    (before : Option Char) (d : Declaration) (rest : List Char) :
    call? word before (d.head ++ rest) = none := by
  have htext : d.head ++ rest =
      d.shape.chars ++ d.quote :: (d.specifier.chars ++ d.quote :: rest) := by
    simp [Declaration.head]
  rw [htext]
  exact call?_append_quote hword before (.shape d.shape) d.isQuote

end Deadwood.Import
