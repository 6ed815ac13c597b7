import Mathlib.Data.List.TakeWhile
import Deadwood.Proofs.Import.Clause

/-!
# Where recognisers find nothing

A recogniser has to come to a specifier in quotes. In a printed declaration that is possible from
its first character only: no statement starts in front of the opening quote, and behind it the next
quote closes the specifier, so that nothing on the line is quoted any more (`Closing`). The one way
over a closing quote is a list of re-exported names, which goes on up to the next brace.

`Keyed` collects what all recognisers have in common in this respect.
-/

namespace Deadwood.Import

open Text

/-! ## Passing blanks -/

/-- Up to the length of `takeWhile p`, all characters of a text pass `p`. -/
private theorem of_mem_take {p : Char → Bool} {text : List Char} {n : Nat}
    (hn : n < (text.takeWhile p).length) {c : Char} (hc : c ∈ text.take (n + 1)) : p c = true := by
  have htake : text.take (n + 1) = (text.takeWhile p).take (n + 1) := by
    rw [List.prefix_iff_eq_take.1 (List.takeWhile_prefix p), List.take_take, Nat.min_eq_left hn]
  rw [htake] at hc
  exact List.mem_takeWhile_imp (List.mem_of_mem_take hc)

/-- `passBlanks` goes on behind some blanks, at least one. -/
theorem passBlanks_eq_some {β : Type} {text : List Char} {next : List Char → Option β} {b : β}
    (h : passBlanks text next = some b) :
    ∃ gap rest, IsBlanks gap ∧ text = gap ++ rest ∧ next rest = some b := by
  obtain ⟨n, hn, hnext⟩ := List.exists_of_findSome?_eq_some h
  rw [List.mem_reverse, List.mem_range] at hn
  refine ⟨text.take (n + 1), text.drop (n + 1), ⟨?_, fun c hc => of_mem_take hn hc⟩,
    (List.take_append_drop _ _).symm, hnext⟩
  -- the number of blanks that were tried is at most the number there are
  have hle := (List.takeWhile_prefix isBlank (l := text)).length_le
  rw [← List.length_pos_iff, List.length_take]
  omega

/-- `passBlanks` passes one blank in one way. -/
theorem passBlanks_blank_cons {β : Type} {text : List Char} {next : List Char → Option β}
    (h : ∀ c ∈ text.head?, isBlank c = false) : passBlanks (' ' :: text) next = next text := by
  -- there is one choice only for how many blanks are passed
  have htake : (' ' :: text).takeWhile isBlank = [' '] := by
    cases text with
    | nil => rfl
    | cons c cs =>
      rw [List.takeWhile_cons_of_pos (by decide), List.takeWhile_cons_of_neg (by simp [h c rfl])]
  simp [passBlanks, htake]

/-! ## Behind an opening quote -/

/-- `isQuote` knows two quotes. -/
theorem eq_of_isQuote {q : Char} (hq : isQuote q = true) : q = '\'' ∨ q = '"' := by
  simpa [isQuote] using hq

/-- `isGap` takes no quote. -/
theorem isQuote_of_isGap {c : Char} (h : isGap c = true) : isQuote c = false := by
  simp only [isGap, isBlank, Bool.or_eq_true, beq_iff_eq] at h
  rcases h with ((rfl | rfl) | rfl) | rfl <;> decide

/-- `isBlank` takes no quote. -/
theorem isQuote_of_isBlank {c : Char} (h : isBlank c = true) : isQuote c = false :=
  isQuote_of_isGap (isGap_of_isBlank h)

/-- `isAliasChar` takes no quote. -/
theorem isQuote_of_isAliasChar {c : Char} (h : isAliasChar c = true) : isQuote c = false := by
  by_contra hq
  rcases eq_of_isQuote (Bool.not_eq_false _ ▸ hq) with rfl | rfl <;> exact absurd h (by decide)

/-- The next quote does not open a specifier. -/
def Closing (text : List Char) : Prop :=
  ∃ inside q rest, text = inside ++ q :: rest ∧ (∀ c ∈ inside, isQuote c = false) ∧
    isQuote q = true ∧ quoted? (q :: rest) = none

namespace Closing

/-- `Closing` is left when characters are passed that are no quotes. -/
theorem of_append {xs ys : List Char} (h : Closing (xs ++ ys))
    (hxs : ∀ c ∈ xs, isQuote c = false) : Closing ys := by
  obtain ⟨inside, q, rest, heq, hinside, hq, hnone⟩ := h
  -- the first quote is behind what is passed, or inside it
  rcases List.append_eq_append_iff.1 heq with ⟨zs, rfl, rfl⟩ | ⟨zs, rfl, hys⟩
  · exact ⟨zs, q, rest, rfl, fun c hc => hinside c (List.mem_append_right _ hc), hq, hnone⟩
  · cases zs with
    | nil => exact ⟨[], q, rest, hys.symm, fun _ hc => (nomatch hc), hq, hnone⟩
    | cons c zs =>
      -- the quote would have to be one of the characters before
      cases hys
      have := hxs q (by simp)
      rw [hq] at this
      cases this

/-- `quoted?` reads no specifier where the next quote closes one. -/
theorem quoted?_eq {text : List Char} (h : Closing text) : quoted? text = none := by
  obtain ⟨inside, q, rest, rfl, hinside, -, hnone⟩ := h
  cases inside with
  | nil => exact hnone
  | cons c inside => simp [quoted?, hinside c List.mem_cons_self]

/-- `Closing` is left when `dropWhile` passes no quotes. -/
theorem dropWhile {text : List Char} (h : Closing text) {p : Char → Bool}
    (hp : ∀ c, p c = true → isQuote c = false) : Closing (text.dropWhile p) := by
  rw [← List.takeWhile_append_dropWhile (p := p) (l := text)] at h
  exact h.of_append fun c hc => hp c (List.mem_takeWhile_imp hc)

/-- `Closing` is left behind a first character that is no quote. -/
theorem tail {c : Char} {cs : List Char} (h : Closing (c :: cs)) (hc : isQuote c = false) :
    Closing cs :=
  of_append (show Closing ([c] ++ cs) from h) fun _ hd => List.mem_singleton.1 hd ▸ hc

/-- `Closing` is left behind a word without quotes. -/
theorem afterLiteral {text word rest : List Char} (h : Closing text)
    (hafter : afterLiteral word text = some rest) (hword : word.any isQuote = false) :
    Closing rest := by
  rw [afterLiteral_eq_some_iff.1 hafter] at h
  exact h.of_append fun c hc => Bool.not_eq_true _ ▸ List.any_eq_false.1 hword c hc

/-- `source?` finds no `from` with a specifier where the next quote closes one. -/
theorem source?_eq {text : List Char} (h : Closing text) : source? text = none := by
  rw [source?, Option.bind_eq_none_iff]
  intro rest hrest
  exact ((h.afterLiteral hrest rfl).dropWhile fun _ => isQuote_of_isGap).quoted?_eq

/-- `gapSource?` finds nothing either, behind a gap. -/
theorem gapSource?_eq {text : List Char} (h : Closing text) : gapSource? text = none :=
  (h.dropWhile fun _ => isQuote_of_isGap).source?_eq

/-- `clause?` finds no end of a clause, however far it goes. -/
theorem clause?_eq {text : List Char} (h : Closing text) : clause? text = none := by
  -- the clause is read character by character, so this goes by induction on the text
  induction text with
  | nil => rfl
  | cons c cs ih =>
    unfold clause?
    split
    · rfl
    · rename_i hc
      -- the clause goes on over a character that is no quote
      have hcs : Closing cs := h.tail (Bool.or_eq_false_iff.1 (Bool.not_eq_true _ ▸ hc)).1
      have hsource : sourceAfter? c cs = none := by
        unfold sourceAfter?
        split
        · exact hcs.gapSource?_eq
        · rfl
      rw [hsource, ih hcs]
      rfl

/-- `passBlanks` finds nothing if nothing is found behind the blanks. -/
theorem passBlanks_eq {β : Type} {text : List Char} (h : Closing text)
    {next : List Char → Option β} (hnext : ∀ rest, Closing rest → next rest = none) :
    passBlanks text next = none := by
  rw [Option.eq_none_iff_forall_not_mem]
  intro b hb
  obtain ⟨gap, rest, hgap, rfl, hrest⟩ := passBlanks_eq_some hb
  rw [hnext rest (h.of_append fun c hc => isQuote_of_isBlank (hgap.blank c hc))] at hrest
  cases hrest

/-- `typedClause?` finds nothing, with the word `type` or without it. -/
theorem typedClause?_eq {text : List Char} (h : Closing text) : typedClause? text = none := by
  have hclause : ∀ typeOnly rest, Closing rest → clauseOf typeOnly rest = none := by
    intro typeOnly rest hrest
    rw [clauseOf, hrest.clause?_eq]
    rfl
  -- the clause without the word is settled, the one behind it is left
  rw [typedClause?, hclause false text h, Option.or_none, Option.bind_eq_none_iff]
  intro rest hrest
  exact (h.afterLiteral hrest rfl).passBlanks_eq (hclause true)

/-- `aliasSource?` finds no name with a specifier behind it. -/
theorem aliasSource?_eq {text : List Char} (h : Closing text) : aliasSource? text = none := by
  refine h.passBlanks_eq fun word hword => ?_
  rw [Option.bind_eq_none_iff]
  intro rest hrest
  -- however much is taken for the name, no quote is passed
  refine (hword.afterLiteral hrest rfl).passBlanks_eq fun name hname => ?_
  rw [List.findSome?_eq_none_iff]
  intro n hn
  rw [List.mem_reverse, List.mem_range] at hn
  rw [← List.take_append_drop (n + 1) name] at hname
  exact (hname.of_append fun c hc => isQuote_of_isAliasChar (of_mem_take hn hc)).gapSource?_eq

/-- `argument?` finds no specifier in parentheses. -/
theorem argument?_eq {text : List Char} (h : Closing text) : argument? text = none := by
  simp only [argument?, Option.bind_eq_bind, Option.bind_eq_none_iff]
  intro inside hinside found hfound
  -- blanks, a parenthesis and more blanks are passed, and none of them is a quote
  have hblank := h.dropWhile fun _ => isQuote_of_isBlank
  have hquoted := ((hblank.afterLiteral hinside rfl).dropWhile
    fun _ => isQuote_of_isBlank).quoted?_eq
  rw [hquoted] at hfound
  cases hfound

/-- `statementStart?` passes no quote on its way to a keyword. -/
theorem statementStart? {before : Option Char} {text keyword : List Char} (h : Closing text)
    (hstart : statementStart? before text = some keyword) : Closing keyword := by
  unfold Import.statementStart? at hstart
  split at hstart
  · cases hstart
    exact (h.tail rfl).dropWhile fun _ => isQuote_of_isBlank
  · split at hstart
    · cases hstart
      exact h.dropWhile fun _ => isQuote_of_isBlank
    · cases hstart

end Closing

/-- Where the text reads as if a re-export opened a list, it closes the list before the next
    quote. -/
def ListsClosed (text : List Char) : Prop :=
  ∀ opening rest, text = ';' :: opening ++ '{' :: rest → IsListOpening opening →
    Closing (rest.dropWhile (· != '}'))

/-! ## What recognisers have in common -/

/-- The characters between the words of a printed declaration, up to its opening quote. -/
def marks : List Char := [' ', ',', '*', '{', '}']

/-- The words that recognisers look for first. -/
def keywords : List (List Char) := [importWord, exportWord, requireWord]

/-- None of the keywords occurs in the text, not even inside a word. -/
def NoKeyword (text : List Char) : Prop := ∀ word ∈ keywords, ¬word <:+: text

/-- A recogniser that finds nothing at the places of a printed declaration behind the first one,
    nor where there is no keyword. -/
structure Keyed {α : Type} (r : Recogniser α) : Prop where
  head : ∀ {cs : List Char} {q before : Char} (rest : List Char), Over marks cs →
    isQuote q = true → before ≠ '\n' → r (some before) (cs ++ q :: rest) = none
  closing : ∀ {text : List Char} {before : Char}, Closing text → ListsClosed text →
    before ≠ '\n' → r (some before) text = none
  semicolon : ∀ (before : Option Char) (rest : List Char), r before (';' :: '\n' :: rest) = none
  lineEnd : ∀ {before : Char} (rest : List Char), before ≠ '\n' →
    r (some before) ('\n' :: rest) = none
  body : ∀ (before : Option Char) {text : List Char}, NoKeyword text → r before text = none

/-- `afterLiteral` finds no keyword in a text without keywords. -/
private theorem afterLiteral_of_noKeyword {word before text : List Char}
    (h : NoKeyword (before ++ text)) (hword : word ∈ keywords) : afterLiteral word text = none := by
  rw [Option.eq_none_iff_forall_not_mem]
  intro rest hrest
  refine h word hword ⟨before, rest, ?_⟩
  rw [List.append_assoc, ← afterLiteral_eq_some_iff.1 hrest]

/-- `statementStart?` starts a statement at the start of a line only, where there is no `;`. -/
theorem statementStart?_of_head {before : Option Char} {text : List Char}
    (h : text.head? ≠ some ';') :
    statementStart? before text =
      if before.all (· == '\n') then some (text.dropWhile isBlank) else none := by
  unfold statementStart?
  split
  · exact absurd rfl h
  · rfl

/-- `statementStart?` starts no statement inside a line without a `;`. -/
theorem statementStart?_of_ne {before : Char} (hbefore : before ≠ '\n') {text : List Char}
    (h : text.head? ≠ some ';') : statementStart? (some before) text = none := by
  rw [statementStart?_of_head h, if_neg (by simpa using hbefore)]

/-- `byteLength` of blanks is their number. -/
theorem byteLength_of_isBlank {cs : List Char} (h : ∀ c ∈ cs, isBlank c = true) :
    byteLength cs = cs.length := by
  induction cs with
  | nil => rfl
  | cons c cs ih =>
    -- a blank or a tab is one byte long
    have hc : c.utf8Size = 1 := by
      have hc := h c List.mem_cons_self
      simp only [isBlank, Bool.or_eq_true, beq_iff_eq] at hc
      rcases hc with rfl | rfl <;> rfl
    rw [byteLength_cons, hc, ih fun d hd => h d (List.mem_cons_of_mem c hd), List.length_cons,
      Nat.add_comm]

/-- What may stand before the keyword of a statement: a `;` or the start of a line, and blanks. -/
def LeadsStatement (before : Option Char) (lead : List Char) : Prop :=
  ∃ blanks, (∀ c ∈ blanks, isBlank c = true) ∧
    (lead = ';' :: blanks ∨ lead = blanks ∧ before.all (· == '\n') = true)

/-- `byteLength` of what leads a statement is the number of its characters. -/
theorem LeadsStatement.byteLength_eq {before : Option Char} {lead : List Char}
    (h : LeadsStatement before lead) : byteLength lead = lead.length := by
  obtain ⟨blanks, hblanks, rfl | ⟨rfl, -⟩⟩ := h
  · rw [byteLength_cons, byteLength_of_isBlank hblanks, List.length_cons, Nat.add_comm]
    rfl
  · exact byteLength_of_isBlank hblanks

/-- Inside a line, what leads a statement starts with a `;`. -/
theorem LeadsStatement.eq_cons {before : Char} {lead : List Char}
    (h : LeadsStatement (some before) lead) (hbefore : before ≠ '\n') :
    ∃ blanks, (∀ c ∈ blanks, isBlank c = true) ∧ lead = ';' :: blanks := by
  obtain ⟨blanks, hblanks, hlead | ⟨-, hline⟩⟩ := h
  · exact ⟨blanks, hblanks, hlead⟩
  · exact absurd (by simpa using hline) hbefore

/-- `statementStart?` passes what may lead a statement, and nothing else. -/
theorem exists_of_statementStart? {before : Option Char} {text keyword : List Char}
    (h : statementStart? before text = some keyword) :
    ∃ lead, text = lead ++ keyword ∧ LeadsStatement before lead := by
  -- behind a semicolon, or at the start of a line
  unfold statementStart? at h
  split at h
  · rename_i cs
    cases h
    exact ⟨';' :: cs.takeWhile isBlank, by simp, _, fun _ => List.mem_takeWhile_imp, .inl rfl⟩
  · split at h
    · rename_i hline
      cases h
      exact ⟨_, List.takeWhile_append_dropWhile.symm, _, fun _ => List.mem_takeWhile_imp,
        .inr ⟨rfl, hline⟩⟩
    · cases h

/-- A printed text starts with one of its characters, or with the quote behind it, so `head?` gives
    no other character. -/
private theorem head?_append_quote {cs rest : List Char} {q d : Char} (hcs : Over marks cs)
    (hq : isQuote q = true) (hd : isNamePart d = false) (hmark : d ∉ marks)
    (hquote : isQuote d = false) : (cs ++ q :: rest).head? ≠ some d := by
  cases cs with
  | nil =>
    rintro ⟨⟩
    rw [hq] at hquote
    cases hquote
  | cons c cs =>
    intro h
    exact hcs.ne hd hmark c List.mem_cons_self (Option.some.inj h)

/-- The recogniser of a statement: a keyword where a statement may start, and what is read behind
    it. -/
def statement? {α β : Type} (word : List Char) (next : List Char → Option β)
    (make : List Char → List Char → β → Find α) : Recogniser α := fun before text =>
  (statementStart? before text).bind fun keyword =>
    (afterLiteral word keyword).bind fun body => (next body).map (make text keyword)

/-- `static?` recognises a statement with the word `import` and a clause. -/
theorem static?_eq : static? = statement? importWord (passBlanks · typedClause?)
    fun text keyword found => findBetween text keyword found.2 found := by
  funext before text
  simp only [statement?, Option.map_eq_bind]
  rfl

/-- `sideEffect?` recognises a statement with the word `import` and a specifier. -/
theorem sideEffect?_eq :
    sideEffect? = statement? importWord (fun body => quoted? (body.dropWhile isBlank))
      fun text keyword found => findBetween text keyword found.2 found.1 := by
  funext before text
  simp only [statement?, Option.map_eq_bind]
  rfl

/-- `reExport?` recognises a statement with the word `export` and what is exported from elsewhere.
    -/
theorem reExport?_eq :
    reExport? = statement? exportWord
      (passBlanks · fun listed =>
        ((afterLiteral typeWord listed).bind fun rest => passBlanks rest exported?).or
          (exported? listed))
      fun text keyword found => findBetween text keyword found.2 found.1 := by
  funext before text
  simp only [statement?, Option.map_eq_bind]
  rfl

section

variable {α β : Type} {word : List Char} {next : List Char → Option β}
  {make : List Char → List Char → β → Find α}

/-- `statement?` finds nothing if nothing is found behind any keyword. -/
theorem statement?_eq_none {before : Option Char} {text : List Char}
    (h : ∀ keyword body, statementStart? before text = some keyword →
      afterLiteral word keyword = some body → next body = none) :
    statement? word next make before text = none := by
  rw [statement?, Option.bind_eq_none_iff]
  -- first the place where a statement may start, then the keyword there
  intro keyword hkeyword
  rw [Option.bind_eq_none_iff]
  intro body hbody
  rw [h keyword body hkeyword hbody]
  rfl

/-- A `statement?` finds nothing at the places in question, if none of its keywords is followed by
    what it looks for in front of a closing quote. -/
theorem keyed_statement? (hword : word = importWord ∨ word = exportWord)
    (hclosing : ∀ {text keyword body : List Char} {before : Char}, Closing text →
      ListsClosed text → before ≠ '\n' → statementStart? (some before) text = some keyword →
        afterLiteral word keyword = some body → next body = none) :
    Keyed (statement? word next make) where
  head rest hcs hq hbefore := by
    -- inside a line, no statement starts in front of the opening quote
    refine statement?_eq_none fun keyword body hkeyword _ => ?_
    rw [statementStart?_of_ne hbefore (head?_append_quote hcs hq rfl (by decide) rfl)] at hkeyword
    cases hkeyword
  closing h hlists hbefore :=
    statement?_eq_none fun _ _ hkeyword hbody => hclosing h hlists hbefore hkeyword hbody
  semicolon before rest := by
    refine statement?_eq_none fun keyword body hkeyword hbody => ?_
    cases hkeyword
    -- a line end is no keyword
    rcases hword with rfl | rfl <;> cases hbody
  lineEnd rest hbefore := by
    refine statement?_eq_none fun keyword body hkeyword _ => ?_
    rw [statementStart?_of_ne hbefore (by simp)] at hkeyword
    cases hkeyword
  body before text h := by
    refine statement?_eq_none fun keyword body hkeyword hbody => ?_
    obtain ⟨lead, rfl, -⟩ := exists_of_statementStart? hkeyword
    rw [afterLiteral_of_noKeyword h (by rcases hword with rfl | rfl <;> simp [keywords])] at hbody
    cases hbody

end

/-- `static?` finds nothing at the places in question. -/
theorem keyed_static? : Keyed static? := by
  rw [static?_eq]
  refine keyed_statement? (.inl rfl) fun h _ _ hkeyword hbody => ?_
  -- what is behind the keyword is still in front of the closing quote
  have hbody := (h.statementStart? hkeyword).afterLiteral hbody rfl
  exact hbody.passBlanks_eq fun _ hrest => hrest.typedClause?_eq

/-- `sideEffect?` finds nothing at the places in question. -/
theorem keyed_sideEffect? : Keyed sideEffect? := by
  rw [sideEffect?_eq]
  refine keyed_statement? (.inl rfl) fun h _ _ hkeyword hbody => ?_
  have hbody := (h.statementStart? hkeyword).afterLiteral hbody rfl
  exact (hbody.dropWhile fun _ => isQuote_of_isBlank).quoted?_eq

/-- `exported?` finds nothing where the next quote closes a specifier, if lists are closed before
    it. -/
private theorem exported?_of_closing {text opening listed : List Char} (h : Closing listed)
    (hlists : ListsClosed text) (hopening : IsListOpening opening)
    (htext : text = ';' :: opening ++ listed) : exported? listed = none := by
  unfold exported?
  -- all names, a list of them, or neither
  split
  · rename_i cs
    have hcs : Closing cs := h.tail rfl
    rw [hcs.aliasSource?_eq, hcs.gapSource?_eq]
    rfl
  · rename_i cs
    have hclosed := hlists opening cs htext hopening
    split
    · rename_i c rest heq
      -- the brace that ends the list stands before the next quote
      have hc : c = '}' := by
        have := List.head?_dropWhile_not (· != '}') cs
        rw [heq] at this
        simpa using this
      rw [heq, hc] at hclosed
      exact (hclosed.tail rfl).gapSource?_eq
    · rfl
  · rfl

/-- `reExport?` finds nothing at the places in question, by the condition on lists. -/
theorem keyed_reExport? : Keyed reExport? := by
  rw [reExport?_eq]
  refine keyed_statement? (.inr rfl) fun h hlists hbefore hkeyword hbody => ?_
  have hclosing := (h.statementStart? hkeyword).afterLiteral hbody rfl
  obtain ⟨_, htext, hleads⟩ := exists_of_statementStart? hkeyword
  obtain ⟨lead, hlead, rfl⟩ := hleads.eq_cons hbefore
  -- suppose that something is found, behind whatever blanks
  rw [Option.eq_none_iff_forall_not_mem]
  intro found hfound
  obtain ⟨gap, listed, hgap, rfl, hlisted⟩ := passBlanks_eq_some hfound
  have hclosing := hclosing.of_append fun c hc => isQuote_of_isBlank (hgap.blank c hc)
  rw [afterLiteral_eq_some_iff.1 hbody] at htext
  -- `type` is a keyword here or the start of something that is not a list
  rcases Option.or_eq_some_iff.1 hlisted with htyped | ⟨-, hplain⟩
  · obtain ⟨rest, hrest, hpass⟩ := Option.bind_eq_some_iff.1 htyped
    obtain ⟨gap', listed', hgap', rfl, hlisted'⟩ := passBlanks_eq_some hpass
    have hclosing := (hclosing.afterLiteral hrest rfl).of_append
      fun c hc => isQuote_of_isBlank (hgap'.blank c hc)
    rw [afterLiteral_eq_some_iff.1 hrest] at htext
    rw [exported?_of_closing hclosing hlists ⟨lead, gap, hlead, hgap, .inr ⟨gap', hgap', rfl⟩⟩
      (by simpa using htext)] at hlisted'
    cases hlisted'
  · rw [exported?_of_closing hclosing hlists ⟨lead, gap, hlead, hgap, .inl rfl⟩
      (by simpa using htext)] at hplain
    cases hplain

/-- The front of a text ends before a character that it does not hold. -/
theorem exists_of_append_cons_eq {front cs rest body : List Char} {c : Char} (hc : c ∉ front)
    (h : cs ++ c :: rest = front ++ body) : ∃ cs', cs = front ++ cs' ∧ body = cs' ++ c :: rest := by
  rcases List.append_eq_append_iff.1 h with ⟨zs, hzs, htail⟩ | ⟨cs', rfl, rfl⟩
  · cases zs with
    | nil => exact ⟨[], by simpa using hzs.symm, by simpa using htail.symm⟩
    | cons z zs =>
      cases htail
      exact absurd (hzs ▸ by simp) hc
  · exact ⟨cs', rfl, rfl⟩

/-- `afterLiteral` finds a word before a character that the word does not hold. -/
theorem exists_of_afterLiteral_append_cons {word cs rest body : List Char} {c : Char}
    (hc : c ∉ word) (h : afterLiteral word (cs ++ c :: rest) = some body) :
    ∃ cs', cs = word ++ cs' ∧ body = cs' ++ c :: rest :=
  exists_of_append_cons_eq hc (afterLiteral_eq_some_iff.1 h)

/-- `dropWhile` stops at a quote, if the characters that it passes are none. -/
theorem dropWhile_append_quote {p : Char → Bool} (hp : ∀ c, p c = true → isQuote c = false)
    {q : Char} (hq : isQuote q = true) {cs rest : List Char} :
    (cs ++ q :: rest).dropWhile p = cs.dropWhile p ++ q :: rest := by
  have hnot : ¬p q = true := by
    intro h
    rw [hp q h] at hq
    cases hq
  rw [List.dropWhile_append, List.dropWhile_cons_of_neg hnot]
  split
  · rename_i hempty
    rw [List.isEmpty_iff.1 hempty, List.nil_append]
  · rfl

/-- `argument?` finds nothing in front of an opening quote without a parenthesis. -/
private theorem argument?_append_quote {cs rest : List Char} {q : Char} (hcs : Over marks cs)
    (hq : isQuote q = true) : argument? (cs ++ q :: rest) = none := by
  have hdrop : Over marks (cs.dropWhile isBlank) := fun c hc =>
    hcs c ((List.dropWhile_suffix isBlank).mem hc)
  have hhead : (cs.dropWhile isBlank ++ q :: rest).head? ≠ some '(' :=
    head?_append_quote hdrop hq rfl (by decide) rfl
  -- what is left of the text would have to start with the parenthesis
  have hparen : afterLiteral ['('] (cs.dropWhile isBlank ++ q :: rest) = none := by
    rw [Option.eq_none_iff_forall_not_mem]
    intro inside hinside
    rw [afterLiteral_eq_some_iff.1 hinside] at hhead
    exact hhead rfl
  rw [argument?, dropWhile_append_quote (fun _ => isQuote_of_isBlank) hq, hparen]
  rfl

/-- `call?` finds a word only where an argument follows it. -/
theorem call?_eq_none {word text : List Char} {before : Option Char}
    (h : ∀ body, afterLiteral word text = some body → argument? body = none) :
    call? word before text = none := by
  unfold call?
  rw [Option.bind_eq_bind, Option.bind_eq_none_iff]
  intro _ _
  rw [Option.bind_eq_bind, Option.bind_eq_none_iff]
  intro body hbody
  rw [h body hbody]
  rfl

/-- `call?` finds no word where the next quote has no parenthesis in front of it. -/
theorem call?_append_quote {word : List Char} (hplain : word.any isQuote = false)
    (before : Option Char) {cs rest : List Char} {q : Char} (hcs : Over marks cs)
    (hq : isQuote q = true) : call? word before (cs ++ q :: rest) = none := by
  refine call?_eq_none fun body hbody => ?_
  have hmem : q ∉ word := by
    intro hmem
    exact List.any_eq_false.1 hplain q hmem hq
  -- the word ends before the quote
  obtain ⟨cs', rfl, rfl⟩ := exists_of_afterLiteral_append_cons hmem hbody
  exact argument?_append_quote (Over.append_iff.1 hcs).2 hq

/-- `call?` finds nothing at the places in question. -/
theorem keyed_call? {word : List Char} (hword : word = importWord ∨ word = requireWord)
    (hplain : word.any isQuote = false) : Keyed (call? word) where
  head rest hcs hq _ := call?_append_quote hplain _ hcs hq
  closing h _ _ := call?_eq_none fun _ hbody => (h.afterLiteral hbody hplain).argument?_eq
  semicolon before rest := by
    refine call?_eq_none fun body hbody => ?_
    rcases hword with rfl | rfl <;> cases hbody
  lineEnd rest _ := by
    refine call?_eq_none fun body hbody => ?_
    rcases hword with rfl | rfl <;> cases hbody
  body before text h := by
    -- the word does not stand at this place, whatever is before it
    refine call?_eq_none fun body hbody => ?_
    rw [afterLiteral_of_noKeyword (show NoKeyword ([] ++ text) from h)
      (by rcases hword with rfl | rfl <;> simp [keywords])] at hbody
    cases hbody

/-- `require?` finds nothing at the places in question. -/
theorem keyed_require? : Keyed require? := keyed_call? (.inr rfl) rfl

/-- `dynamic?` finds nothing at the places in question. -/
theorem keyed_dynamic? : Keyed dynamic? := keyed_call? (.inl rfl) rfl

end Deadwood.Import
