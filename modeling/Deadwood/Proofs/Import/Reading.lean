import Deadwood.Proofs.Import.Recognise

/-!
# What is read behind a keyword

Whatever a form of reference looks like, behind its keyword there is a specifier in quotes, and what
is left unread comes behind the closing quote (`quotes_of_read`). `Form.read` is the part of a
recogniser that comes behind the keyword; `Takes` says how the recogniser is put together from it.

Three forms share the keyword `import`. What stands between the keyword and the first quote tells
them apart: the end of a `from`, a parenthesis, or blanks only (`form_eq_of_read`).
-/

namespace Deadwood.Import

open Text

/-! ## Readers -/

/-- The specifier stands in quotes in the text, and `rest` is what follows the closing quote. -/
def Quotes (specifier rest text : List Char) : Prop :=
  ∃ front q q', text = front ++ q :: (specifier ++ q' :: rest) ∧ isQuote q = true ∧
    isQuote q' = true ∧ ∃ s : Specifier, s.chars = specifier

/-- A text `Quotes` what its end does. -/
theorem Quotes.of_suffix {specifier rest text longer : List Char}
    (h : Quotes specifier rest text) (hsuffix : text <:+ longer) :
    Quotes specifier rest longer := by
  obtain ⟨front, q, q', rfl, h⟩ := h
  obtain ⟨more, rfl⟩ := hsuffix
  exact ⟨more ++ front, q, q', (List.append_assoc _ _ _).symm, h⟩

/-- What is behind a quoted specifier is an end of the text. -/
theorem Quotes.suffix {specifier rest text : List Char} (h : Quotes specifier rest text) :
    rest <:+ text := by
  obtain ⟨front, q, q', rfl, -⟩ := h
  exact ⟨front ++ q :: specifier ++ [q'], by simp⟩

/-- `afterLiteral` leaves an end of the text. -/
theorem afterLiteral_suffix {word text rest : List Char} (h : afterLiteral word text = some rest) :
    rest <:+ text :=
  ⟨word, (afterLiteral_eq_some_iff.1 h).symm⟩

/-- `passBlanks` goes on at a later place of the text. -/
theorem exists_suffix_of_passBlanks {β : Type} {text : List Char} {next : List Char → Option β}
    {found : β} (h : passBlanks text next = some found) :
    ∃ rest, rest <:+ text ∧ next rest = some found := by
  obtain ⟨gap, rest, -, rfl, hrest⟩ := passBlanks_eq_some h
  exact ⟨rest, List.suffix_append gap rest, hrest⟩

/-- `type` is read as a keyword or not. In both cases the reader goes on at a later place of the
    text. -/
theorem exists_suffix_of_typed {β : Type} {text : List Char} {keyword name : List Char → Option β}
    {found : β}
    (h : ((afterLiteral typeWord text).bind fun rest => passBlanks rest keyword).or (name text) =
      some found) :
    ∃ rest, rest <:+ text ∧ (keyword rest = some found ∨ name rest = some found) := by
  rcases Option.or_eq_some_iff.1 h with htype | ⟨-, hname⟩
  · obtain ⟨rest, hrest, hpass⟩ := Option.bind_eq_some_iff.1 htype
    obtain ⟨later, hlater, hkeyword⟩ := exists_suffix_of_passBlanks hpass
    exact ⟨later, hlater.trans (afterLiteral_suffix hrest), .inl hkeyword⟩
  · exact ⟨text, List.suffix_refl text, .inr hname⟩

section

variable {text : List Char} {found : List Char × List Char}

/-- `quoted?` reads a specifier in quotes, at the start of the text. -/
theorem quotes_of_quoted? (h : quoted? text = some found) : Quotes found.1 found.2 text := by
  unfold quoted? at h
  split at h
  · cases h
  · rename_i q cs
    split at h
    · rename_i s specifier q' rest hq htake hdrop
      split at h
      · rename_i hq'
        cases h
        -- the two parts that `quoted?` looks at make up the text
        have hcs : cs = s :: specifier ++ q' :: rest := by
          rw [← htake, ← hdrop, List.takeWhile_append_dropWhile]
        have hplain : ∀ c ∈ s :: specifier, isSpecifierChar c = true := by
          rw [← htake]
          exact fun c hc => List.mem_takeWhile_imp hc
        exact ⟨[], q, q', congrArg (q :: ·) hcs, hq, hq', ⟨_, List.cons_ne_nil s _, hplain⟩, rfl⟩
      · cases h
    · cases h

/-- `quoted?` wants a quote at the start. -/
theorem eq_cons_of_quoted? (h : quoted? text = some found) :
    ∃ q rest, text = q :: rest ∧ isQuote q = true := by
  unfold quoted? at h
  split at h
  · cases h
  · split at h
    · exact ⟨_, _, rfl, ‹_›⟩
    · cases h

/-- `source?` reads a specifier in quotes. -/
theorem quotes_of_source? (h : source? text = some found) : Quotes found.1 found.2 text := by
  obtain ⟨rest, hrest, hquoted⟩ := Option.bind_eq_some_iff.1 h
  exact (quotes_of_quoted? hquoted).of_suffix
    ((List.dropWhile_suffix _).trans (afterLiteral_suffix hrest))

/-- `gapSource?` reads a specifier in quotes. -/
theorem quotes_of_gapSource? (h : gapSource? text = some found) : Quotes found.1 found.2 text :=
  (quotes_of_source? h).of_suffix (List.dropWhile_suffix _)

/-- `aliasSource?` reads a specifier in quotes, whichever length of a name it settles on. -/
theorem quotes_of_aliasSource? (h : aliasSource? text = some found) :
    Quotes found.1 found.2 text := by
  obtain ⟨word, hword, hname⟩ := exists_suffix_of_passBlanks h
  obtain ⟨rest, hrest, hpass⟩ := Option.bind_eq_some_iff.1 hname
  obtain ⟨name, hname, hfound⟩ := exists_suffix_of_passBlanks hpass
  obtain ⟨n, -, hsource⟩ := List.exists_of_findSome?_eq_some hfound
  exact (quotes_of_gapSource? hsource).of_suffix
    ((((List.drop_suffix _ _).trans hname).trans (afterLiteral_suffix hrest)).trans hword)

/-- `exported?` reads a specifier in quotes, behind a star or behind a list. -/
theorem quotes_of_exported? (h : exported? text = some found) : Quotes found.1 found.2 text := by
  unfold exported? at h
  split at h
  · refine Quotes.of_suffix ?_ (List.suffix_cons _ _)
    rcases Option.or_eq_some_iff.1 h with halias | ⟨-, hsource⟩
    · exact quotes_of_aliasSource? halias
    · exact quotes_of_gapSource? hsource
  · refine Quotes.of_suffix ?_ (List.suffix_cons _ _)
    -- the source stands behind the brace that ends the list
    split at h
    · rename_i c rest hdrop
      exact (quotes_of_gapSource? h).of_suffix
        ((List.suffix_cons c rest).trans (hdrop ▸ List.dropWhile_suffix _))
    · cases h
  · cases h

/-- `argument?` reads a specifier in quotes. What it leaves comes later, behind blanks and a
    parenthesis. -/
theorem quotes_of_argument? (h : argument? text = some found) :
    ∃ rest, Quotes found.1 rest text ∧ found.2 <:+ rest := by
  obtain ⟨inside, hinside, h⟩ := Option.bind_eq_some_iff.1 h
  obtain ⟨⟨specifier, rest⟩, hquoted, h⟩ := Option.bind_eq_some_iff.1 h
  obtain ⟨behind, hbehind, h⟩ := Option.bind_eq_some_iff.1 h
  cases h
  have hopened := (afterLiteral_suffix hinside).trans (List.dropWhile_suffix _)
  exact ⟨rest, (quotes_of_quoted? hquoted).of_suffix ((List.dropWhile_suffix _).trans hopened),
    (afterLiteral_suffix hbehind).trans (List.dropWhile_suffix _)⟩

end

/-- `clause?` reads a specifier in quotes. -/
theorem quotes_of_clause? {text : List Char} {found : List Char × List Char × List Char}
    (h : clause? text = some found) : Quotes found.2.1 found.2.2 text := by
  -- either the source follows the first character, or it is read from the rest of the text
  induction text generalizing found with
  | nil => cases h
  | cons c cs ih =>
    refine Quotes.of_suffix ?_ (List.suffix_cons c cs)
    unfold clause? at h
    split at h
    · cases h
    · split at h
      · -- the source follows right behind `c`
        rename_i hsource
        cases h
        unfold sourceAfter? at hsource
        split at hsource
        · exact quotes_of_gapSource? hsource
        · cases hsource
      · obtain ⟨found, hfound, rfl⟩ := Option.map_eq_some_iff.1 h
        have hquotes := ih hfound
        exact hquotes

/-- `typedClause?` reads a specifier in quotes, and what it leaves follows the closing quote at
    once. -/
theorem quotes_of_typedClause? {text : List Char} {found : StaticImport × List Char}
    (h : passBlanks text typedClause? = some found) :
    Quotes found.1.specifier found.2 text := by
  have hclause : ∀ {typeOnly rest}, clauseOf typeOnly rest = some found →
      Quotes found.1.specifier found.2 rest := by
    intro typeOnly rest h
    obtain ⟨clause, hclause, rfl⟩ := Option.map_eq_some_iff.1 h
    exact quotes_of_clause? hclause
  obtain ⟨rest, hrest, htyped⟩ := exists_suffix_of_passBlanks h
  obtain ⟨later, hlater, hfound | hfound⟩ := exists_suffix_of_typed htyped
  · exact (hclause hfound).of_suffix (hlater.trans hrest)
  · exact (hclause hfound).of_suffix (hlater.trans hrest)

/-! ## Forms -/

namespace Form

/-- The word at the offset of a reference. -/
def keyword : Form → List Char
  | static | sideEffect | dynamic => importWord
  | reExport => exportWord
  | require => requireWord

/-- Is the reference a statement of its own? -/
def isStatement : Form → Bool
  | static | sideEffect | reExport => true
  | require | dynamic => false

/-- What is read behind the keyword: the specifier, and the text that is left. -/
def read : Form → List Char → Option (List Char × List Char)
  | static, body => (passBlanks body typedClause?).map fun found => (found.1.specifier, found.2)
  | sideEffect, body => quoted? (body.dropWhile isBlank)
  | reExport, body => passBlanks body fun listed =>
      ((afterLiteral typeWord listed).bind fun rest => passBlanks rest exported?).or
        (exported? listed)
  | require, body | dynamic, body => argument? body

end Form

/-- `Form.read` of an import that binds names leaves what follows the closing quote. -/
theorem quotes_of_read_static {body specifier rest : List Char}
    (h : Form.static.read body = some (specifier, rest)) : Quotes specifier rest body := by
  obtain ⟨found, hfound, heq⟩ := Option.map_eq_some_iff.1 h
  cases heq
  exact quotes_of_typedClause? hfound

/-- `Form.read` reads a specifier in quotes, and what it leaves comes behind it. -/
theorem quotes_of_read {form : Form} {body : List Char} {found : List Char × List Char}
    (h : form.read body = some found) : ∃ rest, Quotes found.1 rest body ∧ found.2 <:+ rest := by
  cases form with
  | static => exact ⟨_, quotes_of_read_static h, List.suffix_refl _⟩
  | sideEffect =>
    exact ⟨_, (quotes_of_quoted? h).of_suffix (List.dropWhile_suffix _), List.suffix_refl _⟩
  | reExport =>
    rw [Form.read] at h
    obtain ⟨listed, hlisted, htyped⟩ := exists_suffix_of_passBlanks h
    -- a list or a star, with the word for types before it or without
    obtain ⟨later, hlater, hfound | hfound⟩ := exists_suffix_of_typed htyped
    · exact ⟨_, (quotes_of_exported? hfound).of_suffix (hlater.trans hlisted),
        List.suffix_refl _⟩
    · exact ⟨_, (quotes_of_exported? hfound).of_suffix (hlater.trans hlisted),
        List.suffix_refl _⟩
  | require => exact quotes_of_argument? h
  | dynamic => exact quotes_of_argument? h

/-! ## Forms that share a keyword -/

section

variable {q : Char} (hq : isQuote q = true) {cs : List Char} (rest : List Char)

include hq

/-- `sourceAfter?` reads no source if the first quote has no `from` in front of it. -/
private theorem sourceAfter?_append_quote (c : Char) (hcs : 'm' ∉ cs) :
    sourceAfter? c (cs ++ q :: rest) = none := by
  unfold sourceAfter?
  split
  · rw [dropWhile_append_quote (fun _ => isQuote_of_isGap) hq, source?, Option.bind_eq_none_iff]
    intro body hbody
    -- the `from` would stand in front of the quote, with its `m`
    have hmem : q ∉ fromWord := by
      rcases eq_of_isQuote hq with rfl | rfl <;> decide
    obtain ⟨cs', hdrop, -⟩ := exists_of_afterLiteral_append_cons hmem hbody
    exact absurd ((List.dropWhile_suffix isGap).mem (hdrop ▸ by simp [fromWord])) hcs
  · rfl

/-- `clause?` finds no source either, at any length of the clause. -/
private theorem clause?_append_quote (hcs : 'm' ∉ cs) : clause? (cs ++ q :: rest) = none := by
  induction cs with
  | nil => simp [clause?, hq]
  | cons c cs ih =>
    have hcs' : 'm' ∉ cs := fun h => hcs (List.mem_cons_of_mem c h)
    rw [List.cons_append, clause?, sourceAfter?_append_quote hq rest c hcs', ih hcs']
    split <;> rfl

/-- `Form.read` of an import that binds names reads up to a `from`, so it does not come to a quote
    that has no `m` in front of it. -/
theorem read_static_append_quote (hcs : 'm' ∉ cs) : Form.static.read (cs ++ q :: rest) = none := by
  have hmem {front : List Char} (h : ∀ c ∈ front, isQuote c = false) : q ∉ front := fun hmem => by
    rw [h q hmem] at hq
    cases hq
  -- blanks and `type` are no quotes, so they stand in front of this one
  have hpass {cs : List Char} (hcs : 'm' ∉ cs)
      {next : List Char → Option (StaticImport × List Char)}
      (hnext : ∀ cs', 'm' ∉ cs' → next (cs' ++ q :: rest) = none) :
      passBlanks (cs ++ q :: rest) next = none := by
    rw [Option.eq_none_iff_forall_not_mem]
    intro found hfound
    obtain ⟨gap, later, hgap, heq, hlater⟩ := passBlanks_eq_some hfound
    obtain ⟨cs', rfl, rfl⟩ :=
      exists_of_append_cons_eq (hmem fun c hc => isQuote_of_isBlank (hgap.blank c hc)) heq
    rw [hnext cs' fun h => hcs (List.mem_append_right gap h)] at hlater
    cases hlater
  have hclause (typeOnly : Bool) (cs : List Char) (hcs : 'm' ∉ cs) :
      clauseOf typeOnly (cs ++ q :: rest) = none := by
    rw [clauseOf, clause?_append_quote hq rest hcs]
    rfl
  rw [Form.read, hpass hcs fun cs' hcs' => ?_]
  · rfl
  · rw [typedClause?, hclause false cs' hcs', Option.or_none, Option.bind_eq_none_iff]
    intro body hbody
    obtain ⟨cs'', rfl, rfl⟩ := exists_of_afterLiteral_append_cons
      (hmem (List.all_iff_forall_prop.1 rfl)) hbody
    exact hpass (fun h => hcs' (List.mem_append_right _ h)) (hclause true)

end

/-- There is no `m` among blanks. -/
private theorem not_mem_takeWhile_isBlank (text : List Char) : 'm' ∉ text.takeWhile isBlank := by
  intro hmem
  cases List.mem_takeWhile_imp hmem

/-- `Form.read`: where a specifier follows `import` at once, no clause does. -/
theorem read_static_of_sideEffect {body : List Char} {found : List Char × List Char}
    (h : Form.sideEffect.read body = some found) : Form.static.read body = none := by
  obtain ⟨q, rest, hrest, hq⟩ := eq_cons_of_quoted? h
  rw [← List.takeWhile_append_dropWhile (p := isBlank) (l := body), hrest]
  exact read_static_append_quote hq rest (not_mem_takeWhile_isBlank body)

/-- `Form.read`: where a parenthesis follows `import`, neither a clause nor a specifier does. -/
theorem read_of_dynamic {body : List Char} {found : List Char × List Char}
    (h : Form.dynamic.read body = some found) :
    Form.static.read body = none ∧ Form.sideEffect.read body = none := by
  obtain ⟨inside, hinside, hargument⟩ := Option.bind_eq_some_iff.1 h
  obtain ⟨specifier, hspecifier, -⟩ := Option.bind_eq_some_iff.1 hargument
  obtain ⟨q, rest, hrest, hq⟩ := eq_cons_of_quoted? hspecifier
  rw [afterLiteral_eq_some_iff] at hinside
  constructor
  · -- only blanks and the parenthesis are in front of the first quote
    have hbody :
        body = (body.takeWhile isBlank ++ '(' :: inside.takeWhile isBlank) ++ q :: rest := by
      rw [← hrest, List.append_assoc, List.cons_append, List.takeWhile_append_dropWhile,
        ← List.singleton_append, ← hinside, List.takeWhile_append_dropWhile]
    rw [hbody]
    refine read_static_append_quote hq rest fun hmem => ?_
    rcases List.mem_append.1 hmem with hmem | hmem
    · exact not_mem_takeWhile_isBlank body hmem
    · exact not_mem_takeWhile_isBlank inside (List.mem_of_ne_of_mem (by decide) hmem)
  · rw [Form.read, hinside]
    rfl

/-- `Form.read` succeeds for one form at most among those with the same keyword. -/
theorem form_eq_of_read {form form' : Form} (hkeyword : form.keyword = form'.keyword)
    {body : List Char} {found found' : List Char × List Char} (h : form.read body = some found)
    (h' : form'.read body = some found') : form = form' := by
  have hnone {form : Form} {found} (hnone : form.read body = none)
      (hsome : form.read body = some found) : False := by
    rw [hnone] at hsome
    cases hsome
  -- the keyword leaves only the three forms with `import` to be told apart
  cases form with
  | static =>
    cases form' with
    | static => rfl
    | sideEffect => exact (hnone (read_static_of_sideEffect h') h).elim
    | dynamic => exact (hnone (read_of_dynamic h').1 h).elim
    | reExport | require => exact absurd hkeyword (by decide)
  | sideEffect =>
    cases form' with
    | static => exact (hnone (read_static_of_sideEffect h) h').elim
    | sideEffect => rfl
    | dynamic => exact (hnone (read_of_dynamic h').2 h).elim
    | reExport | require => exact absurd hkeyword (by decide)
  | dynamic =>
    cases form' with
    | static => exact (hnone (read_of_dynamic h).1 h').elim
    | sideEffect => exact (hnone (read_of_dynamic h).2 h').elim
    | dynamic => rfl
    | reExport | require => exact absurd hkeyword (by decide)
  | reExport =>
    cases form' with
    | reExport => rfl
    | static | sideEffect | require | dynamic => exact absurd hkeyword (by decide)
  | require =>
    cases form' with
    | require => rfl
    | static | sideEffect | reExport | dynamic => exact absurd hkeyword (by decide)

/-! ## Finds -/

/-- The find is the form's keyword, where that may stand, and what is read behind it. -/
def Takes {α : Type} (form : Form) (before : Option Char) (text specifier rest : List Char)
    (f : Find α) : Prop :=
  ∃ lead body, text = lead ++ (form.keyword ++ body) ∧
    (form.isStatement = true → LeadsStatement before lead) ∧
    form.read body = some (specifier, rest) ∧
    f.lead = byteLength lead ∧ f.size + rest.length = text.length

section

variable {α : Type} (form : Form) {before : Option Char} {text : List Char}

/-- A `findBetween` the start of the text and what `Form.read` leaves is `Takes`. -/
theorem takes_findBetween {lead body specifier rest : List Char} {value : α}
    (hlead : form.isStatement = true → LeadsStatement before lead)
    (hbytes : byteLength lead = lead.length)
    (hread : form.read body = some (specifier, rest)) :
    Takes form before (lead ++ (form.keyword ++ body)) specifier rest
      (findBetween (lead ++ (form.keyword ++ body)) (form.keyword ++ body) rest value) := by
  obtain ⟨behind, hquotes, hrest⟩ := quotes_of_read hread
  have hle := (hrest.trans hquotes.suffix).length_le
  refine ⟨lead, body, rfl, hlead, hread, ?_, ?_⟩
  · simp [findBetween, hbytes]
  · simp only [findBetween, List.length_append] at hle ⊢
    omega

/-- `statement?` is `Takes`, if what it reads behind the keyword is what `Form.read` reads. -/
theorem takes_statement? {β : Type} {next : List Char → Option β} {value : β → α}
    {specifier rest : β → List Char}
    (hnext : ∀ {body found}, next body = some found →
      form.read body = some (specifier found, rest found)) {f : Find α}
    (h : statement? form.keyword next
      (fun text keyword found => findBetween text keyword (rest found) (value found))
      before text = some f) :
    ∃ found, f.value = value found ∧ Takes form before text (specifier found) (rest found) f := by
  -- what is at the place, and then what the form reads behind its keyword
  obtain ⟨keyword, hkeyword, hbody⟩ := Option.bind_eq_some_iff.1 h
  obtain ⟨body, hword, hmap⟩ := Option.bind_eq_some_iff.1 hbody
  obtain ⟨found, hfound, rfl⟩ := Option.map_eq_some_iff.1 hmap
  obtain ⟨lead, rfl, hlead⟩ := exists_of_statementStart? hkeyword
  rw [afterLiteral_eq_some_iff] at hword
  subst hword
  exact ⟨found, rfl, takes_findBetween form (fun _ => hlead) hlead.byteLength_eq (hnext hfound)⟩

/-- `static?` is `Takes`. -/
theorem takes_static? {f : Find (StaticImport × List Char)} (h : static? before text = some f) :
    Takes .static before text f.value.1.specifier f.value.2 f := by
  rw [static?_eq] at h
  obtain ⟨found, hvalue, htakes⟩ := takes_statement? .static (fun {body found} hfound => by
    rw [Form.read, hfound, Option.map_some]) h
  rw [hvalue]
  exact htakes

variable {f : Find (List Char)}

/-- `sideEffect?` is `Takes`. -/
theorem takes_sideEffect? (h : sideEffect? before text = some f) :
    ∃ rest, Takes .sideEffect before text f.value rest f := by
  rw [sideEffect?_eq] at h
  obtain ⟨found, hvalue, htakes⟩ := takes_statement? .sideEffect id h
  exact ⟨found.2, hvalue ▸ htakes⟩

/-- `reExport?` is `Takes`. -/
theorem takes_reExport? (h : reExport? before text = some f) :
    ∃ rest, Takes .reExport before text f.value rest f := by
  rw [reExport?_eq] at h
  obtain ⟨found, hvalue, htakes⟩ := takes_statement? .reExport id h
  exact ⟨found.2, hvalue ▸ htakes⟩

/-- `call?` is `Takes`, with nothing in front of the keyword. -/
private theorem takes_call? (hform : form.isStatement = false)
    (hread : ∀ body, form.read body = argument? body)
    (h : call? form.keyword before text = some f) :
    ∃ rest, Takes form before text f.value rest f := by
  obtain ⟨-, -, hcall⟩ := Option.bind_eq_some_iff.1 h
  obtain ⟨body, hword, hargument⟩ := Option.bind_eq_some_iff.1 hcall
  obtain ⟨⟨specifier, rest⟩, hfound, hfind⟩ := Option.bind_eq_some_iff.1 hargument
  cases hfind
  rw [afterLiteral_eq_some_iff] at hword
  subst hword
  exact ⟨rest, @takes_findBetween _ form _ [] _ _ _ _ (by simp [hform]) rfl
    ((hread body).trans hfound)⟩

/-- `require?` is `Takes`. -/
theorem takes_require? (h : require? before text = some f) :
    ∃ rest, Takes .require before text f.value rest f :=
  takes_call? .require rfl (fun _ => rfl) h

/-- `dynamic?` is `Takes`. -/
theorem takes_dynamic? (h : dynamic? before text = some f) :
    ∃ rest, Takes .dynamic before text f.value rest f :=
  takes_call? .dynamic rfl (fun _ => rfl) h

end

end Deadwood.Import
