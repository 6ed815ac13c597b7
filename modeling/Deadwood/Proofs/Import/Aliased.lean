import Deadwood.Proofs.Import.Printed
import Deadwood.Proofs.Import.Span

/-!
# Aliased names

A line that imports one name under another one, `import { name as alias } from 'specifier';`. The
imported name may be an identifier. Then the line is found, whatever its specifier looks like, but
a name `type` is taken for the keyword, and what is left of the item binds nothing. The imported
name may also be a text in quotes. A clause does not go over a quote, so that such a line is never
found (`extract_aliasedImport`).

The specifier may hold anything that looks like a declaration. Nothing is found in it, since behind
its opening quote there is one quote left, and a recogniser takes two (`TakesQuotes`).
-/

namespace Deadwood.Import

open Text

/-! ## What is found takes two quotes -/

/-- The text has two quotes or more. -/
def HasQuotes (text : List Char) : Prop := 2 ≤ text.countP isQuote

instance (text : List Char) : Decidable (HasQuotes text) := inferInstanceAs (Decidable (_ ≤ _))

/-- `HasQuotes` holds of a text if it holds of its end. -/
theorem HasQuotes.of_suffix {rest text : List Char} (h : HasQuotes rest) (hsuffix : rest <:+ text) :
    HasQuotes text :=
  Nat.le_trans h hsuffix.sublist.countP_le

/-- What `Quotes` a specifier has two quotes. -/
theorem Quotes.hasQuotes {specifier rest text : List Char} (h : Quotes specifier rest text) :
    HasQuotes text := by
  obtain ⟨front, q, q', rfl, hq, hq', -⟩ := h
  simp only [HasQuotes, List.countP_append, List.countP_cons, hq, hq', if_true]
  omega

/-- A recogniser that finds nothing without two quotes. -/
def TakesQuotes {α : Type} (r : Recogniser α) : Prop :=
  ∀ (before : Option Char) (text : List Char) (f : Find α), r before text = some f → HasQuotes text

/-- What a recogniser `Takes` has two quotes, by its form. -/
theorem Takes.hasQuotes {α : Type} {form : Form} {before : Option Char}
    {text specifier rest : List Char} {f : Find α} (h : Takes form before text specifier rest f) :
    HasQuotes text := by
  obtain ⟨lead, body, rfl, -, hread, -⟩ := h
  obtain ⟨behind, hquotes, -⟩ := quotes_of_read hread
  exact hquotes.hasQuotes.of_suffix
    ((List.suffix_append form.keyword body).trans (List.suffix_append lead _))

/-- `static?` finds nothing without two quotes. -/
theorem takesQuotes_static? : TakesQuotes static? := fun _ _ _ h => (takes_static? h).hasQuotes

/-- `sideEffect?` finds nothing without two quotes. -/
theorem takesQuotes_sideEffect? : TakesQuotes sideEffect? := fun _ _ _ h =>
  (takes_sideEffect? h).elim fun _ htakes => htakes.hasQuotes

/-- `reExport?` finds nothing without two quotes. -/
theorem takesQuotes_reExport? : TakesQuotes reExport? := fun _ _ _ h =>
  (takes_reExport? h).elim fun _ htakes => htakes.hasQuotes

/-- `require?` finds nothing without two quotes. -/
theorem takesQuotes_require? : TakesQuotes require? := fun _ _ _ h =>
  (takes_require? h).elim fun _ htakes => htakes.hasQuotes

/-- `dynamic?` finds nothing without two quotes. -/
theorem takesQuotes_dynamic? : TakesQuotes dynamic? := fun _ _ _ h =>
  (takes_dynamic? h).elim fun _ htakes => htakes.hasQuotes

section

variable {α : Type} {r : Recogniser α}

/-- `findAllFrom` finds nothing where there are no two quotes. -/
theorem TakesQuotes.findAllFrom_eq (hr : TakesQuotes r) {text : List Char} (h : ¬HasQuotes text)
    (before : Option Char) (offset : Nat) : findAllFrom r 0 before offset text = [] := by
  induction text generalizing before offset with
  | nil => rfl
  | cons c cs ih =>
    have hnone : r before (c :: cs) = none := by
      rw [Option.eq_none_iff_forall_not_mem]
      intro f hf
      exact h (hr before _ f hf)
    rw [findAllFrom_cons_of_none hnone]
    -- the rest of the text has no more quotes than all of it
    exact ih (fun hcs => h (hcs.of_suffix (List.suffix_cons c cs))) _ _

/-- `findAllFrom` finds nothing from the opening quote of the last specifier on. -/
theorem TakesQuotes.findAllFrom_specifier (hr : TakesQuotes r) (s : Specifier)
    (before : Option Char) (offset : Nat) :
    findAllFrom r 0 before offset (s.chars ++ ['\'', ';']) = [] := by
  -- the closing quote is the only one that is left
  have hplain : s.chars.countP isQuote = 0 := by
    rw [List.countP_eq_zero]
    intro c hc
    rw [isQuote_of_isSpecifierChar (s.plain c hc)]
    decide
  refine hr.findAllFrom_eq ?_ before offset
  rw [HasQuotes, List.countP_append, hplain]
  decide

end

/-! ## Imports of one name -/

/-- A name in double quotes. -/
structure QuotedName where
  chars : List Char
  ne_nil : chars ≠ []
  plain : ∀ c ∈ chars, isSpecifierChar c = true ∧ c ≠ ';'

/-- The name with its quotes. -/
def QuotedName.text (n : QuotedName) : List Char := '"' :: n.chars ++ ['"']

/-- `import {`, the imported name, `as`, the new name, `} from` and the specifier. -/
def aliasedImport (imported : List Char) (renamed : Name) (s : Specifier) : List Char :=
  importWord ++ ' ' :: '{' :: ' ' :: imported ++ ' ' :: asWord ++ ' ' :: renamed.chars ++
    [' ', '}'] ++ fromMark ++ '\'' :: s.chars ++ ['\'', ';']

/-- The item that imports a name under another one. -/
def aliasItem (imported renamed : Name) : ListItem := ⟨false, imported, some renamed⟩

/-- `aliasedImport` of an identifier prints a list with one item. -/
theorem aliasedImport_name (imported renamed : Name) (s : Specifier) :
    aliasedImport imported.chars renamed s =
      importWord ++ ' ' :: (listChars [aliasItem imported renamed] ++ fromMark ++
        '\'' :: s.chars ++ '\'' :: [';']) := by
  simp [aliasedImport, listChars, itemsChars, aliasItem, ListItem.chars, typeMark]

/-- `bindingsOf` reads a list of names item by item. -/
theorem bindingsOf_listChars (typeOnly : Bool) (is : List ListItem) :
    bindingsOf typeOnly (listChars is) =
      (is.map ListItem.chars).filterMap (namedBinding? typeOnly) := by
  have hlist : ∃ rest, listChars is = '{' :: rest := by
    unfold listChars
    split <;> exact ⟨_, rfl⟩
  rw [bindingsOf_eq (tight_listChars is) (List.nil_append _).symm (by simp) (.inr hlist),
    items_beforeLastBrace]
  rfl

/-- `namedBinding?` takes a name `type` for the keyword. Two words are left behind it, and they bind
    nothing. -/
theorem namedBinding?_type_as (typeOnly : Bool) {imported : Name} (h : imported.chars = typeWord)
    (renamed : Name) : namedBinding? typeOnly (aliasItem imported renamed).chars = none := by
  have hafter : afterLiteral (typeWord ++ [' ']) (aliasItem imported renamed).chars =
      some (asWord ++ ' ' :: renamed.chars) := by
    rw [afterLiteral_eq_some_iff]
    simp [aliasItem, ListItem.chars, typeMark, h]
  have has : Tight asWord := ⟨⟨'a', rfl, rfl⟩, ⟨'s', rfl, rfl⟩⟩
  have htrim : trim (asWord ++ ' ' :: renamed.chars) = asWord ++ ' ' :: renamed.chars := by
    simpa using (has.append renamed.tight [' ']).trim_eq
  -- the item is read as `as` and the new name
  have hwords : words (asWord ++ ' ' :: renamed.chars) = [asWord, renamed.chars] := by
    rw [words_append_space (by decide) (List.all_iff_forall_prop.1 rfl),
      words_of_all renamed.ne_nil renamed.isSpace_of_mem]
  simp only [namedBinding?, hafter, htrim, hwords]

/-- `bindingsOf` reads one item back, unless its name is `type`. -/
theorem bindingsOf_aliasItem (imported renamed : Name) :
    bindingsOf false (listChars [aliasItem imported renamed]) =
      if imported.chars = typeWord then []
      else [⟨String.ofList renamed.chars, some (String.ofList imported.chars), .named, false⟩] := by
  rw [bindingsOf_listChars]
  -- a name that is the word for types is taken for a mark, and what is left for no item
  by_cases htype : imported.chars = typeWord
  · rw [if_pos htype, List.map_singleton, List.filterMap_cons_none
      (namedBinding?_type_as false htype renamed)]
    rfl
  · have hclear : (aliasItem imported renamed).IsClear := fun _ _ => htype
    rw [if_neg htype, List.map_singleton, List.filterMap_cons_some
      (ListItem.namedBinding?_chars hclear false)]
    rfl

section

variable (imported renamed : Name) (s : Specifier)

/-- The text of the import up to the closing quote. -/
def upToQuote : List Char :=
  importWord ++ ' ' :: (listChars [aliasItem imported renamed] ++ fromMark ++ '\'' :: s.chars)

/-- `aliasedImport` is `upToQuote`, the closing quote and a semicolon. -/
theorem aliasedImport_eq_upToQuote :
    aliasedImport imported.chars renamed s = (upToQuote imported renamed s ++ ['\'']) ++ [';'] := by
  rw [aliasedImport_name, upToQuote]
  simp

/-- `static?` finds the import at its start. -/
theorem static?_aliasedImport :
    static? none (aliasedImport imported.chars renamed s) =
      some ⟨0, (upToQuote imported renamed s ++ ['\'']).length,
        (⟨false, listChars [aliasItem imported renamed], s.chars⟩, [';'])⟩ := by
  have hclause := clause?_printed (@Over.listChars [aliasItem imported renamed])
    (tight_listChars _).last s (q := '\'') rfl [';']
  -- what is behind the keyword is one clause
  have htyped : typedClause? (listChars [aliasItem imported renamed] ++ fromMark ++
      '\'' :: s.chars ++ '\'' :: [';']) =
        some (⟨false, listChars [aliasItem imported renamed], s.chars⟩, [';']) := by
    -- the clause starts with a brace, so it is no `import type`
    have htype : afterLiteral typeWord (listChars [aliasItem imported renamed] ++ fromMark ++
        '\'' :: s.chars ++ '\'' :: [';']) = none := rfl
    rw [typedClause?, htype, Option.bind_none, Option.none_or, clauseOf, hclause]
    rfl
  have htext := aliasedImport_name imported renamed s
  rw [htext, static?_eq, statement?_of_start (statementStart?_import rfl _),
    passBlanks_blank_cons (by intro c hc; cases hc; decide), htyped, Option.map_some, ← htext,
    aliasedImport_eq_upToQuote, findBetween_append]

/-- `findAll static?` has one find, which takes the whole text up to the closing quote. -/
theorem findAll_static?_aliasedImport :
    findAll static? (aliasedImport imported.chars renamed s) =
      [⟨0, byteLength (upToQuote imported renamed s ++ ['\'']),
        (⟨false, listChars [aliasItem imported renamed], s.chars⟩, [';'])⟩] := by
  have hfind := static?_aliasedImport imported renamed s
  obtain ⟨c, cs, hcs⟩ : ∃ c cs, upToQuote imported renamed s = c :: cs := ⟨_, _, rfl⟩
  -- the find ends with the closing quote
  have htake : (aliasedImport imported.chars renamed s).take
      (upToQuote imported renamed s ++ ['\'']).length = upToQuote imported renamed s ++ ['\''] := by
    rw [aliasedImport_eq_upToQuote, List.take_left]
  have htext : aliasedImport imported.chars renamed s = c :: (cs ++ '\'' :: [';']) := by
    rw [aliasedImport_eq_upToQuote, hcs]
    simp
  have hskip : (upToQuote imported renamed s ++ ['\'']).length - 1 = cs.length + 1 := by
    simp [hcs]
  rw [htext] at hfind htake ⊢
  rw [findAll, findAllFrom, hfind]
  -- the find is passed over as a whole, and the `;` is left
  simp only [htake, hskip, Nat.zero_add]
  rw [findAllFrom_skip, takesQuotes_static?.findAllFrom_eq (by decide)]

/-- `findAll` of a recogniser that does not find the import has no finds at all. -/
theorem findAll_aliasedImport {α : Type} {r : Recogniser α} (hkeyed : Keyed r)
    (hquotes : TakesQuotes r) (hnone : r none (aliasedImport imported.chars renamed s) = none) :
    findAll r (aliasedImport imported.chars renamed s) = [] := by
  have htext : aliasedImport imported.chars renamed s =
      'i' :: (['m', 'p', 'o', 'r', 't', ' '] ++ listChars [aliasItem imported renamed] ++
        fromMark ++ '\'' :: (s.chars ++ ['\'', ';'])) := by
    rw [aliasedImport_name]
    simp [importWord]
  -- up to the opening quote, and from there on, nothing starts
  have hover : Over marks (['m', 'p', 'o', 'r', 't', ' '] ++
      listChars [aliasItem imported renamed] ++ fromMark) :=
    Over.append_iff.2 ⟨Over.append_iff.2 ⟨List.all_iff_forall_prop.1 rfl, .listChars⟩, .fromMark⟩
  rw [htext] at hnone ⊢
  rw [findAll, findAllFrom_cons_of_none hnone, hkeyed.findAllFrom_head hover rfl (by decide),
    hquotes.findAllFrom_specifier]

/-- `referencesByForm` has one reference for the import. -/
theorem referencesByForm_aliasedImport :
    referencesByForm (aliasedImport imported.chars renamed s) =
      [⟨String.ofList s.chars, 0, 1, .static⟩] := by
  have htext := aliasedImport_name imported renamed s
  have hside : sideEffect? none (aliasedImport imported.chars renamed s) = none := by
    rw [htext, sideEffect?_eq, statement?_of_start (statementStart?_import rfl _)]
    rfl
  have hexport : reExport? none (aliasedImport imported.chars renamed s) = none := by
    rw [htext, reExport?_import rfl]
  have hcall : ∀ word : List Char, word.any isQuote = false →
      call? word none (aliasedImport imported.chars renamed s) = none := by
    intro word hword
    have hover : Over marks (importWord ++ ' ' :: (listChars [aliasItem imported renamed] ++
        fromMark)) :=
      Over.append_iff.2 ⟨.word (by decide), Over.cons_iff.2 ⟨.inr (by decide),
        Over.append_iff.2 ⟨.listChars, .fromMark⟩⟩⟩
    -- the first quote has no parenthesis in front of it
    have hnone := @call?_append_quote word hword none _ (s.chars ++ ['\'', ';']) '\'' hover rfl
    rw [htext]
    simpa using hnone
  have hrequire := hcall requireWord rfl
  have hdynamic := hcall importWord rfl
  -- the other recognisers do not find the import, hence nothing
  rw [referencesByForm, findAll_static?_aliasedImport]
  simp only [referencesBy, findAll_aliasedImport imported renamed s keyed_sideEffect?
      takesQuotes_sideEffect? hside,
    findAll_aliasedImport imported renamed s keyed_reExport? takesQuotes_reExport? hexport,
    findAll_aliasedImport imported renamed s keyed_require? takesQuotes_require? hrequire,
    findAll_aliasedImport imported renamed s keyed_dynamic? takesQuotes_dynamic? hdynamic]
  rfl

end

/-! ## Imports of a quoted name -/

section

variable (imported : QuotedName) (renamed : Name) (s : Specifier)

/-- The text between the imported name and the opening quote of the specifier. -/
def behindName : List Char := ' ' :: asWord ++ ' ' :: renamed.chars ++ [' ', '}'] ++ fromMark

/-- `aliasedImport` of a name in quotes, with what stands between the quotes. -/
theorem aliasedImport_text :
    aliasedImport imported.text renamed s = importWord ++ ' ' :: '{' :: ' ' :: '"' ::
      (imported.chars ++ '"' :: (behindName renamed ++ '\'' :: (s.chars ++ ['\'', ';']))) := by
  simp [aliasedImport, QuotedName.text, behindName]

/-- `findAll` of a recogniser of statements that does not find the import has no finds at all: up to
    the opening quote of the specifier no other statement starts. -/
theorem findAll_quotedName {α β : Type} {word : List Char} {next : List Char → Option β}
    {make : List Char → List Char → β → Find α} (hquotes : TakesQuotes (statement? word next make))
    (hnone : statement? word next make none (aliasedImport imported.text renamed s) = none) :
    findAll (statement? word next make) (aliasedImport imported.text renamed s) = [] := by
  have hbehind : Over marks (behindName renamed) := by
    have has : Over marks asWord := .word (by decide)
    have hblank : ' ' ∈ marks ∧ '}' ∈ marks := by decide
    simp [behindName, has, hblank, Over.fromMark]
  have hfront : ∀ c ∈ ['m', 'p', 'o', 'r', 't', ' ', '{', ' ', '"'], c ≠ ';' ∧ c ≠ '\n' :=
    List.all_iff_forall_prop.1 rfl
  -- nothing in front of the specifier starts a statement: no semicolon and no line end
  have hplain : ∀ c ∈ ['m', 'p', 'o', 'r', 't', ' ', '{', ' ', '"'] ++ imported.chars ++
      '"' :: behindName renamed, c ≠ ';' ∧ c ≠ '\n' := by
    intro c hc
    rcases List.mem_append.1 hc with hc | hc
    · rcases List.mem_append.1 hc with hc | hc
      · exact hfront c hc
      · refine ⟨(imported.plain c hc).2, ?_⟩
        rintro rfl
        exact absurd (imported.plain _ hc).1 (by decide)
    · rcases List.mem_cons.1 hc with rfl | hc
      · decide
      · exact ⟨hbehind.ne (by decide) (by decide) c hc, hbehind.ne (by decide) (by decide) c hc⟩
  have htext : aliasedImport imported.text renamed s =
      'i' :: (['m', 'p', 'o', 'r', 't', ' ', '{', ' ', '"'] ++ imported.chars ++
        '"' :: behindName renamed ++ '\'' :: (s.chars ++ ['\'', ';'])) := by
    simp [aliasedImport_text, importWord]
  -- so the recogniser finds nothing at any of these places
  have hinside : ∀ (before : Char) (cs : List Char), before ≠ '\n' →
      (∀ c ∈ cs, c ≠ ';' ∧ c ≠ '\n') →
        statement? word next make (some before) (cs ++ '\'' :: (s.chars ++ ['\'', ';'])) =
          none := by
    intro before cs hbefore hcs
    have hhead : (cs ++ '\'' :: (s.chars ++ ['\'', ';'])).head? ≠ some ';' := by
      cases cs with
      | nil => simp
      | cons c cs => simpa using (hcs c List.mem_cons_self).1
    rw [statement?, statementStart?_of_ne hbefore hhead]
    rfl
  have htail : ∀ c cs, (∀ d ∈ c :: cs, d ≠ ';' ∧ d ≠ '\n') →
      c ≠ '\n' ∧ ∀ d ∈ cs, d ≠ ';' ∧ d ≠ '\n' := fun c cs hcs =>
    ⟨(hcs c List.mem_cons_self).2, fun d hd => hcs d (List.mem_cons_of_mem c hd)⟩
  rw [htext] at hnone ⊢
  rw [findAll, findAllFrom_cons_of_none hnone,
    findAllFrom_append_cons hinside htail hplain (by decide), hquotes.findAllFrom_specifier]

/-- `findAll static?` has no finds, as a clause does not go over the quote in front of the name. -/
theorem findAll_static?_quotedName :
    findAll static? (aliasedImport imported.text renamed s) = [] := by
  have hquotes := takesQuotes_static?
  rw [static?_eq] at hquotes ⊢
  refine findAll_quotedName imported renamed s hquotes ?_
  rw [aliasedImport_text, statement?_of_start (statementStart?_import rfl _),
    passBlanks_blank_cons (by intro c hc; cases hc; decide)]
  rfl

/-- `findAll sideEffect?` has no finds, as no quote stands right behind the keyword. -/
theorem findAll_sideEffect?_quotedName :
    findAll sideEffect? (aliasedImport imported.text renamed s) = [] := by
  have hquotes := takesQuotes_sideEffect?
  rw [sideEffect?_eq] at hquotes ⊢
  refine findAll_quotedName imported renamed s hquotes ?_
  rw [aliasedImport_text, statement?_of_start (statementStart?_import rfl _)]
  rfl

/-- `findAll reExport?` has no finds, as the line starts with another keyword. -/
theorem findAll_reExport?_quotedName :
    findAll reExport? (aliasedImport imported.text renamed s) = [] := by
  have hquotes := takesQuotes_reExport?
  have hnone : reExport? none (aliasedImport imported.text renamed s) = none := by
    rw [aliasedImport_text, reExport?_import rfl]
  rw [reExport?_eq] at hquotes hnone ⊢
  exact findAll_quotedName imported renamed s hquotes hnone

/-- `referencesBy` gives references of one form. -/
theorem form_of_mem_referencesBy {text : List Char} {form : Form} {r : Recogniser (List Char)}
    {ref : Reference} (h : ref ∈ referencesBy text form r) : ref.form = form := by
  obtain ⟨found, -, rfl⟩ := List.mem_map.1 h
  rfl

/-- The one thing that is found in such a line is a call that the name or the specifier looks
    like. -/
theorem form_of_mem_references_quotedName {ref : Reference}
    (h : ref ∈ (extract (String.ofList (aliasedImport imported.text renamed s))).references) :
    ref.form = .require ∨ ref.form = .dynamic := by
  rw [extract, String.toList_ofList] at h
  replace h := mem_referencesByForm h
  simp only [referencesByForm, findAll_static?_quotedName] at h
  rw [referencesBy, findAll_sideEffect?_quotedName, referencesBy, findAll_reExport?_quotedName] at h
  -- of the five lists only those of calls are left
  simp only [List.map_nil, List.nil_append, List.mem_append] at h
  rcases h with h | h
  · exact .inl (form_of_mem_referencesBy h)
  · exact .inr (form_of_mem_referencesBy h)

end

/-! ## Aliased imports -/

/-- An import of one identifier under another name is found with its specifier and, unless the
    identifier is `type`, with its binding. An import of a name in quotes is not found: it makes no
    statement, and only what looks like a call in its line makes a reference. -/
theorem extract_aliasedImport (renamed : Name) (s : Specifier) :
    (∀ imported : Name, extract (String.ofList (aliasedImport imported.chars renamed s)) =
      { references := [⟨String.ofList s.chars, 0, 1, .static⟩]
        statements := [{
          specifier := String.ofList s.chars
          start := 0
          stop := byteLength (aliasedImport imported.chars renamed s)
          line := 1
          typeOnly := false
          bindings :=
            if imported.chars = typeWord then []
            else
              [⟨String.ofList renamed.chars, some (String.ofList imported.chars), .named, false⟩]
        }] }) ∧
    ∀ imported : QuotedName,
      (extract (String.ofList (aliasedImport imported.text renamed s))).statements = [] ∧
      ∀ ref ∈ (extract (String.ofList (aliasedImport imported.text renamed s))).references,
        ref.form = .require ∨ ref.form = .dynamic := by
  refine ⟨fun imported => ?_, fun imported => ⟨?_, fun ref href => ?_⟩⟩
  · -- the statement ends behind the semicolon
    have hstop : byteLength (aliasedImport imported.chars renamed s) =
        byteLength (upToQuote imported renamed s ++ ['\'']) + terminatorSize [';'] := by
      rw [aliasedImport_eq_upToQuote, byteLength_append]
      rfl
    have hline : lineOf (aliasedImport imported.chars renamed s) 0 = 1 := lineOf_byteLength [] _
    rw [extract, String.toList_ofList, Extraction.ofChars, referencesByForm_aliasedImport,
      List.mergeSort_singleton, dropRepeated_singleton, findAll_static?_aliasedImport,
      List.map_singleton]
    simp only [Statement.ofFind, bindingsOf_aliasItem, hline, hstop]
  · rw [extract, String.toList_ofList, Extraction.ofChars, findAll_static?_quotedName]
    rfl
  · exact form_of_mem_references_quotedName imported renamed s href

/-- A specifier that opens a list of re-exported names. -/
def openList : Specifier :=
  ⟨[';', 'e', 'x', 'p', 'o', 'r', 't', ' ', '{'], by decide, List.all_iff_forall_prop.1 rfl⟩

/-- A name in quotes that is like the start of a call. -/
def callName : QuotedName :=
  ⟨['i', 'm', 'p', 'o', 'r', 't', '('], by decide, List.all_iff_forall_prop.1 rfl⟩

/-- `isIdentifier` takes the word `as`. -/
theorem isIdentifier_asWord : isIdentifier asWord = true := by decide

/-- The name `as`. -/
def asName : Name := ⟨asWord, isIdentifier_asWord⟩

/-- A specifier that opens a list, and a name in quotes that opens a call. -/
theorem extract_aliasedImport_openList :
    (extract (String.ofList (aliasedImport fromWord asName openList))).references =
      [⟨";export \x7b", 0, 1, .static⟩] ∧
    (extract (String.ofList (aliasedImport callName.text asName openList))).statements = [] := by
  obtain ⟨hname, hquoted⟩ := extract_aliasedImport asName openList
  have hfrom := hname ⟨fromWord, by decide⟩
  exact ⟨congrArg Extraction.references hfrom, (hquoted callName).1⟩

/-- The import of a name `type` binds nothing, and the import of a name in quotes is not found. -/
theorem extract_type_and_quoted :
    (extract "import \x7b type as x \x7d from 'm';").statements.map (·.bindings) = [[]] ∧
    (extract "import \x7b \"a-b\" as c \x7d from 'm';").statements = [] ∧
    (extract "import \x7b \"a-b\" as c \x7d from 'm';").references = [] := by
  refine ⟨by decide +kernel, by decide +kernel, ?_⟩
  have hnone : referencesByForm "import \x7b \"a-b\" as c \x7d from 'm';".toList = [] := by
    decide +kernel
  rw [extract, Extraction.ofChars, hnone, List.mergeSort_nil]
  rfl

end Deadwood.Import
