import Mathlib.Data.List.Nodup
import Deadwood.Proofs.Import.LineStart

/-!
# Printed declarations are read back

A recogniser walks over a printed text line by line. At the start of a line it finds the
declaration, if it has the form that is looked for, and on the rest of the line it finds nothing:
`Reads.findAllFrom_line`. By induction over the lines, the finds of a whole text are those of its
declarations, in their order (`Reads.findAllFrom_print`), and the references and statements made
from them are the printed ones (`extract_print`).

A specifier may hold anything but quotes and line ends, so also what looks like a declaration. The
one thing it must not do is to open a list of re-exported names without closing it: the list would
go on over the end of the line.
-/

namespace Deadwood.Import

open Text

/-! ## Lists inside a specifier -/

/-- `IsListOpening` texts are keywords and blanks, so they have no quotes. -/
theorem IsListOpening.isQuote_eq {opening : List Char} (h : IsListOpening opening) :
    ∀ c ∈ opening, isQuote c = false := by
  have hexport : ∀ c ∈ exportWord, isQuote c = false := List.all_iff_forall_prop.1 rfl
  have htype : ∀ c ∈ typeWord, isQuote c = false := List.all_iff_forall_prop.1 rfl
  -- with and without a `type`
  obtain ⟨lead, gap, hlead, hgap, rfl | ⟨gap', hgap', rfl⟩⟩ := h
  · intro c hc
    simp only [List.mem_append] at hc
    rcases hc with (hc | hc) | hc
    · exact isQuote_of_isBlank (hlead c hc)
    · exact hexport c hc
    · exact isQuote_of_isBlank (hgap.blank c hc)
  · intro c hc
    simp only [List.mem_append] at hc
    rcases hc with (((hc | hc) | hc) | hc) | hc
    · exact isQuote_of_isBlank (hlead c hc)
    · exact hexport c hc
    · exact isQuote_of_isBlank (hgap.blank c hc)
    · exact htype c hc
    · exact isQuote_of_isBlank (hgap'.blank c hc)

/-- `isSpecifierChar` takes no quotes. -/
theorem isQuote_of_isSpecifierChar {c : Char} (h : isSpecifierChar c = true) :
    isQuote c = false := by
  cases hq : isQuote c with
  | false => rfl
  | true =>
    rw [isSpecifierChar_of_isQuote hq] at h
    cases h

/-- A part of a specifier that closes the list it opens does so before the closing quote. -/
theorem listsClosed_append_quote {cs rest : List Char} {q : Char} (hq : isQuote q = true)
    (hplain : ∀ c ∈ cs, isSpecifierChar c = true) (hclosing : quoted? (q :: rest) = none)
    (hlists : ∀ opening inside, cs = ';' :: opening ++ '{' :: inside → IsListOpening opening →
      '}' ∈ inside) : ListsClosed (cs ++ q :: rest) := by
  intro opening tail htext hopening
  have hopened : ∀ c ∈ ';' :: opening ++ ['{'], isQuote c = false := by
    intro c hc
    simp only [List.cons_append, List.mem_cons, List.mem_append, List.not_mem_nil, or_false] at hc
    rcases hc with rfl | hc | rfl
    · decide
    · exact hopening.isQuote_eq c hc
    · decide
  have htext : cs ++ q :: rest = (';' :: opening ++ ['{']) ++ tail := by simpa using htext
  rcases List.append_eq_append_iff.1 htext with ⟨zs, hzs, htail⟩ | ⟨inside, rfl, rfl⟩
  · cases zs with
    | nil =>
      -- the specifier ends where the list opens
      cases hlists opening [] (by simpa using hzs.symm) hopening
    | cons z zs =>
      cases htail
      have := hopened q (hzs ▸ by simp)
      rw [hq] at this
      cases this
  · have hbrace := hlists opening inside (by simp) hopening
    have hne : ¬(inside.dropWhile (· != '}')).isEmpty = true := by
      rw [List.isEmpty_iff, List.dropWhile_eq_nil_iff]
      intro hall
      exact absurd (hall '}' hbrace) (by decide)
    rw [List.dropWhile_append, if_neg hne]
    refine ⟨_, q, rest, rfl, fun c hc => isQuote_of_isSpecifierChar (hplain c ?_), hq, hclosing⟩
    exact List.mem_append_right _ ((List.dropWhile_suffix _).mem hc)

/-! ## Walking over a line -/

/-- The text of a line behind the closing quote. -/
def Declaration.tail (d : Declaration) : List Char := d.ending ++ ['\n']

/-- `Declaration.line` is `Declaration.head`, up to the closing quote, and `Declaration.tail`. -/
theorem Declaration.line_eq (d : Declaration) : d.line = d.head ++ d.tail := by
  simp [line, chars, head, tail]

section

variable {α : Type} {r : Recogniser α}

/-- `findAllFrom` goes on with the next character where nothing is found. -/
theorem findAllFrom_cons_of_none {before : Option Char} {offset : Nat} {c : Char} {cs : List Char}
    (h : r before (c :: cs) = none) :
    findAllFrom r 0 before offset (c :: cs) =
      findAllFrom r 0 (some c) (offset + c.utf8Size) cs := by
  rw [findAllFrom, h]

/-- `findAllFrom` passes over what a find takes, up to its last character `q`. -/
theorem findAllFrom_skip (before : Option Char) (offset : Nat) (xs : List Char) (q : Char)
    (rest : List Char) :
    findAllFrom r (xs.length + 1) before offset (xs ++ q :: rest) =
      findAllFrom r 0 (some q) (offset + byteLength (xs ++ [q])) rest := by
  induction xs generalizing before offset with
  | nil => rfl
  | cons c xs ih =>
    rw [List.length_cons, List.cons_append, findAllFrom, ih, List.cons_append, byteLength_cons,
      Nat.add_assoc]

/-- `findAllFrom` gets over a character behind a text, where the recogniser finds nothing in the
    text and in what is left of it, up to that character. -/
theorem findAllFrom_append_cons {p : List Char → Prop} {q : Char} {rest : List Char}
    (hnone : ∀ (before : Char) (cs : List Char), before ≠ '\n' → p cs →
      r (some before) (cs ++ q :: rest) = none)
    (htail : ∀ c cs, p (c :: cs) → c ≠ '\n' ∧ p cs) {cs : List Char} (hcs : p cs) {before : Char}
    (hbefore : before ≠ '\n') (offset : Nat) :
    findAllFrom r 0 (some before) offset (cs ++ q :: rest) =
      findAllFrom r 0 (some q) (offset + byteLength (cs ++ [q])) rest := by
  have hstep := hnone before cs hbefore hcs
  -- each character passed becomes the one before the next place
  induction cs generalizing before offset with
  | nil => exact findAllFrom_cons_of_none hstep
  | cons c cs ih =>
    obtain ⟨hc, htail⟩ := htail c cs hcs
    rw [List.cons_append] at hstep ⊢
    rw [findAllFrom_cons_of_none hstep, ih htail hc _ (hnone c cs hc htail), List.cons_append,
      byteLength_cons, Nat.add_assoc]

namespace Keyed

/-- `findAllFrom`, from inside the text before the opening quote on, finds nothing up to the quote.
    -/
theorem findAllFrom_head (hr : Keyed r) {cs : List Char} (hcs : Over marks cs) {q : Char}
    (hq : isQuote q = true) {before : Char} (hbefore : before ≠ '\n') (offset : Nat)
    (rest : List Char) :
    findAllFrom r 0 (some before) offset (cs ++ q :: rest) =
      findAllFrom r 0 (some q) (offset + byteLength (cs ++ [q])) rest := by
  refine findAllFrom_append_cons (fun _ _ hne hover => hr.head rest hover hq hne)
    (fun c cs hover => ?_) hcs hbefore offset
  exact ⟨hover.ne (by decide) (by decide) c List.mem_cons_self, (Over.cons_iff.1 hover).2⟩

/-- `findAllFrom`, from the opening quote on, finds nothing up to the closing quote. -/
theorem findAllFrom_specifier (hr : Keyed r) {s : Specifier} (hs : s.ClosesLists) {q : Char}
    (hq : isQuote q = true) {rest : List Char} (hclosing : quoted? (q :: rest) = none)
    {before : Char} (hbefore : before ≠ '\n') (offset : Nat) :
    findAllFrom r 0 (some before) offset (s.chars ++ q :: rest) =
      findAllFrom r 0 (some q) (offset + byteLength (s.chars ++ [q])) rest := by
  -- what is left of a specifier is an end of it, and lists opened there are closed there
  refine findAllFrom_append_cons (p := (· <:+ s.chars)) (fun _ cs hne hsuffix => ?_)
    (fun c cs hsuffix => ?_) (List.suffix_refl s.chars) hbefore offset
  · have hplain : ∀ c ∈ cs, isSpecifierChar c = true := fun c hc => s.plain c (hsuffix.mem hc)
    refine hr.closing ⟨cs, q, rest, rfl, fun c hc => isQuote_of_isSpecifierChar (hplain c hc), hq,
      hclosing⟩ (listsClosed_append_quote hq hplain hclosing ?_) hne
    obtain ⟨before, hbefore⟩ := hsuffix
    intro opening inside hcs
    exact hs before opening inside (by rw [← hbefore, hcs]; simp)
  · refine ⟨?_, (List.suffix_cons c cs).trans hsuffix⟩
    rintro rfl
    exact absurd (s.plain '\n' (hsuffix.mem List.mem_cons_self)) (by decide)

/-- `findAllFrom`, behind the closing quote, finds nothing up to the end of the line. -/
theorem findAllFrom_tail (hr : Keyed r) (d : Declaration) {before : Char} (hbefore : before ≠ '\n')
    (offset : Nat) (rest : List Char) :
    findAllFrom r 0 (some before) offset (d.tail ++ rest) =
      findAllFrom r 0 (some '\n') (offset + byteLength d.tail) rest := by
  unfold Declaration.tail Declaration.ending
  split
  · have hsemicolon := hr.semicolon (some before) rest
    have hline := @lineEnd _ _ hr ';' rest (by decide)
    show findAllFrom r 0 (some before) offset (';' :: '\n' :: rest) = _
    rw [findAllFrom_cons_of_none hsemicolon, findAllFrom_cons_of_none hline]
    rfl
  · exact findAllFrom_cons_of_none (hr.lineEnd rest hbefore)

/-- `findAllFrom` finds nothing in a text with `NoKeyword`. -/
theorem findAllFrom_body (hr : Keyed r) {body : List Char} (hbody : NoKeyword body)
    (before : Option Char) (offset : Nat) : findAllFrom r 0 before offset body = [] := by
  induction body generalizing before offset with
  | nil => rfl
  | cons c cs ih =>
    -- the rest of such a text is such a text
    have hcs : NoKeyword cs := fun word hword h =>
      hbody word hword (h.trans (List.suffix_cons c cs).isInfix)
    rw [findAllFrom_cons_of_none (hr.body before hbody), ih hcs]

end Keyed

/-- A recogniser that finds something at the start of certain lines, and nowhere else. What is
    found may depend on the text behind the closing quote. -/
structure Reads {α : Type} (r : Recogniser α) (found : Declaration → List Char → Option α) :
    Prop where
  keyed : Keyed r
  start : ∀ {before : Option Char}, before.all (· == '\n') = true → ∀ d rest,
    r before (d.head ++ rest) = (found d rest).map fun value => ⟨0, d.head.length, value⟩

/-- The finds of declarations that are printed from an offset on, in front of a text. -/
def locatedFrom {α : Type} (found : Declaration → List Char → Option α) :
    Nat → List Declaration → List Char → List (Located α)
  | _, [], _ => []
  | offset, d :: ds, body =>
    ((found d (d.tail ++ print ds ++ body)).map fun value =>
        ⟨offset, offset + byteLength d.head, value⟩).toList ++
      locatedFrom found (offset + byteLength d.line) ds body

/-- `Shape.chars` starts with a keyword. -/
theorem Shape.exists_cons (s : Shape) : ∃ c cs, s.chars = c :: cs := by
  cases s with
  | sideEffect => exact ⟨_, _, rfl⟩
  | binding typeOnly c => exact ⟨_, _, rfl⟩
  | reExport e => exact ⟨_, _, rfl⟩

/-- `isQuote` does not take the line end. -/
theorem ne_lineEnd_of_isQuote {q : Char} (hq : isQuote q = true) : q ≠ '\n' := by
  rintro rfl
  cases hq

/-- `quoted?` finds nothing from the closing quote on, as no character of a specifier follows it. -/
theorem Declaration.quoted?_tail (d : Declaration) (rest : List Char) :
    quoted? (d.quote :: (d.tail ++ rest)) = none := by
  unfold tail ending
  rcases eq_of_isQuote d.isQuote with hquote | hquote
  · rw [hquote]
    split <;> rfl
  · rw [hquote]
    split <;> rfl

namespace Reads

variable {found : Declaration → List Char → Option α}

/-- `findAllFrom` finds on a line only its declaration. -/
theorem findAllFrom_line (h : Reads r found) {d : Declaration} (hd : d.specifier.ClosesLists)
    {before : Option Char} (hbefore : before.all (· == '\n') = true) (offset : Nat)
    (rest : List Char) :
    findAllFrom r 0 before offset (d.line ++ rest) =
      ((found d (d.tail ++ rest)).map fun value =>
          ⟨offset, offset + byteLength d.head, value⟩).toList ++
        findAllFrom r 0 (some '\n') (offset + byteLength d.line) rest := by
  obtain ⟨c, cs, hshape⟩ := d.shape.exists_cons
  have hover : Over marks (c :: cs) := hshape ▸ Over.shape d.shape
  have hc : c ≠ '\n' := hover.ne (by decide) (by decide) c List.mem_cons_self
  have hq := ne_lineEnd_of_isQuote d.isQuote
  -- the line by its parts, with the first character on its own
  have htext : d.line ++ rest =
      c :: (cs ++ d.quote :: (d.specifier.chars ++ d.quote :: (d.tail ++ rest))) := by
    rw [d.line_eq, Declaration.head, hshape]
    simp
  have hsize : byteLength d.line = c.utf8Size + byteLength (cs ++ [d.quote]) +
      byteLength (d.specifier.chars ++ [d.quote]) + byteLength d.tail := by
    rw [d.line_eq, Declaration.head, hshape]
    simp
    omega
  have hstart := h.start hbefore d (d.tail ++ rest)
  rw [← List.append_assoc, ← d.line_eq, htext] at hstart
  rw [htext]
  cases hfound : found d (d.tail ++ rest) with
  | none =>
    rw [hfound] at hstart
    -- every part of the line is gone over without a find
    rw [findAllFrom_cons_of_none hstart,
      h.keyed.findAllFrom_head (Over.cons_iff.1 hover).2 d.isQuote hc,
      h.keyed.findAllFrom_specifier hd d.isQuote (d.quoted?_tail rest) hq,
      h.keyed.findAllFrom_tail d hq, hsize]
    simp [Nat.add_assoc]
  | some value =>
    rw [hfound] at hstart
    -- the find is passed over as a whole
    have hskip : d.head.length - 1 = (cs ++ d.quote :: d.specifier.chars).length + 1 := by
      simp [Declaration.head, hshape]
      omega
    have htake : byteLength ((c :: (cs ++ d.quote :: (d.specifier.chars ++
        d.quote :: (d.tail ++ rest)))).take d.head.length) = byteLength d.head := by
      rw [← htext, d.line_eq, List.append_assoc, List.take_left]
    have hrest : cs ++ d.quote :: (d.specifier.chars ++ d.quote :: (d.tail ++ rest)) =
        (cs ++ d.quote :: d.specifier.chars) ++ d.quote :: (d.tail ++ rest) := by
      simp
    rw [findAllFrom, hstart]
    simp only [Option.map_some, htake, hskip]
    rw [hrest, findAllFrom_skip, h.keyed.findAllFrom_tail d hq, hsize]
    simp [Nat.add_assoc]

/-- `findAllFrom` finds in a printed text only its declarations, in their order. -/
theorem findAllFrom_print (h : Reads r found) {ds : List Declaration}
    (hds : ∀ d ∈ ds, d.specifier.ClosesLists) {body : List Char} (hbody : NoKeyword body)
    {before : Option Char} (hbefore : before.all (· == '\n') = true) (offset : Nat) :
    findAllFrom r 0 before offset (print ds ++ body) = locatedFrom found offset ds body := by
  -- every line ends where the next one may start
  induction ds generalizing before offset with
  | nil => exact h.keyed.findAllFrom_body hbody before offset
  | cons d ds ih =>
    have hprint : print (d :: ds) ++ body = d.line ++ (print ds ++ body) := by simp [print]
    rw [hprint, h.findAllFrom_line (hds d List.mem_cons_self) hbefore,
      ih (fun e he => hds e (List.mem_cons_of_mem d he)) rfl, locatedFrom, List.append_assoc]

end Reads

end

/-- `static?` finds the imports that bind names, with the text behind the closing quote. -/
theorem reads_static? :
    Reads static? fun d rest => d.staticImport?.map fun found => (found, rest) where
  keyed := keyed_static?
  start hbefore d rest := by
    rw [static?_head hbefore, Option.map_map]
    rfl

/-- `sideEffect?` finds the imports for their effects. -/
theorem reads_sideEffect? : Reads sideEffect? fun d _ => d.specifierOf? .sideEffect where
  keyed := keyed_sideEffect?
  start hbefore d rest := sideEffect?_head hbefore d rest

/-- `reExport?` finds the re-exports. -/
theorem reads_reExport? : Reads reExport? fun d _ => d.specifierOf? .reExport where
  keyed := keyed_reExport?
  start hbefore d rest := reExport?_head hbefore d rest

/-- `require?` finds no declarations. -/
theorem reads_require? : Reads require? fun _ _ => none where
  keyed := keyed_require?
  start _ d rest := call?_head rfl _ d rest

/-- `dynamic?` finds no declarations. -/
theorem reads_dynamic? : Reads dynamic? fun _ _ => none where
  keyed := keyed_dynamic?
  start _ d rest := call?_head rfl _ d rest

/-! ## Lines and offsets -/

/-- `Declaration.line` has one line end, which is its last character. -/
theorem Declaration.count_line (d : Declaration) : d.line.count '\n' = 1 := by
  -- none of the parts has a line end
  have hshape : d.shape.chars.count '\n' = 0 := by
    rw [List.count_eq_zero]
    intro hmem
    exact (Over.shape d.shape).ne (by decide) (by decide) '\n' hmem rfl
  have hspecifier : d.specifier.chars.count '\n' = 0 := by
    rw [List.count_eq_zero]
    intro hmem
    exact absurd (d.specifier.plain '\n' hmem) (by decide)
  have hquote : (d.quote == '\n') = false := by
    simpa using ne_lineEnd_of_isQuote d.isQuote
  have hending : d.ending.count '\n' = 0 := by
    unfold ending
    split <;> rfl
  simp [line, chars, List.count_cons, hshape, hspecifier, hquote, hending]

/-- `lineOf` counts the line ends in front of an offset. -/
theorem lineOf_byteLength (before rest : List Char) :
    lineOf (before ++ rest) (byteLength before) = before.count '\n' + 1 := by
  rw [lineOf, lineEndsBefore_byteLength]

/-- `locatedFrom`: where what is made of each find is what is expected of its declaration, what is
    made of all finds is what is expected of all declarations. -/
theorem map_locatedFrom {α β : Type} {found : Declaration → List Char → Option α}
    (view : List Char → Located α → β) (make : Declaration → Nat → Nat → Option β)
    (expected : Nat → Nat → List Declaration → List β)
    (hview : ∀ before d rest, ((found d (d.tail ++ rest)).map fun value =>
        view (before ++ (d.line ++ rest))
          ⟨byteLength before, byteLength before + byteLength d.head, value⟩) =
      make d (byteLength before) (before.count '\n' + 1))
    (hnil : ∀ offset line, expected offset line [] = [])
    (hcons : ∀ offset line d ds, expected offset line (d :: ds) =
      (make d offset line).toList ++ expected (offset + byteLength d.line) (line + 1) ds)
    (before : List Char) (ds : List Declaration) (body : List Char) :
    (locatedFrom found (byteLength before) ds body).map (view (before ++ (print ds ++ body))) =
      expected (byteLength before) (before.count '\n' + 1) ds := by
  induction ds generalizing before with
  | nil => exact (hnil _ _).symm
  | cons d ds ih =>
    -- for the rest of the lines, the first one is part of the text before
    have hprint : before ++ (print (d :: ds) ++ body) =
        (before ++ d.line) ++ (print ds ++ body) := by
      simp [print]
    have ih := ih (before ++ d.line)
    rw [List.count_append, d.count_line, byteLength_append] at ih
    rw [locatedFrom, List.map_append, hcons, ← ih, ← hprint, ← hview before d (print ds ++ body)]
    simp [print, Option.toList_map, Function.comp_def]

/-- `Reference.at` of the finds of one form are the references that `referencesFrom` has of this
    form. -/
theorem map_referenceAt_locatedFrom {α : Type} {found : Declaration → List Char → Option α}
    (specifier : α → List Char) {form : Form}
    (hfound : ∀ d rest, (found d rest).map specifier = d.specifierOf? form)
    (ds : List Declaration) (body : List Char) :
    ((locatedFrom found 0 ds body).map fun l =>
        Reference.at (print ds ++ body) form l.start (specifier l.value)) =
      (referencesFrom 0 1 ds).filter (·.form = form) := by
  -- what is made of a find depends on its specifier only
  refine map_locatedFrom (fun text l => Reference.at text form l.start (specifier l.value))
    (fun d offset line => if d.shape.form = form then some (d.reference offset line) else none)
    (fun offset line ds => (referencesFrom offset line ds).filter (·.form = form))
    (fun before d rest => ?_) (fun _ _ => rfl) (fun offset line d ds => ?_) [] ds body
  · have hd := congrArg (Option.map (Reference.at (before ++ (d.line ++ rest)) form
      (byteLength before))) (hfound d (d.tail ++ rest))
    rw [Option.map_map] at hd
    refine hd.trans ?_
    unfold Declaration.specifierOf?
    split
    · rename_i hform
      rw [Option.map_some, Reference.at, lineOf_byteLength, Declaration.reference, hform]
    · rfl
  · rw [referencesFrom, List.filter_cons]
    by_cases hform : d.shape.form = form
    · simp [Declaration.reference, hform]
    · simp [Declaration.reference, hform]

/-- `terminatorSize` behind the closing quote is the size of what was printed there. -/
theorem Declaration.terminatorSize_tail (d : Declaration) (rest : List Char) :
    terminatorSize (d.tail ++ rest) = byteLength d.ending := by
  unfold tail ending
  split <;> rfl

/-- `Statement.ofFind` of the finds are the statements that `statementsFrom` has. -/
theorem map_ofFind_locatedFrom (ds : List Declaration) (body : List Char) :
    (locatedFrom (fun d rest => d.staticImport?.map fun found => (found, rest)) 0 ds body).map
        (Statement.ofFind (print ds ++ body)) = statementsFrom 0 1 ds := by
  refine map_locatedFrom Statement.ofFind Declaration.statement? statementsFrom
    (fun before d rest => ?_) (fun _ _ => rfl) (fun _ _ _ _ => rfl) [] ds body
  -- the printed statement ends with `Declaration.ending`
  have hchars : byteLength d.chars = byteLength d.head + byteLength d.ending := by
    simp [Declaration.chars, Declaration.head]
    omega
  cases hshape : d.shape with
  | binding typeOnly c =>
    simp only [Declaration.staticImport?, Declaration.statement?, hshape, Option.map_some,
      Statement.ofFind, bindingsOf_chars, lineOf_byteLength, d.terminatorSize_tail rest, hchars,
      Nat.add_assoc]
  | sideEffect => simp [Declaration.staticImport?, Declaration.statement?, hshape]
  | reExport e => simp [Declaration.staticImport?, Declaration.statement?, hshape]

/-! ## The order of references -/

/-- `referencesFrom` has no references in front of its offset. -/
theorem le_offset_of_mem_referencesFrom {offset line : Nat} {ds : List Declaration}
    {ref : Reference} (h : ref ∈ referencesFrom offset line ds) : offset ≤ ref.offset := by
  induction ds generalizing offset line with
  | nil => cases h
  | cons d ds ih =>
    rcases List.mem_cons.1 h with rfl | h
    · exact Nat.le_refl _
    · have := ih h
      omega

/-- `referencesFrom` is in the order of the offsets, which are all different. -/
theorem pairwise_referencesFrom (offset line : Nat) (ds : List Declaration) :
    (referencesFrom offset line ds).Pairwise fun a b => a.offset < b.offset := by
  induction ds generalizing offset line with
  | nil => exact .nil
  | cons d ds ih =>
    refine .cons (fun ref href => ?_) (ih _ _)
    have hle := le_offset_of_mem_referencesFrom href
    -- the line end alone takes a byte
    have hline : byteLength d.line = byteLength d.chars + 1 := by
      rw [Declaration.line, byteLength_append]
      rfl
    show offset < ref.offset
    omega

/-- `referencesFrom` has no calls. -/
theorem form_of_mem_referencesFrom {offset line : Nat} {ds : List Declaration} {ref : Reference}
    (h : ref ∈ referencesFrom offset line ds) : ref.form ≠ .require ∧ ref.form ≠ .dynamic := by
  induction ds generalizing offset line with
  | nil => cases h
  | cons d ds ih =>
    rcases List.mem_cons.1 h with rfl | h
    · show d.shape.form ≠ .require ∧ d.shape.form ≠ .dynamic
      cases d.shape <;> exact ⟨nofun, nofun⟩
    · exact ih h

/-- References without calls are those of the three forms of declarations, taken one form after the
    other. -/
theorem perm_filter_form {refs : List Reference}
    (h : ∀ ref ∈ refs, ref.form ≠ .require ∧ ref.form ≠ .dynamic) :
    (refs.filter (·.form = .static) ++ refs.filter (·.form = .sideEffect) ++
      refs.filter (·.form = .reExport)).Perm refs := by
  -- the first reference goes to the front of the part of its own form
  induction refs with
  | nil => exact .nil
  | cons ref refs ih =>
    have ih := ih fun a ha => h a (List.mem_cons_of_mem ref ha)
    have hform := h ref List.mem_cons_self
    cases hcase : ref.form with
    | static => simpa [List.filter_cons, hcase] using ih
    | sideEffect =>
      have hmiddle := (@List.perm_middle _ ref (refs.filter (·.form = .static))
        (refs.filter (·.form = .sideEffect) ++ refs.filter (·.form = .reExport))).trans
          ((List.append_assoc _ _ _ ▸ ih).cons ref)
      simpa [List.filter_cons, hcase] using hmiddle
    | reExport =>
      have hmiddle := (@List.perm_middle _ ref
        (refs.filter (·.form = .static) ++ refs.filter (·.form = .sideEffect))
        (refs.filter (·.form = .reExport))).trans (ih.cons ref)
      simpa [List.filter_cons, hcase] using hmiddle
    | require => exact absurd hcase hform.1
    | dynamic => exact absurd hcase hform.2

/-- The order by offsets is transitive, in the form in which `List.mergeSort` compares. -/
theorem offset_le_trans (a b c : Reference) (hab : decide (a.offset ≤ b.offset) = true)
    (hbc : decide (b.offset ≤ c.offset) = true) : decide (a.offset ≤ c.offset) = true := by
  simp only [decide_eq_true_eq] at *
  omega

/-- The order by offsets is total. -/
theorem offset_le_total (a b : Reference) :
    (decide (a.offset ≤ b.offset) || decide (b.offset ≤ a.offset)) = true := by
  simp only [Bool.or_eq_true, decide_eq_true_eq]
  omega

/-- `List.mergeSort` by offsets finds the order of references whose offsets are all different. -/
theorem mergeSort_eq_of_perm {found refs : List Reference} (hperm : found.Perm refs)
    (hrefs : refs.Pairwise fun a b => a.offset < b.offset) :
    found.mergeSort (fun a b => a.offset ≤ b.offset) = refs := by
  have hsorted := List.pairwise_mergeSort offset_le_trans offset_le_total found
  have hperm' := (List.mergeSort_perm found fun a b => a.offset ≤ b.offset).trans hperm
  have hnodup : (refs.map (·.offset)).Nodup := by
    rw [List.Nodup, List.pairwise_map]
    exact hrefs.imp Nat.ne_of_lt
  refine List.Perm.eq_of_pairwise (fun a b ha hb hab hba => ?_) hsorted
    (hrefs.imp fun h => decide_eq_true (Nat.le_of_lt h)) hperm'
  -- references at one offset are the same
  simp only [decide_eq_true_eq] at hab hba
  exact List.inj_on_of_nodup_map hnodup (hperm'.mem_iff.1 ha) hb (Nat.le_antisymm hab hba)

/-! ## References that repeat others -/

/-- `dropRepeated` takes some references away and leaves the others as they are. -/
theorem dropRepeated_sublist (last : Option Reference) (refs : List Reference) :
    (dropRepeated last refs).Sublist refs := by
  induction refs generalizing last with
  | nil => exact .slnil
  | cons ref refs ih =>
    rw [dropRepeated]
    split
    · exact (ih last).cons ref
    · exact (ih (some ref)).cons_cons ref

/-- One reference repeats nothing. -/
theorem dropRepeated_singleton (ref : Reference) : dropRepeated none [ref] = [ref] := rfl

/-- `dropRepeated` leaves references at different offsets as they are. -/
theorem dropRepeated_eq_self {last : Option Reference} {refs : List Reference}
    (hlast : ∀ a ∈ last, ∀ ref ∈ refs, a.offset < ref.offset)
    (hrefs : refs.Pairwise fun a b => a.offset < b.offset) : dropRepeated last refs = refs := by
  induction refs generalizing last with
  | nil => rfl
  | cons ref refs ih =>
    obtain ⟨hfirst, hrefs⟩ := List.pairwise_cons.1 hrefs
    -- a repeated reference would have the offset of the last one
    have hnew : last.any ref.repeats = false := by
      rw [Option.any_eq_false]
      intro a ha
      have hlt := hlast a ha ref List.mem_cons_self
      simp [Reference.repeats, Nat.ne_of_gt hlt]
    have hnext : ∀ a ∈ some ref, ∀ b ∈ refs, a.offset < b.offset := by
      rintro a ⟨⟩ b hb
      exact hfirst b hb
    rw [dropRepeated, hnew, if_neg (by simp), ih hnext hrefs]

/-- `extract` has only references that `referencesByForm` has. -/
theorem mem_referencesByForm {text : List Char} {ref : Reference}
    (h : ref ∈ (Extraction.ofChars text).references) : ref ∈ referencesByForm text :=
  List.mem_mergeSort.1 ((dropRepeated_sublist _ _).subset h)

/-! ## Reading back -/

section

variable {ds : List Declaration} (hds : ∀ d ∈ ds, d.specifier.ClosesLists) {body : List Char}
  (hbody : NoKeyword body)

include hds hbody

/-- `findAll` finds in a whole printed text only its declarations. -/
theorem Reads.findAll_print {α : Type} {r : Recogniser α}
    {found : Declaration → List Char → Option α} (h : Reads r found) :
    findAll r (print ds ++ body) = locatedFrom found 0 ds body :=
  h.findAllFrom_print hds hbody rfl 0

/-- `referencesBy` one of the forms of declarations gives the printed references of this form. -/
theorem referencesBy_print {form : Form} {r : Recogniser (List Char)}
    (h : Reads r fun d _ => d.specifierOf? form) :
    referencesBy (print ds ++ body) form r = (referencesFrom 0 1 ds).filter (·.form = form) := by
  rw [referencesBy, h.findAll_print hds hbody]
  exact map_referenceAt_locatedFrom id (fun d _ => Option.map_id_apply) ds body

/-- `referencesBy` one of the calls gives nothing. -/
theorem referencesBy_call {form : Form} {r : Recogniser (List Char)} (h : Reads r fun _ _ => none) :
    referencesBy (print ds ++ body) form r = [] := by
  -- no line adds a find
  have hnone : ∀ (offset : Nat) (ds : List Declaration),
      locatedFrom (fun _ _ => (none : Option (List Char))) offset ds body = [] := by
    intro offset ds
    induction ds generalizing offset with
    | nil => rfl
    | cons d ds ih => exact ih _
  rw [referencesBy, h.findAll_print hds hbody, hnone]
  rfl

/-- `referencesByForm` gives the printed references, one form after the other. -/
theorem referencesByForm_print :
    (referencesByForm (print ds ++ body)).Perm (referencesFrom 0 1 ds) := by
  -- for imports the specifier is part of what is found
  have hstatic : ((findAll static? (print ds ++ body)).map fun found =>
      Reference.at (print ds ++ body) .static found.start found.value.1.specifier) =
        (referencesFrom 0 1 ds).filter (·.form = .static) := by
    rw [reads_static?.findAll_print hds hbody]
    refine map_referenceAt_locatedFrom (fun found : StaticImport × List Char => found.1.specifier)
      (fun d rest => ?_) ds body
    cases hshape : d.shape <;>
      simp [Declaration.staticImport?, Declaration.specifierOf?, hshape, Shape.form]
  rw [referencesByForm, hstatic, referencesBy_print hds hbody reads_sideEffect?,
    referencesBy_print hds hbody reads_reExport?, referencesBy_call hds hbody reads_require?,
    referencesBy_call hds hbody reads_dynamic?, List.append_nil, List.append_nil]
  exact perm_filter_form fun _ => form_of_mem_referencesFrom

end

/-- Printed declarations are read back: each makes one reference with its specifier, its form and
    its line, and each import that binds names makes one statement with exactly these names, which
    reaches from the keyword to the `;`, if there is one. -/
theorem extract_print (ds : List Declaration) (hds : ∀ d ∈ ds, d.specifier.ClosesLists)
    (body : String) (hbody : NoKeyword body.toList) :
    extract (String.ofList (print ds) ++ body) =
      { references := referencesFrom 0 1 ds, statements := statementsFrom 0 1 ds } := by
  have htext : (String.ofList (print ds) ++ body).toList = print ds ++ body.toList := by simp
  have hreferences := mergeSort_eq_of_perm (referencesByForm_print hds hbody)
    (pairwise_referencesFrom 0 1 ds)
  -- printed references are at different offsets, so none is dropped
  have hkept : dropRepeated none (referencesFrom 0 1 ds) = referencesFrom 0 1 ds :=
    dropRepeated_eq_self (by simp) (pairwise_referencesFrom 0 1 ds)
  have hstatements : (findAll static? (print ds ++ body.toList)).map
      (Statement.ofFind (print ds ++ body.toList)) = statementsFrom 0 1 ds := by
    rw [reads_static?.findAll_print hds hbody]
    exact map_ofFind_locatedFrom ds body.toList
  rw [extract, htext, Extraction.ofChars, hreferences, hkept, hstatements]

/-- `Specifier.ClosesLists` holds of a specifier that opens no brace. -/
theorem Specifier.closesLists_of_not_mem {s : Specifier} (h : '{' ∉ s.chars) : s.ClosesLists := by
  intro before opening inside hchars _
  exact absurd (hchars ▸ by simp) h

/-- Declarations whose names are keywords and whose specifiers look like code. -/
def sampleDeclarations : List Declaration :=
  let as : Name := ⟨asWord, by decide⟩
  let source : Name := ⟨fromWord, by decide⟩
  let type : Name := ⟨typeWord, by decide⟩
  let code : Specifier := ⟨[';', 'i', 'm', 'p', 'o', 'r', 't', ' ', 'x', ' ', 'f', 'r', 'o', 'm'],
    by decide, List.all_iff_forall_prop.1 rfl⟩
  let call : Specifier := ⟨['r', 'e', 'q', 'u', 'i', 'r', 'e', '('],
    by decide, List.all_iff_forall_prop.1 rfl⟩
  [ { shape := .binding false (.default type), specifier := code, quote := '"'
      isQuote := rfl, ended := true },
    { shape := .binding true (.namespaceAlias (some source) type), specifier := call
      quote := '\'', isQuote := rfl, ended := false },
    { shape := .binding false (.named (some type)
        [⟨false, source, some type⟩, ⟨true, type, some as⟩]
        (by simp [ListItem.IsClear, source, show fromWord ≠ typeWord by decide]))
      specifier := code, quote := '"', isQuote := rfl, ended := true },
    { shape := .reExport (.allAs source (List.all_iff_forall_prop.1 rfl)), specifier := call
      quote := '\'', isQuote := rfl, ended := true },
    { shape := .sideEffect, specifier := code, quote := '"', isQuote := rfl, ended := false } ]

/-- Names that are keywords and specifiers that look like code are read back. -/
theorem extract_print_sampleDeclarations :
    (∀ d ∈ sampleDeclarations, d.specifier.ClosesLists) ∧ NoKeyword "run()".toList ∧
      extract (String.ofList (print sampleDeclarations) ++ "run()") =
        { references := referencesFrom 0 1 sampleDeclarations
          statements := statementsFrom 0 1 sampleDeclarations } := by
  have hlists : ∀ d ∈ sampleDeclarations, d.specifier.ClosesLists := by
    intro d hd
    refine Specifier.closesLists_of_not_mem ?_
    -- no specifier of the sample opens a list
    revert d
    decide
  have hbody : NoKeyword "run()".toList := by
    unfold NoKeyword
    decide
  exact ⟨hlists, hbody, extract_print sampleDeclarations hlists "run()" hbody⟩

/-- Declarations of which the first opens a list of re-exported names inside its specifier. -/
def openListDeclarations : List Declaration :=
  let a : Name := ⟨['a'], by decide⟩
  let b : Name := ⟨['b'], by decide⟩
  [ { shape := .binding false (.default a)
      specifier := ⟨['x', ';', 'e', 'x', 'p', 'o', 'r', 't', ' ', '{'], by decide,
        List.all_iff_forall_prop.1 rfl⟩
      quote := '\'', isQuote := rfl, ended := false },
    { shape := .reExport (.listed [⟨false, b, none⟩])
      specifier := ⟨['y'], by decide, List.all_iff_forall_prop.1 rfl⟩
      quote := '\'', isQuote := rfl, ended := false } ]

/-- The open list goes on up to the brace in the second line, and the re-export there is found at
    the place where the list was opened. -/
theorem extract_openListDeclarations :
    extract (String.ofList (print openListDeclarations) ++ "") ≠
      { references := referencesFrom 0 1 openListDeclarations
        statements := statementsFrom 0 1 openListDeclarations } := by
  intro h
  have htext : (String.ofList (print openListDeclarations) ++ "").toList =
      print openListDeclarations := by
    simp
  have hmem : (⟨"y", 27, 2, .reExport⟩ : Reference) ∈
      (extract (String.ofList (print openListDeclarations) ++ "")).references := by
    rw [h]
    decide
  -- before they are sorted, the references can be evaluated
  rw [extract, htext] at hmem
  replace hmem := mem_referencesByForm hmem
  revert hmem
  decide +kernel

end Deadwood.Import
