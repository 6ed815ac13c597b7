import Deadwood.Proofs.Import.Reading

/-!
# The spans of statements

What a recogniser finds is a piece of the text: it reads on from the place that it is given, and
what it leaves unread is the end of the text. A find is passed over whole, so that the next one is
looked for behind it (`exists_places`). So an import statement cuts its text into three pieces, what
stands before it, the statement, and the rest (`exists_pieces_of_mem_statements`), and its offsets
are places between characters (`isValid_of_mem_statements`).

The `;` that ends a statement is not passed over: the next find may start with it. But the next
keyword stands behind it, so that the statements do not overlap (`pairwise_statements`).
-/

namespace Deadwood.Import

open Text

/-! ## Places -/

/-- A find with the text before the place where it was found, and the text from there on. -/
structure Place (α : Type) where
  pre : List Char
  rest : List Char
  find : Find α

namespace Place

variable {α : Type}

/-- The text up to the end of the find. -/
def upTo (p : Place α) : List Char := p.pre ++ p.rest.take p.find.size

/-- The find with its offsets. -/
def located (p : Place α) : Located α :=
  ⟨byteLength p.pre + p.find.lead, byteLength p.upTo, p.find.value⟩

/-- The recogniser finds this at a place of the text. -/
structure Of (r : Recogniser α) (text : List Char) (p : Place α) : Prop where
  text_eq : text = p.pre ++ p.rest
  found : r p.pre.getLast? p.rest = some p.find

end Place

/-- `findAllFrom` behind the text `pre`, if `skip` more characters are passed over, gives finds at
    places. Each of them lies behind the text passed over and behind the find before. -/
theorem exists_places_from {α : Type} (r : Recogniser α) (pre : List Char) (skip : Nat)
    (text : List Char) :
    ∃ places : List (Place α),
      findAllFrom r skip pre.getLast? (byteLength pre) text = places.map Place.located ∧
      (∀ p ∈ places, p.Of r (pre ++ text) ∧ pre ++ text.take skip <+: p.pre) ∧
      places.Pairwise fun p q => p.upTo <+: q.pre := by
  -- the text moves over to `pre`, one character at a time
  induction text generalizing pre skip with
  | nil => exact ⟨[], by rw [findAllFrom]; rfl, by simp, .nil⟩
  | cons c cs ih =>
    have hlast : (pre ++ [c]).getLast? = some c := List.getLast?_concat
    have hbytes : byteLength (pre ++ [c]) = byteLength pre + c.utf8Size := by
      simp [byteLength_append]
    have htext : pre ++ [c] ++ cs = pre ++ c :: cs := by simp
    cases skip with
    | succ skip =>
      obtain ⟨places, hfinds, hplaces, hpairs⟩ := ih (pre ++ [c]) skip
      refine ⟨places, ?_, fun p hp => ?_, hpairs⟩
      · rw [findAllFrom, ← hfinds, hlast, hbytes]
      · simpa using hplaces p hp
    | zero =>
      -- whatever the next finds are, they do not start before `c` is passed
      have hpre {n : Nat} {p : Place α} (h : p.Of r (pre ++ [c] ++ cs) ∧
          pre ++ [c] ++ cs.take n <+: p.pre) : p.Of r (pre ++ c :: cs) ∧ pre <+: p.pre :=
        ⟨htext ▸ h.1, (List.prefix_append _ _).trans ((List.prefix_append _ _).trans h.2)⟩
      rw [List.take_zero, List.append_nil, findAllFrom]
      cases hfind : r pre.getLast? (c :: cs) with
      | none =>
        obtain ⟨places, hfinds, hplaces, hpairs⟩ := ih (pre ++ [c]) 0
        refine ⟨places, ?_, fun p hp => hpre (hplaces p hp), hpairs⟩
        rw [← hfinds, hlast, hbytes]
      | some f =>
        obtain ⟨places, hfinds, hplaces, hpairs⟩ := ih (pre ++ [c]) (f.size - 1)
        have hupTo : pre ++ (c :: cs).take f.size <+: pre ++ [c] ++ cs.take (f.size - 1) := by
          cases f.size with
          | zero => simp
          | succ n => simp
        refine ⟨⟨pre, c :: cs, f⟩ :: places, ?_, fun p hp => ?_, ?_⟩
        · rw [List.map_cons, ← hfinds, hlast, hbytes]
          simp [Place.located, Place.upTo]
        · rcases List.mem_cons.1 hp with rfl | hp
          · exact ⟨⟨rfl, hfind⟩, List.prefix_refl pre⟩
          · exact hpre (hplaces p hp)
        · exact List.pairwise_cons.2 ⟨fun q hq => hupTo.trans (hplaces q hq).2, hpairs⟩

/-- `findAll` gives finds at places of the text, and each place lies behind the find before. -/
theorem exists_places {α : Type} (r : Recogniser α) (text : List Char) :
    ∃ places : List (Place α), findAll r text = places.map Place.located ∧
      (∀ p ∈ places, p.Of r text) ∧ places.Pairwise fun p q => p.upTo <+: q.pre := by
  obtain ⟨places, hfinds, hplaces, hpairs⟩ := exists_places_from r [] 0 text
  exact ⟨places, hfinds, fun p hp => (hplaces p hp).1, hpairs⟩

/-! ## Places of forms -/

section

variable {α : Type} {form : Form} {specifier rest : List Char} {p q : Place α}

/-- What a form `Takes` goes from its keyword up to the text that is left. -/
theorem Takes.exists_pieces (h : Takes form p.pre.getLast? p.rest specifier rest p.find) :
    ∃ lead body, p.rest = lead ++ (form.keyword ++ body) ∧
      (form.isStatement = true → LeadsStatement p.pre.getLast? lead) ∧
      form.read body = some (specifier, rest) ∧
      p.located.start = byteLength (p.pre ++ lead) ∧ p.pre ++ p.rest = p.upTo ++ rest ∧
      p.pre ++ lead ++ form.keyword <+: p.upTo := by
  obtain ⟨lead, body, htext, hlead, hread, hstart, hsize⟩ := h
  obtain ⟨behind, hquotes, hrest⟩ := quotes_of_read hread
  obtain ⟨inside, hinside⟩ := hrest.trans hquotes.suffix
  -- the size of the find is that of the text in front of what is left
  have hcut : p.rest = lead ++ form.keyword ++ inside ++ rest := by
    rw [htext, ← hinside]
    simp
  have hupTo : p.upTo = p.pre ++ lead ++ form.keyword ++ inside := by
    have hlength : p.find.size = (lead ++ form.keyword ++ inside).length := by
      have := congrArg List.length hcut
      rw [List.length_append] at this
      omega
    rw [Place.upTo, hlength, hcut, List.take_left]
    simp
  refine ⟨lead, body, htext, hlead, hread, ?_, ?_, ?_⟩
  · rw [Place.located, hstart, byteLength_append]
  · rw [hupTo, hcut]
    simp
  · exact hupTo ▸ List.prefix_append _ inside

/-- `Form.keyword` is not empty. -/
theorem Form.byteLength_keyword_pos (form : Form) : 0 < byteLength form.keyword := by
  cases form <;> decide

/-- What a form `Takes` is not empty, as it has the keyword. -/
theorem Takes.start_lt_stop (h : Takes form p.pre.getLast? p.rest specifier rest p.find) :
    p.located.start < p.located.stop := by
  obtain ⟨lead, body, -, -, -, hstart, -, inside, hupTo⟩ := h.exists_pieces
  have hkeyword := form.byteLength_keyword_pos
  have hstop : p.located.stop = byteLength p.upTo := rfl
  rw [hstart, hstop, ← hupTo]
  simp only [byteLength_append]
  omega

/-- A place behind a find starts where the find stops, or later. -/
theorem Place.stop_le_start (h : p.upTo <+: q.pre) : p.located.stop ≤ q.located.start := by
  obtain ⟨mid, hmid⟩ := h
  simp only [Place.located, ← hmid, byteLength_append]
  omega

end

/-! ## Statements -/

/-- `terminatorSize` is the size of a piece of the text, as its characters are one byte each. -/
theorem exists_of_terminatorSize (rest : List Char) :
    ∃ ending post, rest = ending ++ post ∧ byteLength ending = terminatorSize rest := by
  unfold terminatorSize
  split
  · rename_i post hpost
    refine ⟨rest.takeWhile isBlank ++ [';'], post, ?_, ?_⟩
    · rw [List.append_assoc, List.singleton_append, ← hpost, List.takeWhile_append_dropWhile]
    · rw [byteLength_append, byteLength_of_isBlank fun _ => List.mem_takeWhile_imp]
      rfl
  · exact ⟨[], rest, rfl, rfl⟩

/-- `terminatorSize` goes no further than to the first character that is not blank. -/
theorem terminatorSize_append_le {front : List Char} (h : ∃ c ∈ front, isBlank c = false)
    (rest : List Char) : terminatorSize (front ++ rest) ≤ byteLength front := by
  -- blanks stop before that character, which is a byte at least
  have htake : ((front ++ rest).takeWhile isBlank).length + 1 ≤ byteLength front := by
    induction front with
    | nil => simp at h
    | cons c cs ih =>
      have hpos := c.utf8Size_pos
      rw [List.cons_append, List.takeWhile_cons, byteLength_cons]
      split
      · rename_i hc
        obtain ⟨d, hd, hblank⟩ := h
        have hne : d ≠ c := fun heq => by simp [heq, hc] at hblank
        have hcs := ih ⟨d, List.mem_of_ne_of_mem hne hd, hblank⟩
        rw [List.length_cons]
        omega
      · rw [List.length_nil]
        omega
  unfold terminatorSize
  split
  · exact htake
  · exact Nat.zero_le _

/-- `LeadsStatement`: from inside a line to the next keyword of a statement there is a `;` or a line
    end. -/
theorem LeadsStatement.exists_not_isBlank {pre mid lead : List Char}
    (h : LeadsStatement (pre ++ mid).getLast? lead) (hpre : ∃ c, pre.getLast? = some c ∧ c ≠ '\n') :
    ∃ c ∈ mid ++ lead, isBlank c = false := by
  obtain ⟨blanks, -, rfl | ⟨-, hline⟩⟩ := h
  · exact ⟨';', by simp, rfl⟩
  · -- the line end is the last character in front of the blanks
    rcases List.eq_nil_or_concat mid with rfl | ⟨mid, d, rfl⟩
    · obtain ⟨c, hc, hne⟩ := hpre
      rw [List.append_nil, hc] at hline
      exact absurd (by simpa using hline) hne
    · have hd : d = '\n' := by simpa using hline
      exact ⟨'\n', by simp [hd], rfl⟩

section

variable {text : List Char} {p q : Place (StaticImport × List Char)}

/-- `Statement.ofFind` spans a piece of the text that ends behind its closing quote or `;`. -/
theorem Place.Of.exists_pieces (h : p.Of static? text) :
    ∃ pre inside post, text = pre ++ inside ++ post ∧ inside ≠ [] ∧
      (Statement.ofFind text p.located).start = byteLength pre ∧
      (Statement.ofFind text p.located).stop = byteLength (pre ++ inside) := by
  obtain ⟨lead, body, -, -, -, hstart, htext, inside, hupTo⟩ :=
    (takes_static? h.found).exists_pieces
  obtain ⟨ending, post, hending, hsize⟩ := exists_of_terminatorSize p.find.value.2
  refine ⟨p.pre ++ lead, Form.static.keyword ++ inside ++ ending, post, ?_, ?_, hstart, ?_⟩
  · rw [h.text_eq, htext, ← hupTo, hending]
    simp
  · simp [Form.keyword, importWord]
  · -- the find stops behind the closing quote, the statement behind what ends it
    have hstop : (Statement.ofFind text p.located).stop =
        byteLength p.upTo + terminatorSize p.find.value.2 := rfl
    rw [hstop, ← hsize, ← hupTo]
    simp only [byteLength_append]
    omega

/-- `static?` finds end in a closing quote. -/
theorem Place.Of.getLast?_upTo (h : p.Of static? text) :
    ∃ c, p.upTo.getLast? = some c ∧ c ≠ '\n' := by
  obtain ⟨lead, body, hrest, -, hread, -, htext, -⟩ := (takes_static? h.found).exists_pieces
  obtain ⟨front, opening, closing, hbody, -, hclosing, -⟩ := quotes_of_read_static hread
  have hupTo : p.upTo = (p.pre ++ lead ++ Form.static.keyword ++ front ++
      opening :: p.find.value.1.specifier) ++ [closing] := by
    refine (List.append_left_inj p.find.value.2).1 (htext.symm.trans ?_)
    rw [hrest, hbody]
    simp
  refine ⟨closing, by rw [hupTo, List.getLast?_concat], ?_⟩
  rintro rfl
  cases hclosing

/-- `Statement.ofFind`: whatever ends a statement stands before the keyword of the next one. -/
theorem Place.Of.stop_le_start (hp : p.Of static? text) (hq : q.Of static? text)
    (h : p.upTo <+: q.pre) :
    (Statement.ofFind text p.located).stop ≤ (Statement.ofFind text q.located).start := by
  obtain ⟨mid, hmid⟩ := h
  obtain ⟨-, -, -, -, -, -, htext, -⟩ := (takes_static? hp.found).exists_pieces
  obtain ⟨lead, body, hrest, hlead, -, hstart, -⟩ := (takes_static? hq.found).exists_pieces
  -- what the first find leaves goes over the keyword of the second one
  have hbehind : p.find.value.2 = (mid ++ lead) ++ (Form.static.keyword ++ body) := by
    refine (List.append_right_inj p.upTo).1 ?_
    rw [← htext, ← hp.text_eq, hq.text_eq, hrest, ← hmid]
    simp
  have hblank := LeadsStatement.exists_not_isBlank (hmid ▸ hlead rfl) hp.getLast?_upTo
  have hle := terminatorSize_append_le hblank (Form.static.keyword ++ body)
  rw [← hbehind] at hle
  calc (Statement.ofFind text p.located).stop
      = byteLength p.upTo + terminatorSize p.find.value.2 := rfl
    _ ≤ byteLength p.upTo + byteLength (mid ++ lead) := Nat.add_le_add_left hle _
    _ = byteLength (q.pre ++ lead) := by simp [← hmid]
    _ = (Statement.ofFind text q.located).start := hstart.symm

end

/-- `extract` gives statements that are pieces of the text. -/
theorem exists_pieces_of_mem_statements {text : String} {s : Statement}
    (h : s ∈ (extract text).statements) :
    ∃ pre inside post, text.toList = pre ++ inside ++ post ∧ inside ≠ [] ∧
      s.start = byteLength pre ∧ s.stop = byteLength (pre ++ inside) := by
  obtain ⟨found, hfound, rfl⟩ := List.mem_map.1 h
  obtain ⟨places, hfinds, hplaces, -⟩ := exists_places static? text.toList
  rw [hfinds] at hfound
  obtain ⟨p, hp, rfl⟩ := List.mem_map.1 hfound
  exact (hplaces p hp).exists_pieces

/-- `extract` gives statements that end before the next one starts. -/
theorem pairwise_statements (text : String) :
    (extract text).statements.Pairwise fun s t => s.stop ≤ t.start := by
  obtain ⟨places, hfinds, hplaces, hpairs⟩ := exists_places static? text.toList
  rw [extract, Extraction.ofChars, hfinds, List.map_map, List.pairwise_map]
  exact hpairs.imp_of_mem fun hp hq h => (hplaces _ hp).stop_le_start (hplaces _ hq) h

/-! ## Offsets between characters -/

/-- `byteLength` is the size of the text in UTF-8. -/
theorem utf8ByteSize_ofList (cs : List Char) : (String.ofList cs).utf8ByteSize = byteLength cs := by
  induction cs with
  | nil => rfl
  | cons c cs ih =>
    rw [← List.singleton_append, String.ofList_append, String.utf8ByteSize_append, ih]
    simp

/-- The size of a first part of a text is a place between characters. -/
theorem isValid_of_toList_eq {text : String} {pre post : List Char}
    (h : text.toList = pre ++ post) : String.Pos.Raw.IsValid text ⟨byteLength pre⟩ := by
  refine String.Pos.Raw.isValid_iff_exists_append.2 ⟨String.ofList pre, String.ofList post, ?_, ?_⟩
  · rw [← String.ofList_append, ← h, String.ofList_toList]
  · rw [← utf8ByteSize_ofList]
    rfl

/-- `extract` gives statements that start and stop between characters, and do not stop before they
    start. -/
theorem isValid_of_mem_statements {text : String} {s : Statement}
    (h : s ∈ (extract text).statements) :
    s.start ≤ s.stop ∧ String.Pos.Raw.IsValid text ⟨s.start⟩ ∧
      String.Pos.Raw.IsValid text ⟨s.stop⟩ := by
  obtain ⟨pre, inside, post, htext, -, hstart, hstop⟩ := exists_pieces_of_mem_statements h
  refine ⟨?_, ?_, ?_⟩
  · rw [hstart, hstop, byteLength_append]
    exact Nat.le_add_right _ _
  · rw [hstart]
    exact isValid_of_toList_eq (htext.trans (List.append_assoc _ _ _))
  · rw [hstop]
    exact isValid_of_toList_eq htext

end Deadwood.Import
