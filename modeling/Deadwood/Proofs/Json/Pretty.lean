import Deadwood.Proofs.Json.Reading

/-!
# Reading back indented lines

A new line and the blanks that indent it are passed over wherever `pretty` writes them, so a value
on indented lines is read back as the same value without white space is: `parse?_pretty`. Values
that hold no others are written alike; the items of an array and the members of an object are read
one after the other, each behind those that the reader has.
-/

namespace Deadwood.Json

namespace Reader

/-! ## New lines -/

/-- White space is passed over in this mode. -/
def PassesSpace (mode : Mode) : Prop := ∀ (frames : List Frame) (c : Char), isSpace c = true →
  (⟨frames, mode⟩ : Reader).step .any c = some ⟨frames, mode⟩

/-- `PassesSpace` before a value. -/
theorem passesSpace_value : PassesSpace .value := fun frames c hc => by
  simp [step, startValue, hc]

/-- `PassesSpace` behind the bracket that opens an array. -/
theorem passesSpace_firstItem : PassesSpace .firstItem := fun frames c hc => by
  simp [step, hc]

/-- `PassesSpace` before a name. -/
theorem passesSpace_name : PassesSpace .name := fun frames c hc => by
  simp [step, startName, hc]

/-- `PassesSpace` behind a value. -/
theorem passesSpace_next : PassesSpace .next := fun frames c hc => by
  simp [step, afterValue, hc]

/-- `PassesSpace` behind the brace that opens an object. -/
theorem passesSpace_firstName : PassesSpace .firstName := fun frames c hc => by
  have hclose : c ≠ '\x7d' := by
    rintro rfl
    cases hc
  simp [step, startName, hc, hclose]

/-- `Reader.read` passes over white space where one character of it is passed over. -/
theorem read_of_isSpace {mode : Mode} (h : PassesSpace mode) (frames : List Frame) {cs : List Char}
    (hcs : ∀ c ∈ cs, isSpace c = true) :
    (⟨frames, mode⟩ : Reader).read .any cs = some ⟨frames, mode⟩ := by
  induction cs with
  | nil => rfl
  | cons c cs ih =>
    rw [read_cons, h frames c (hcs c List.mem_cons_self), Option.bind_some]
    exact ih fun d hd => hcs d (List.mem_cons_of_mem c hd)

/-- `Reader.read` passes over a `newLine`. -/
theorem read_newLine {mode : Mode} (h : PassesSpace mode) (frames : List Frame) (level : Nat)
    (rest : List Char) :
    (⟨frames, mode⟩ : Reader).read .any (newLine level ++ rest) =
      (⟨frames, mode⟩ : Reader).read .any rest := by
  -- a line end and blanks
  have hspace : ∀ c ∈ newLine level, isSpace c = true := by
    intro c hc
    rcases List.mem_cons.1 hc with rfl | hc
    · rfl
    · rw [List.eq_of_mem_replicate hc]
      rfl
  rw [read_append, read_of_isSpace h frames hspace, Option.bind_some]

end Reader

/-! ## Values -/

/-- `prettyChars` start with a character that neither is white space nor closes an array. -/
theorem exists_prettyChars (level : Nat) (v : Json) :
    ∃ c cs, v.prettyChars level = c :: cs ∧ isSpace c = false ∧ c ≠ ']' := by
  cases v with
  | arr items => cases items <;> exact ⟨_, _, rfl, rfl, by decide⟩
  | obj members => cases members <;> exact ⟨_, _, rfl, rfl, by decide⟩
  | null => exact exists_chars .null
  | bool b => exact exists_chars (.bool b)
  | int n => exact exists_chars (.int n)
  | double f => exact exists_chars (.double f)
  | str s => exact exists_chars (.str s)

/-- `prettyItems` start with a character that ends a number. -/
theorem exists_prettyItems (level : Nat) (items : List Json) :
    ∃ c cs, prettyItems level items = c :: cs ∧ isNumberChar c = false := by
  cases items <;> exact ⟨_, _, rfl, rfl⟩

/-- `prettyMembers` start with a character that ends a number. -/
theorem exists_prettyMembers (level : Nat) (members : List (String × Json)) :
    ∃ c cs, prettyMembers level members = c :: cs ∧ isNumberChar c = false := by
  cases members <;> exact ⟨_, _, rfl, rfl⟩

namespace Reader

/-- The reader makes of the value on indented lines, inside others that are still open, what it
    makes of it without white space. -/
def PrettyRereads (v : Json) : Prop := ∀ (level : Nat) (frames : List Frame),
  ((⟨frames, .value⟩ : Reader).read .any (v.prettyChars level)).bind (settle .any) =
    (v.reread? frames.length).bind (finish frames)

/-- `Reader.read` of an item and those that follow it, behind the items that the reader has. -/
private theorem read_prettyChars_prettyItems {v : Json} (hv : PrettyRereads v) {rest : List Json}
    {level : Nat} {frames : List Frame} {done : List Json}
    (hrest : ∀ w,
      (⟨.array (w :: done) :: frames, .next⟩ : Reader).read .any (prettyItems level rest) =
      (rereadItems? (frames.length + 1) rest).bind fun items =>
        finish frames (.arr ((w :: done).reverse ++ items))) :
    (⟨.array done :: frames, .value⟩ : Reader).read .any
        (v.prettyChars (level + 1) ++ prettyItems level rest) =
      (rereadItems? (frames.length + 1) (v :: rest)).bind fun items =>
        finish frames (.arr (done.reverse ++ items)) := by
  -- whatever follows the item ends it, also if it is a number
  obtain ⟨c, cs, hcs, hc⟩ := exists_prettyItems level rest
  rw [hcs] at hrest ⊢
  rw [read_append_cons hc, hv, List.length_cons, rereadItems?, Option.bind_assoc, Option.bind_assoc]
  refine congrArg (Option.bind _) (funext fun w => ?_)
  rw [finish, Option.bind_some, hrest, Option.bind_map]
  refine congrArg (Option.bind _) (funext fun items => ?_)
  simp

/-- `Reader.read` of the items behind the first ones. -/
private theorem read_prettyItems (level : Nat) (frames : List Frame) (done : List Json)
    {rest : List Json} (h : ∀ w ∈ rest, PrettyRereads w) :
    (⟨.array done :: frames, .next⟩ : Reader).read .any (prettyItems level rest) =
      (rereadItems? (frames.length + 1) rest).bind fun items =>
        finish frames (.arr (done.reverse ++ items)) := by
  -- each item moves over to those that the reader has
  induction rest generalizing done with
  | nil =>
    have hclose : (⟨.array done :: frames, .next⟩ : Reader).read .any [']'] =
        (finish frames (.arr done.reverse)).bind some := rfl
    rw [prettyItems, read_newLine passesSpace_next, hclose, Option.bind_fun_some, rereadItems?,
      Option.bind_some, List.append_nil]
  | cons v rest ih =>
    have hcomma (cs : List Char) : (⟨.array done :: frames, .next⟩ : Reader).read .any (',' :: cs) =
        (⟨.array done :: frames, .value⟩ : Reader).read .any cs := rfl
    rw [prettyItems, List.cons_append, List.cons_append, hcomma, List.append_assoc,
      read_newLine passesSpace_value]
    exact read_prettyChars_prettyItems (h v List.mem_cons_self) fun w =>
      ih (w :: done) fun v hv => h v (List.mem_cons_of_mem _ hv)

/-- `Reader.read` of a member and those that follow it, behind the members that the reader has. -/
private theorem read_prettyChars_prettyMembers {name : String} {v : Json} (hv : PrettyRereads v)
    {rest : List (String × Json)} {level : Nat} {frames : List Frame} {done : List (String × Json)}
    (hrest : ∀ w, (⟨.object ((name, w) :: done) :: frames, .next⟩ : Reader).read .any
        (prettyMembers level rest) =
      (rereadMembers? (frames.length + 1) rest).bind fun members =>
        finish frames (.obj (((name, w) :: done).reverse ++ members))) :
    (⟨.object done :: frames, .name⟩ : Reader).read .any
        (quote name.toList ++
          ':' :: ' ' :: (v.prettyChars (level + 1) ++ prettyMembers level rest)) =
      (rereadMembers? (frames.length + 1) ((name, v) :: rest)).bind fun members =>
        finish frames (.obj (done.reverse ++ members)) := by
  have hblank (cs : List Char) :
      (⟨.member done name :: frames, .value⟩ : Reader).read .any (' ' :: cs) =
      (⟨.member done name :: frames, .value⟩ : Reader).read .any cs := rfl
  -- whatever follows the member ends its value, also if that is a number
  obtain ⟨c, cs, hcs, hc⟩ := exists_prettyMembers level rest
  rw [hcs] at hrest ⊢
  rw [read_name_colon (strict_any _), hblank, read_append_cons hc, hv, List.length_cons,
    rereadMembers?, Option.bind_assoc, Option.bind_assoc]
  refine congrArg (Option.bind _) (funext fun w => ?_)
  rw [finish, Option.bind_some, hrest, Option.bind_map]
  refine congrArg (Option.bind _) (funext fun members => ?_)
  simp

/-- `Reader.read` of the members behind the first ones. -/
private theorem read_prettyMembers (level : Nat) (frames : List Frame)
    (done : List (String × Json)) {rest : List (String × Json)}
    (h : ∀ m ∈ rest, PrettyRereads m.2) :
    (⟨.object done :: frames, .next⟩ : Reader).read .any (prettyMembers level rest) =
      (rereadMembers? (frames.length + 1) rest).bind fun members =>
        finish frames (.obj (done.reverse ++ members)) := by
  -- each member is on a line of its own, and the last line closes the object
  induction rest generalizing done with
  | nil =>
    have hclose : (⟨.object done :: frames, .next⟩ : Reader).read .any ['\x7d'] =
        (finish frames (.obj done.reverse)).bind some := rfl
    rw [prettyMembers, read_newLine passesSpace_next, hclose, Option.bind_fun_some, rereadMembers?,
      Option.bind_some, List.append_nil]
  | cons m rest ih =>
    obtain ⟨name, v⟩ := m
    have hcomma (cs : List Char) :
        (⟨.object done :: frames, .next⟩ : Reader).read .any (',' :: cs) =
        (⟨.object done :: frames, .name⟩ : Reader).read .any cs := rfl
    simp only [prettyMembers, List.cons_append, List.append_assoc]
    rw [hcomma, read_newLine passesSpace_name]
    exact read_prettyChars_prettyMembers (h (name, v) List.mem_cons_self) fun w =>
      ih ((name, w) :: done) fun m hm => h m (List.mem_cons_of_mem _ hm)

/-- `PrettyRereads` of an array with items, if all of them are so. -/
private theorem prettyRereads_arr {v : Json} {rest : List Json}
    (h : ∀ w ∈ v :: rest, PrettyRereads w) : PrettyRereads (.arr (v :: rest)) := by
  intro level frames
  have hopen (cs : List Char) : (⟨frames, .value⟩ : Reader).read .any ('[' :: cs) =
      (openFrame .any frames (.array []) .firstItem).bind fun r => r.read .any cs := rfl
  rw [prettyChars, List.cons_append, List.cons_append, hopen, List.append_assoc]
  simp only [openFrame, (strict_any frames).isPassed, Bool.false_or, decide_eq_true_eq, reread?]
  split
  · -- behind the bracket a `]` would be taken as well, but the first item starts otherwise
    obtain ⟨c, cs, hcs, hspace, hclose⟩ := exists_prettyChars (level + 1) v
    have hitems := read_prettyChars_prettyItems (h v List.mem_cons_self) fun w =>
      read_prettyItems level frames [w] fun v hv => h v (List.mem_cons_of_mem _ hv)
    rw [Option.bind_some, read_newLine passesSpace_firstItem]
    rw [hcs, List.cons_append] at hitems ⊢
    rw [read_firstItem _ hspace hclose, hitems, Option.bind_assoc, Option.bind_map]
    exact congrArg (Option.bind _) (funext fun items => finish_bind_settle frames _)
  · rfl

/-- `PrettyRereads` of an object with members, if all of their values are so. -/
private theorem prettyRereads_obj {name : String} {v : Json} {rest : List (String × Json)}
    (h : ∀ m ∈ (name, v) :: rest, PrettyRereads m.2) :
    PrettyRereads (.obj ((name, v) :: rest)) := by
  intro level frames
  have hopen (cs : List Char) : (⟨frames, .value⟩ : Reader).read .any ('\x7b' :: cs) =
      (openFrame .any frames (.object []) .firstName).bind fun r => r.read .any cs := rfl
  have hfirst (cs : List Char) :
      (⟨.object [] :: frames, .firstName⟩ : Reader).read .any (quote name.toList ++ cs) =
        (⟨.object [] :: frames, .name⟩ : Reader).read .any (quote name.toList ++ cs) := rfl
  simp only [prettyChars, List.cons_append, List.append_assoc]
  rw [hopen]
  simp only [openFrame, (strict_any frames).isPassed, Bool.false_or, decide_eq_true_eq, reread?]
  split
  · -- behind the brace a name is read as it is behind a comma
    have hmembers := read_prettyChars_prettyMembers (h (name, v) List.mem_cons_self) fun w =>
      read_prettyMembers level frames [(name, w)] fun m hm => h m (List.mem_cons_of_mem _ hm)
    rw [Option.bind_some, read_newLine passesSpace_firstName, hfirst, hmembers, Option.bind_assoc,
      Option.bind_map]
    exact congrArg (Option.bind _) (funext fun members => finish_bind_settle frames _)
  · rfl

/-- `PrettyRereads` of every value, by its structure. -/
theorem prettyRereads : ∀ v : Json, PrettyRereads v
  | .null => fun _ frames => rereads .null frames (strict_any frames)
  | .bool b => fun _ frames => rereads (.bool b) frames (strict_any frames)
  | .int n => fun _ frames => rereads (.int n) frames (strict_any frames)
  | .double f => fun _ frames => rereads (.double f) frames (strict_any frames)
  | .str s => fun _ frames => rereads (.str s) frames (strict_any frames)
  | .arr [] => fun _ frames => rereads (.arr []) frames (strict_any frames)
  | .arr (v :: rest) => prettyRereads_arr fun w _ => prettyRereads w
  | .obj [] => fun _ frames => rereads (.obj []) frames (strict_any frames)
  | .obj ((name, v) :: rest) => prettyRereads_obj fun m hm =>
    -- the value of a member is smaller than the object
    have : sizeOf m.2 < 1 + sizeOf ((name, v) :: rest) := by
      have := List.sizeOf_lt_of_mem hm
      have : sizeOf m = 1 + sizeOf m.1 + sizeOf m.2 := rfl
      omega
    prettyRereads m.2

end Reader

/-- `parse?` reads a value on indented lines as `reread?` says. -/
theorem parse?_pretty (v : Json) : parse? v.pretty = v.reread? 0 := by
  have hv := Reader.prettyRereads v 0 []
  rw [List.length_nil] at hv
  rw [pretty, parse?, parseAs?_ofList, Reader.start, hv]
  cases v.reread? 0 <;> rfl

end Deadwood.Json
