import Deadwood.Json.Parser
import Deadwood.Json.Printer

/-!
# Reading back what was written

The reader takes one character after the other, so what it makes of a written value can be told
value by value: texts come back as they were, and arrays and objects do if what they hold does.
Only a number may come back as another value (one that does not fit into 64 bits), and a value may
be refused for being nested too deep. `Json.reread?` says what is read back, and `parse?_render`
that this is what the reader does.
-/

namespace Deadwood.Json

/-! ## Numbers -/

/-- `digitsValue` reads decimal digits back. -/
theorem digitsValue_toDigits (n : Nat) : digitsValue (Nat.toDigits 10 n) = n := by
  have hfold : ∀ (cs : List Char) (m : Nat),
      cs.foldl (fun n c => n * 10 + (c.toNat - 48)) m = Nat.ofDigitChars 10 cs m := by
    intro cs
    induction cs with
    | nil => exact fun _ => rfl
    | cons c cs ih =>
      intro m
      rw [List.foldl_cons, ih, Nat.ofDigitChars_cons, Nat.mul_comm]
      rfl
  rw [digitsValue, hfold, Nat.ofDigitChars_toDigits (by decide) (by decide)]

/-- The digits of a positive number do not start with a zero. -/
theorem toDigits_eq_cons {n : Nat} (hn : 0 < n) :
    ∃ c cs, Nat.toDigits 10 n = c :: cs ∧ c ≠ '0' := by
  induction n using Nat.strongRecOn with
  | ind n ih =>
    rw [Nat.toDigits_eq_if (by decide)]
    -- the first digit is the only one, or that of the number without its last digit
    split
    · rename_i hlt
      refine ⟨_, [], rfl, ?_⟩
      have hdigit : ∀ m < 10, 0 < m → m.digitChar ≠ '0' := by decide
      exact hdigit n hlt hn
    · obtain ⟨c, cs, hcs, hc⟩ := ih (n / 10) (by omega) (by omega)
      exact ⟨c, cs ++ [(n % 10).digitChar], by rw [hcs]; rfl, hc⟩

/-- `Nat.toDigits` in base ten are digits. -/
theorem all_isDigit_toDigits (n : Nat) : (Nat.toDigits 10 n).all Char.isDigit = true :=
  List.all_eq_true.2 fun _ hc => Nat.isDigit_of_mem_toDigits (by decide) (by decide) hc

/-- `splitDigits` stops behind the digits of a number. -/
theorem splitDigits_toDigits (n : Nat) {rest : List Char}
    (hrest : ∀ c ∈ rest.head?, c.isDigit = false) :
    splitDigits (Nat.toDigits 10 n ++ rest) = (Nat.toDigits 10 n, rest) := by
  have hall : ∀ c ∈ Nat.toDigits 10 n, c.isDigit = true :=
    List.all_eq_true.1 (all_isDigit_toDigits n)
  unfold splitDigits
  rw [List.takeWhile_append_of_pos hall, List.dropWhile_append_of_pos hall]
  cases rest with
  | nil => rw [List.takeWhile_nil, List.dropWhile_nil, List.append_nil]
  | cons c rest =>
    have hc : ¬ c.isDigit = true := by simpa using hrest c rfl
    rw [List.takeWhile_cons_of_neg hc, List.dropWhile_cons_of_neg hc, List.append_nil]

/-- `whole?` takes the digits of a number, since these have no needless zeros. -/
theorem whole?_toDigits (n : Nat) {rest : List Char}
    (hrest : ∀ c ∈ rest.head?, c.isDigit = false) :
    whole? (Nat.toDigits 10 n ++ rest) = some (Nat.toDigits 10 n, rest) := by
  unfold whole?
  rw [splitDigits_toDigits n hrest]
  -- no digits, a zero with more digits behind it, and all other numbers
  split
  · rename_i hnil
    exact absurd (Prod.mk.inj hnil).1 Nat.toDigits_ne_nil
  · rename_i hzero
    have hdigits := (Prod.mk.inj hzero).1
    rcases Nat.eq_zero_or_pos n with rfl | hpos
    · simp at hdigits
    · obtain ⟨c, cs, hcs, hc⟩ := toDigits_eq_cons hpos
      rw [hcs] at hdigits
      exact absurd (List.cons.inj hdigits).1 hc
  · rfl

/-- `numberParts?` reads digits without a sign. -/
theorem numberParts?_toDigits (n : Nat) :
    numberParts? (Nat.toDigits 10 n) = some ⟨false, Nat.toDigits 10 n, [], none⟩ := by
  -- digits do not start with a sign
  have hsign : ∀ cs, Nat.toDigits 10 n ≠ '-' :: cs := by
    intro cs hcs
    have hc :=
      List.all_eq_true.1 (all_isDigit_toDigits n) '-' (by rw [hcs]; exact List.mem_cons_self)
    exact absurd hc (by decide)
  have hwhole := @whole?_toDigits n [] (by simp)
  rw [List.append_nil] at hwhole
  unfold numberParts?
  split
  rename_i negative cs heq
  split at heq
  · rename_i hcs
    exact absurd hcs (hsign _)
  · cases heq
    simp only [hwhole, fraction?, power?, Option.bind_eq_bind, Option.bind_some]

/-- `numberParts?` reads a sign and digits as a negative number. -/
theorem numberParts?_neg_toDigits (n : Nat) :
    numberParts? ('-' :: Nat.toDigits 10 n) = some ⟨true, Nat.toDigits 10 n, [], none⟩ := by
  have hwhole := @whole?_toDigits n [] (by simp)
  rw [List.append_nil] at hwhole
  simp only [numberParts?, hwhole, fraction?, power?, Option.bind_eq_bind, Option.bind_some]

/-- `number?` reads a whole number of at most 64 bits back. -/
theorem number?_intChars {n : Int} (hlow : -0x8000000000000000 ≤ n)
    (hhigh : n < 0x10000000000000000) :
    number? (intChars n) = some (.int n) := by
  -- positive numbers go up to 2^64 and negative ones down to -2^63
  cases n with
  | ofNat k =>
    have hk : k < 0x10000000000000000 := by
      have : (k : Int) < 0x10000000000000000 := hhigh
      omega
    rw [intChars, number?, numberParts?_toDigits, Option.bind_some, numberOf, digitsValue_toDigits]
    simp only [hk, List.isEmpty_nil, Option.isNone_none, Bool.and_true, decide_true,
      Bool.false_eq_true, if_false, if_true]
    rfl
  | negSucc k =>
    have hk : k + 1 ≤ 0x8000000000000000 := by omega
    have hpos : 0 < k + 1 := by omega
    rw [intChars, number?, numberParts?_neg_toDigits, Option.bind_some, numberOf,
      digitsValue_toDigits]
    simp only [hk, hpos, List.isEmpty_nil, Option.isNone_none, Bool.and_true, decide_true, if_true]
    rfl

/-- `Layout.any` passes over nothing. -/
theorem Layout.passes_any (inner : List Frame) : Layout.any.passes inner = false := by
  simp [passes]

namespace Reader

/-- Takes characters one after the other. -/
def read (layout : Layout) (r : Reader) (cs : List Char) : Option Reader :=
  cs.foldlM (step layout) r

/-- Nothing inside the frames is passed over. -/
def Strict (layout : Layout) (frames : List Frame) : Prop :=
  ∀ inner, layout.passes (frames.reverse ++ inner) = false

/-- `Strict` holds where a value of any kind is read. -/
theorem strict_any (frames : List Frame) : Strict .any frames := fun _ => Layout.passes_any _

/-- `isPassed` holds of no member outside of all frames. -/
theorem isPassed_nil (layout : Layout) : isPassed layout [] = false := by
  cases layout <;> rfl

variable {layout : Layout}

/-- `Strict` frames are not passed over themselves. -/
theorem Strict.isPassed {frames : List Frame} (h : Strict layout frames) :
    Reader.isPassed layout frames = false := by
  simpa [Reader.isPassed] using h []

/-- `Strict` is kept by further frames, which are inside the outer ones. -/
theorem Strict.cons {frames : List Frame} (h : Strict layout frames) (f : Frame) :
    Strict layout (f :: frames) := fun inner => by
  rw [List.reverse_cons, List.append_assoc]
  exact h _

/-- `Reader.read` of no characters. -/
@[simp] theorem read_nil (r : Reader) : r.read layout [] = some r := rfl

/-- `Reader.read` takes the first character by `Reader.step`. -/
@[simp] theorem read_cons (r : Reader) (c : Char) (cs : List Char) :
    r.read layout (c :: cs) = (r.step layout c).bind fun r => r.read layout cs := rfl

/-- `Reader.read` of two parts, one after the other. -/
theorem read_append (r : Reader) (cs ds : List Char) :
    r.read layout (cs ++ ds) = (r.read layout cs).bind fun r => r.read layout ds :=
  List.foldlM_append

/-! ## Texts -/

/-- `hexValue?` reads the two digits of a control character back. -/
private theorem hexValue?_hexPair :
    ∀ n < 32, ∃ a b, Text.hexPair n.toUInt8 = [a, b] ∧ hexValue? a = some (n / 16) ∧
      hexValue? b = some (n % 16) :=
  fun n hn => ⟨_, _, rfl, by revert n; decide, by revert n; decide⟩

/-- `Reader.read` of what `escapeChar` writes adds the character to a text. -/
theorem read_escapeChar {frames : List Frame} (hframes : Strict layout frames) (isName : Bool)
    (done : List Char) (c : Char) :
    (⟨frames, .text isName done .none⟩ : Reader).read layout (escapeChar c) =
      some ⟨frames, .text isName (c :: done) .none⟩ := by
  -- a case for each branch of the printer, in its order; only the last two take a computation
  unfold escapeChar
  split
  · rename_i h
    subst h
    rfl
  split
  · rename_i h
    subst h
    rfl
  split
  · rename_i h
    subst h
    rfl
  split
  · rename_i h
    subst h
    rfl
  split
  · rename_i h
    subst h
    rfl
  split
  · rename_i h
    rw [← Char.ofNat_toNat c, h]
    rfl
  split
  · rename_i h
    rw [← Char.ofNat_toNat c, h]
    rfl
  split
  · rename_i h
    -- `\u00` and two digits, which are far below the surrogates
    obtain ⟨a, b, hab, ha, hb⟩ := hexValue?_hexPair c.toNat h
    have hvalue : c.toNat / 16 * 16 + c.toNat % 16 = c.toNat := by omega
    have hzero : hexValue? '0' = some 0 := rfl
    have hlow : ¬ (0xD800 ≤ c.toNat ∧ c.toNat < 0xDC00) := by omega
    have hhigh : ¬ (0xDC00 ≤ c.toNat ∧ c.toNat < 0xE000) := by omega
    rw [hab]
    simp [step, inText, hzero, ha, hb, hvalue, finishDigits, hlow, hhigh, hframes.isPassed]
  · rename_i hquote hslash _ _ _ _ _ hctl
    simp [step, inText, hquote, hslash, hctl]

/-- `Reader.read` of an escaped text adds all of its characters. -/
theorem read_escaped {frames : List Frame} (hframes : Strict layout frames) (isName : Bool)
    (done cs : List Char) :
    (⟨frames, .text isName done .none⟩ : Reader).read layout (cs.flatMap escapeChar) =
      some ⟨frames, .text isName (cs.reverse ++ done) .none⟩ := by
  induction cs generalizing done with
  | nil => rfl
  | cons c cs ih =>
    rw [List.flatMap_cons, read_append, read_escapeChar hframes, Option.bind_some, ih,
      List.reverse_cons, List.append_assoc]
    rfl

/-- `Reader.read` of an escaped text and a quote completes the text. -/
private theorem read_quoted {frames : List Frame} (hframes : Strict layout frames) (isName : Bool)
    (s : String) :
    (⟨frames, .text isName [] .none⟩ : Reader).read layout (s.toList.flatMap escapeChar ++ ['"']) =
      finishText frames isName s.toList.reverse := by
  rw [read_append, read_escaped hframes, List.append_nil, Option.bind_some, read_cons]
  show (finishText frames isName s.toList.reverse).bind some = _
  rw [Option.bind_fun_some]

/-- `Reader.read` of what `quote` writes completes a text as a value. -/
theorem read_quote_value {frames : List Frame} (hframes : Strict layout frames) (s : String) :
    (⟨frames, .value⟩ : Reader).read layout (quote s.toList) = finish frames (.str s) := by
  show (⟨frames, .text false [] .none⟩ : Reader).read layout
    (s.toList.flatMap escapeChar ++ ['"']) = _
  rw [read_quoted hframes]
  simp only [finishText, List.reverse_reverse, String.ofList_toList, Bool.false_eq_true, if_false]

/-- `Reader.read` of what `quote` writes completes a text as a name. -/
theorem read_quote_name {frames : List Frame} {members : List (String × Json)}
    (hframes : Strict layout (.object members :: frames)) (s : String) :
    (⟨.object members :: frames, .name⟩ : Reader).read layout (quote s.toList) =
      some ⟨.member members s :: frames, .colon⟩ := by
  show (⟨.object members :: frames, .text true [] .none⟩ : Reader).read layout
    (s.toList.flatMap escapeChar ++ ['"']) = _
  rw [read_quoted hframes]
  simp only [finishText, List.reverse_reverse, String.ofList_toList, if_true]

/-! ## Completing a number

The end of a number is only seen at the character behind it. -/

/-- The reader with a number that is being read taken for complete. -/
def settle (layout : Layout) (r : Reader) : Option Reader :=
  match r.mode with
  | .number done => (finishNumber layout r.frames done).bind (finish r.frames)
  | _ => some r

/-- `settle` does nothing behind a value. -/
theorem finish_bind_settle (frames : List Frame) (v : Json) :
    (finish frames v).bind (settle layout) = finish frames v := by
  unfold finish
  split <;> rfl

/-- `Reader.step` completes a number if the character is not part of one. -/
theorem step_eq_settle_bind {c : Char} (hc : isNumberChar c = false) (r : Reader) :
    r.step layout c = (r.settle layout).bind fun r => r.step layout c := by
  obtain ⟨frames, mode⟩ := r
  cases mode with
  | number done =>
    simp only [step, hc, settle, Bool.false_eq_true, if_false]
    cases finishNumber layout frames done with
    | none => rfl
    | some v =>
      rw [Option.bind_some]
      -- inside of every frame, and outside of all
      unfold finish
      split <;> rfl
  | _ => rfl

/-- `Reader.read` completes a value, where the first character behind it is not part of a number. -/
theorem read_append_cons {c : Char} (hc : isNumberChar c = false) (r : Reader)
    (cs rest : List Char) :
    r.read layout (cs ++ c :: rest) =
      ((r.read layout cs).bind (settle layout)).bind fun r => r.read layout (c :: rest) := by
  rw [read_append, Option.bind_assoc]
  refine congrArg (Option.bind _) (funext fun r => ?_)
  rw [read_cons, step_eq_settle_bind hc, Option.bind_assoc]
  rfl

/-- `result?` is not changed by completing a number before. -/
theorem result?_eq_settle_bind (r : Reader) : r.result? = (r.settle layout).bind result? := by
  obtain ⟨frames, mode⟩ := r
  cases mode with
  | number done =>
    simp only [settle]
    cases frames with
    | nil =>
      -- the outermost value is never passed over
      rw [finishNumber, isPassed_nil, if_neg Bool.false_ne_true]
      cases hnumber : number? done.reverse <;> simp [result?, hnumber, finish]
    | cons f frames =>
      cases finishNumber layout (f :: frames) done with
      | none => rfl
      | some v => cases f <;> rfl
  | _ => rfl

/-- `Reader.read` collects the characters of a number. -/
private theorem read_number (frames : List Frame) (done : List Char) {cs : List Char}
    (hcs : ∀ c ∈ cs, isNumberChar c = true) :
    (⟨frames, .number done⟩ : Reader).read layout cs =
      some ⟨frames, .number (cs.reverse ++ done)⟩ := by
  induction cs generalizing done with
  | nil => rfl
  | cons c cs ih =>
    have hstep :
        (⟨frames, .number done⟩ : Reader).step layout c = some ⟨frames, .number (c :: done)⟩ := by
      simp only [step, hcs c List.mem_cons_self, if_true]
    rw [read_cons, hstep, Option.bind_some, ih _ fun d hd => hcs d (List.mem_cons_of_mem c hd),
      List.reverse_cons, List.append_assoc]
    rfl

/-- May the character be the first one of a number? -/
def isNumberStart (c : Char) : Bool := c == '-' || c.isDigit

/-- `isNumberStart` tells characters apart. -/
theorem ne_of_isNumberStart {c : Char} (hc : isNumberStart c = true) :
    ∀ d, isNumberStart d = false → c ≠ d := by
  rintro d hd rfl
  rw [hc] at hd
  cases hd

/-- `isNumberStart` takes no white space. -/
theorem isSpace_of_isNumberStart {c : Char} (hc : isNumberStart c = true) : isSpace c = false := by
  have hne := ne_of_isNumberStart hc
  simp [isSpace, hne ' ' rfl, hne '\n' rfl, hne '\r' rfl, hne '\t' rfl]

/-- `startValue` starts a number, and nothing else, where `isNumberStart` holds. -/
private theorem startValue_of_isNumberStart (frames : List Frame) {c : Char}
    (hc : isNumberStart c = true) : startValue layout frames c = some ⟨frames, .number [c]⟩ := by
  have hne := @ne_of_isNumberStart c hc
  have hstart : (c == '-' || c.isDigit) = true := hc
  simp [startValue, isSpace_of_isNumberStart hc, hne '[' rfl, hne '\x7b' rfl, hne '"' rfl, hstart]

/-- `Reader.read` of the characters of a number gives the number that they are. -/
theorem read_number_value {frames : List Frame} (hframes : Strict layout frames) {c : Char}
    {cs : List Char} (hc : isNumberStart c = true) (hcs : ∀ d ∈ cs, isNumberChar d = true) :
    ((⟨frames, .value⟩ : Reader).read layout (c :: cs)).bind (settle layout) =
      (number? (c :: cs)).bind (finish frames) := by
  rw [read_cons]
  show ((startValue layout frames c).bind _).bind (settle layout) = _
  rw [startValue_of_isNumberStart frames hc, Option.bind_some, read_number frames [c] hcs,
    Option.bind_some]
  simp only [settle, finishNumber, hframes.isPassed, Bool.false_eq_true, if_false,
    List.reverse_append, List.reverse_reverse, List.reverse_cons, List.reverse_nil,
    List.nil_append, List.singleton_append]

end Reader

/-! ## Values -/

/-- `intChars` start a number, and go on with characters of numbers. -/
theorem exists_intChars (n : Int) :
    ∃ c cs, intChars n = c :: cs ∧ Reader.isNumberStart c = true ∧
      ∀ d ∈ cs, isNumberChar d = true := by
  have hdigit : ∀ k : Nat, ∀ d ∈ Nat.toDigits 10 k, d.isDigit = true := fun k =>
    List.all_eq_true.1 (all_isDigit_toDigits k)
  -- a number starts with a digit, or with the sign of a negative one
  cases n with
  | ofNat k =>
    obtain ⟨c, cs, hcs⟩ := List.exists_cons_of_ne_nil (Nat.toDigits_ne_nil (n := k) (b := 10))
    have hall := hdigit k
    rw [hcs] at hall
    refine ⟨c, cs, hcs, ?_, fun d hd => ?_⟩
    · simp [Reader.isNumberStart, hall c List.mem_cons_self]
    · simp [isNumberChar, hall d (List.mem_cons_of_mem c hd)]
  | negSucc k =>
    refine ⟨'-', Nat.toDigits 10 (k + 1), rfl, rfl, fun d hd => ?_⟩
    simp [isNumberChar, hdigit (k + 1) d hd]

/-- `intChars` are characters of numbers. -/
theorem isNumberChar_of_mem_intChars {n : Int} {d : Char} (hd : d ∈ intChars n) :
    isNumberChar d = true := by
  obtain ⟨c, cs, h, hc, hcs⟩ := exists_intChars n
  rw [h] at hd
  rcases List.mem_cons.1 hd with rfl | hd
  · simp only [Reader.isNumberStart, Bool.or_eq_true] at hc
    unfold isNumberChar
    rcases hc with h | h <;> simp [h]
  · exact hcs d hd

/-- `pointed` starts with a digit, and has characters of numbers only. -/
theorem exists_pointed {digits : List Char} (hdigits : ∀ d ∈ digits, d.isDigit = true)
    (power : Int) :
    ∃ c cs, pointed digits power = c :: cs ∧ c.isDigit = true ∧
      ∀ d ∈ cs, isNumberChar d = true := by
  -- zeros at the end of the digits are not written
  have hkept : ∀ d ∈ (digits.reverse.dropWhile (· == '0')).reverse, d.isDigit = true := fun d hd =>
    hdigits d (List.mem_reverse.1 (List.dropWhile_subset _ (List.mem_reverse.1 hd)))
  unfold pointed
  generalize (digits.reverse.dropWhile (· == '0')).reverse = kept at hkept
  have hnumber : ∀ d : Char, d.isDigit = true → isNumberChar d = true := fun d hd => by
    simp [isNumberChar, hd]
  have hzeros : ∀ (n : Nat), ∀ d ∈ List.replicate n '0', isNumberChar d = true := fun n d hd => by
    rw [(List.mem_replicate.1 hd).2]
    rfl
  cases kept with
  | nil => exact ⟨_, _, rfl, rfl, List.all_eq_true.1 rfl⟩
  | cons first rest =>
    have hfirst := hkept first List.mem_cons_self
    have hrest : ∀ d ∈ rest, isNumberChar d = true := fun d hd =>
      hnumber d (hkept d (List.mem_cons_of_mem first hd))
    dsimp only
    -- all digits before the point, digits on both sides of it, all behind it, an exponent
    split
    · refine ⟨first, rest ++ List.replicate _ '0' ++ ['.', '0'], rfl, hfirst, fun d hd => ?_⟩
      simp only [List.mem_append, List.mem_cons, List.not_mem_nil, or_false] at hd
      rcases hd with (hd | hd) | rfl | rfl
      · exact hrest d hd
      · exact hzeros _ d hd
      · rfl
      · rfl
    · split
      · rename_i hpoint
        obtain ⟨n, hn⟩ : ∃ n, (((first :: rest).length : Int) +
            (power + (digits.length - (first :: rest).length : Nat))).toNat = n + 1 :=
          Nat.exists_eq_succ_of_ne_zero (by omega)
        rw [hn]
        refine ⟨first, _, rfl, hfirst, fun d hd => ?_⟩
        rcases List.mem_append.1 hd with hd | hd
        · exact hrest d (List.take_subset _ _ hd)
        · rcases List.mem_cons.1 hd with rfl | hd
          · rfl
          · exact hrest d (List.drop_subset _ _ hd)
      · split
        · refine ⟨'0', '.' :: List.replicate _ '0' ++ first :: rest, rfl, rfl, fun d hd => ?_⟩
          simp only [List.mem_append, List.mem_cons] at hd
          rcases hd with (rfl | hd) | rfl | hd
          · rfl
          · exact hzeros _ d hd
          · exact hnumber d hfirst
          · exact hrest d hd
        · refine ⟨first, _, rfl, hfirst, fun d hd => ?_⟩
          rcases List.mem_append.1 hd with hd | hd
          · split at hd
            · cases hd
            · rcases List.mem_cons.1 hd with rfl | hd
              · rfl
              · exact hrest d hd
          · rcases List.mem_cons.1 hd with rfl | hd
            · rfl
            · exact isNumberChar_of_mem_intChars hd

/-- `doubleChars` start a number, and go on with characters of numbers. -/
theorem exists_doubleChars (f : Double) :
    ∃ c cs, doubleChars f = c :: cs ∧ Reader.isNumberStart c = true ∧
      ∀ d ∈ cs, isNumberChar d = true := by
  obtain ⟨c, cs, htext, hc, hcs⟩ := exists_pointed
    (List.all_eq_true.1 (all_isDigit_toDigits f.shortest.1)) f.shortest.2
  unfold doubleChars
  rw [htext]
  -- the digits and the point, with a sign before them if the number is negative
  cases f.negative with
  | true =>
    refine ⟨'-', c :: cs, rfl, rfl, fun d hd => ?_⟩
    rcases List.mem_cons.1 hd with rfl | hd
    · simp [isNumberChar, hc]
    · exact hcs d hd
  | false => exact ⟨c, cs, rfl, by simp [Reader.isNumberStart, hc], hcs⟩

mutual

/-- What is read back of a value that is written inside as many others as `level` says. -/
def reread? (level : Nat) : Json → Option Json
  | .int n => number? (intChars n)
  | .double f => number? (doubleChars f)
  | .arr items => if level < maxDepth then (rereadItems? (level + 1) items).map .arr else none
  | .obj members => if level < maxDepth then (rereadMembers? (level + 1) members).map .obj else none
  | v => some v

/-- `reread?` for each item. -/
def rereadItems? (level : Nat) : List Json → Option (List Json)
  | [] => some []
  | v :: rest => (reread? level v).bind fun w => (rereadItems? level rest).map (w :: ·)

/-- `reread?` for the value of each member. -/
def rereadMembers? (level : Nat) : List (String × Json) → Option (List (String × Json))
  | [] => some []
  | (name, v) :: rest =>
    (reread? level v).bind fun w => (rereadMembers? level rest).map ((name, w) :: ·)

end

/-- `chars` start with a character that neither is white space nor closes an array. -/
theorem exists_chars (v : Json) :
    ∃ c cs, v.chars = c :: cs ∧ isSpace c = false ∧ c ≠ ']' := by
  have hstart : ∀ c, Reader.isNumberStart c = true → isSpace c = false ∧ c ≠ ']' := fun _ hc =>
    ⟨Reader.isSpace_of_isNumberStart hc, Reader.ne_of_isNumberStart hc ']' rfl⟩
  -- what stands for the value starts with a letter, a number, a quote or a bracket
  cases v with
  | null => exact ⟨_, _, rfl, rfl, by decide⟩
  | bool b => cases b <;> exact ⟨_, _, rfl, rfl, by decide⟩
  | int n =>
    obtain ⟨c, cs, h, hc, -⟩ := exists_intChars n
    exact ⟨c, cs, h, hstart c hc⟩
  | double f =>
    obtain ⟨c, cs, h, hc, -⟩ := exists_doubleChars f
    exact ⟨c, cs, h, hstart c hc⟩
  | str s => exact ⟨_, _, rfl, rfl, by decide⟩
  | arr items => exact ⟨_, _, rfl, rfl, by decide⟩
  | obj members => exact ⟨_, _, rfl, rfl, by decide⟩

namespace Reader

variable {layout : Layout}

/-- `Reader.read` starts the first item of an array as it starts any value. -/
theorem read_firstItem (frames : List Frame) {c : Char} (hspace : isSpace c = false)
    (hclose : c ≠ ']') (cs : List Char) :
    (⟨frames, .firstItem⟩ : Reader).read layout (c :: cs) =
      (⟨frames, .value⟩ : Reader).read layout (c :: cs) := by
  rw [read_cons, read_cons]
  simp [step, hspace, hclose]

/-- `Reader.read` of a name and a colon comes to the value of the member. -/
theorem read_name_colon {frames : List Frame} {done : List (String × Json)}
    (hframes : Strict layout (.object done :: frames)) (name : String) (cs : List Char) :
    (⟨.object done :: frames, .name⟩ : Reader).read layout (quote name.toList ++ ':' :: cs) =
      (⟨.member done name :: frames, .value⟩ : Reader).read layout cs := by
  rw [read_append, read_quote_name hframes]
  rfl

/-- `itemChars` puts a comma between items. -/
private theorem itemChars_cons_cons (v v' : Json) (rest : List Json) :
    itemChars (v :: v' :: rest) = v.chars ++ ',' :: itemChars (v' :: rest) := rfl

/-- `memberChars` puts a comma between members. -/
private theorem memberChars_cons_cons (name : String) (v : Json) (m : String × Json)
    (rest : List (String × Json)) :
    memberChars ((name, v) :: m :: rest) =
      quote name.toList ++ ':' :: (v.chars ++ ',' :: memberChars (m :: rest)) := by
  rw [memberChars]
  · simp
  · simp

/-- What the reader makes of the value, inside others that are still open. -/
def Rereads (layout : Layout) (v : Json) : Prop :=
  ∀ frames : List Frame, Strict layout frames →
    ((⟨frames, .value⟩ : Reader).read layout v.chars).bind (settle layout) =
    (v.reread? frames.length).bind (finish frames)

/-- `Reader.read` of the items of an array, behind those that the reader has. -/
private theorem read_itemChars {frames : List Frame} (hframes : Strict layout frames)
    (done : List Json) (v : Json) (rest : List Json) (h : ∀ w ∈ v :: rest, Rereads layout w) :
    (⟨.array done :: frames, .value⟩ : Reader).read layout (itemChars (v :: rest)) =
      (rereadItems? (frames.length + 1) (v :: rest)).bind fun items =>
        finish frames (.arr (done.reverse ++ items)) := by
  have hv := h v List.mem_cons_self (.array done :: frames) (hframes.cons _)
  rw [List.length_cons] at hv
  -- each value that is read becomes one of those that are `done`
  induction rest generalizing done v with
  | nil =>
    have hclose : ∀ w, (⟨.array (w :: done) :: frames, .next⟩ : Reader).read layout [']'] =
        (finish frames (.arr (w :: done).reverse)).bind some := fun _ => rfl
    rw [itemChars, read_append_cons rfl, hv, rereadItems?, rereadItems?, Option.bind_assoc,
      Option.bind_assoc]
    refine congrArg (Option.bind _) (funext fun w => ?_)
    rw [finish, Option.bind_some, hclose, Option.bind_fun_some, List.reverse_cons]
    rfl
  | cons v' rest ih =>
    have hrest : ∀ w ∈ v' :: rest, Rereads layout w := fun w hw => h w (List.mem_cons_of_mem v hw)
    have hnext : ∀ w, (⟨.array (w :: done) :: frames, .next⟩ : Reader).read layout
        (',' :: itemChars (v' :: rest)) = _ := fun w =>
      ih (w :: done) v' hrest
        (hrest v' List.mem_cons_self (.array (w :: done) :: frames) (hframes.cons _))
    rw [itemChars_cons_cons, read_append_cons rfl, hv, rereadItems?, Option.bind_assoc,
      Option.bind_assoc]
    refine congrArg (Option.bind _) (funext fun w => ?_)
    rw [finish, Option.bind_some, hnext, Option.bind_map]
    refine congrArg (Option.bind _) (funext fun items => ?_)
    simp

/-- `Reader.read` of the members of an object, behind those that the reader has. -/
private theorem read_memberChars {frames : List Frame} (done : List (String × Json))
    (name : String) (v : Json) (rest : List (String × Json))
    (hobject : ∀ done, Strict layout (.object done :: frames))
    (hnames : ∀ m ∈ (name, v) :: rest, ∀ done, Strict layout (.member done m.1 :: frames))
    (h : ∀ m ∈ (name, v) :: rest, Rereads layout m.2) :
    (⟨.object done :: frames, .name⟩ : Reader).read layout (memberChars ((name, v) :: rest)) =
      (rereadMembers? (frames.length + 1) ((name, v) :: rest)).bind fun members =>
        finish frames (.obj (done.reverse ++ members)) := by
  have hv := h (name, v) List.mem_cons_self (.member done name :: frames)
    (hnames (name, v) List.mem_cons_self done)
  rw [List.length_cons] at hv
  -- as for items, but with the frame of the member around its value
  induction rest generalizing done name v with
  | nil =>
    have hclose :
        ∀ w, (⟨.object ((name, w) :: done) :: frames, .next⟩ : Reader).read layout ['\x7d'] =
        (finish frames (.obj ((name, w) :: done).reverse)).bind some := fun _ => rfl
    rw [memberChars, List.append_assoc, List.cons_append, read_name_colon (hobject done),
      read_append_cons rfl,
      hv, rereadMembers?, rereadMembers?, Option.bind_assoc, Option.bind_assoc]
    refine congrArg (Option.bind _) (funext fun w => ?_)
    rw [finish, Option.bind_some, hclose, Option.bind_fun_some, List.reverse_cons]
    rfl
  | cons m rest ih =>
    obtain ⟨name', v'⟩ := m
    have hrest : ∀ m ∈ (name', v') :: rest, Rereads layout m.2 := fun m hm =>
      h m (List.mem_cons_of_mem _ hm)
    have hnames' : ∀ m ∈ (name', v') :: rest, ∀ done, Strict layout (.member done m.1 :: frames) :=
      fun m hm => hnames m (List.mem_cons_of_mem _ hm)
    have hnext : ∀ w, (⟨.object ((name, w) :: done) :: frames, .next⟩ : Reader).read layout
        (',' :: memberChars ((name', v') :: rest)) = _ := fun w =>
      ih ((name, w) :: done) name' v' hnames' hrest
        (hrest (name', v') List.mem_cons_self (.member ((name, w) :: done) name' :: frames)
          (hnames' (name', v') List.mem_cons_self ((name, w) :: done)))
    rw [memberChars_cons_cons, read_name_colon (hobject done), read_append_cons rfl, hv,
      rereadMembers?,
      Option.bind_assoc, Option.bind_assoc]
    refine congrArg (Option.bind _) (funext fun w => ?_)
    rw [finish, Option.bind_some, hnext, Option.bind_map]
    refine congrArg (Option.bind _) (funext fun members => ?_)
    simp

/-- `Rereads` of an array, if all of its items are so. -/
private theorem rereads_arr {items : List Json} (h : ∀ v ∈ items, Rereads layout v) :
    Rereads layout (.arr items) := by
  intro frames hframes
  show ((openFrame layout frames (.array []) .firstItem).bind fun r =>
    r.read layout (itemChars items)).bind (settle layout) = _
  simp only [openFrame, hframes.isPassed, Bool.false_or, decide_eq_true_eq, reread?]
  split
  · rw [Option.bind_some]
    cases items with
    | nil =>
      show ((finish frames (.arr [])).bind some).bind (settle layout) = finish frames (.arr [])
      rw [Option.bind_fun_some, finish_bind_settle]
    | cons v rest =>
      -- only behind the bracket a `]` would also be taken
      have hfirst :
          (⟨.array [] :: frames, .firstItem⟩ : Reader).read layout (itemChars (v :: rest)) =
          (⟨.array [] :: frames, .value⟩ : Reader).read layout (itemChars (v :: rest)) := by
        obtain ⟨c, cs, hv, hspace, hclose⟩ := exists_chars v
        cases rest <;> simp only [itemChars, hv] <;> exact read_firstItem _ hspace hclose _
      rw [hfirst, read_itemChars hframes [] v rest h, Option.bind_assoc, Option.bind_map]
      exact congrArg (Option.bind _) (funext fun items => finish_bind_settle frames _)
  · rfl

/-- `Reader.read` of an object gives it back if none of its members is passed over and their values
    are read back. -/
theorem read_object {frames : List Frame} (hframes : isPassed layout frames = false)
    {members : List (String × Json)} (hobject : ∀ done, Strict layout (.object done :: frames))
    (hnames : ∀ m ∈ members, ∀ done, Strict layout (.member done m.1 :: frames))
    (h : ∀ m ∈ members, Rereads layout m.2) :
    ((⟨frames, .value⟩ : Reader).read layout (Json.obj members).chars).bind (settle layout) =
      ((Json.obj members).reread? frames.length).bind (finish frames) := by
  show ((openFrame layout frames (.object []) .firstName).bind fun r =>
    r.read layout (memberChars members)).bind (settle layout) = _
  simp only [openFrame, hframes, Bool.false_or, decide_eq_true_eq, reread?]
  split
  · rw [Option.bind_some]
    cases members with
    | nil =>
      show ((finish frames (.obj [])).bind some).bind (settle layout) = finish frames (.obj [])
      rw [Option.bind_fun_some, finish_bind_settle]
    | cons m rest =>
      obtain ⟨name, v⟩ := m
      -- the first name is read like the others, as the object is not closed at once
      have hfirst : (⟨.object [] :: frames, .firstName⟩ : Reader).read layout
          (memberChars ((name, v) :: rest)) =
            (⟨.object [] :: frames, .name⟩ : Reader).read layout
              (memberChars ((name, v) :: rest)) := by
        cases rest <;> rfl
      rw [hfirst, read_memberChars [] name v rest hobject hnames h, Option.bind_assoc,
        Option.bind_map]
      exact congrArg (Option.bind _) (funext fun members => finish_bind_settle frames _)
  · rfl

/-- `Rereads` of every value, by its structure. -/
theorem rereads : ∀ v : Json, Rereads layout v
  -- along the value; members are smaller than the object that they are in
  | .null => fun frames _ => by
    show ((finish frames .null).bind some).bind (settle layout) = finish frames .null
    rw [Option.bind_fun_some, finish_bind_settle]
  | .bool false => fun frames _ => by
    show ((finish frames (.bool false)).bind some).bind (settle layout) =
        finish frames (.bool false)
    rw [Option.bind_fun_some, finish_bind_settle]
  | .bool true => fun frames _ => by
    show ((finish frames (.bool true)).bind some).bind (settle layout) = finish frames (.bool true)
    rw [Option.bind_fun_some, finish_bind_settle]
  | .int n => fun frames hframes => by
    obtain ⟨c, cs, h, hc, hcs⟩ := exists_intChars n
    simp only [chars, scalarChars, reread?, h]
    exact read_number_value hframes hc hcs
  | .double f => fun frames hframes => by
    obtain ⟨c, cs, h, hc, hcs⟩ := exists_doubleChars f
    simp only [chars, scalarChars, reread?, h]
    exact read_number_value hframes hc hcs
  | .str s => fun frames hframes => by
    simp only [chars, scalarChars, reread?, read_quote_value hframes, Option.bind_some]
    exact finish_bind_settle frames _
  | .arr items => rereads_arr fun v _ => rereads v
  | .obj members => fun frames hframes => read_object hframes.isPassed (fun _ => hframes.cons _)
      (fun _ _ _ => hframes.cons _) fun m hm =>
    have : sizeOf m.2 < 1 + sizeOf members := by
      have := List.sizeOf_lt_of_mem hm
      have : sizeOf m = 1 + sizeOf m.1 + sizeOf m.2 := rfl
      omega
    rereads m.2

end Reader

/-- `parseAs?` in terms of `Reader.read`. A number at the very end is completed by the end of the
    text. -/
theorem parseAs?_ofList (layout : Layout) (cs : List Char) :
    parseAs? layout (String.ofList cs) =
      ((Reader.start.read layout cs).bind (Reader.settle layout)).bind Reader.result? := by
  rw [parseAs?, String.toList_ofList, Option.bind_assoc]
  exact congrArg (Option.bind _) (funext Reader.result?_eq_settle_bind)

/-- `parse?` reads a written value as `reread?` says. -/
theorem parse?_render (v : Json) : parse? v.render = v.reread? 0 := by
  have hv := Reader.rereads v [] (Reader.strict_any [])
  rw [List.length_nil] at hv
  rw [render, parse?, parseAs?_ofList, Reader.start, hv]
  cases v.reread? 0 <;> rfl

/-- `parseAs?` reads a record as `reread?` says, if it has no other members than it is read for. -/
theorem parseAs?_ofNames_render {names : List String} {members : List (String × Json)}
    (h : ∀ m ∈ members, m.1 ∈ names) :
    parseAs? (.ofNames names) (Json.obj members).render = (Json.obj members).reread? 0 := by
  have hobject : ∀ done, Reader.Strict (.ofNames names) [.object done] := fun done inner => by
    simp [Layout.ofNames, Layout.passes]
  have hnames : ∀ m ∈ members, ∀ done, Reader.Strict (.ofNames names) [.member done m.1] := by
    intro m hm done inner
    -- the member is found, and its value may be of any kind
    have hsome : ((names.map fun n => (n, Layout.any)).find? fun e => e.1 == m.1).isSome = true :=
      List.find?_isSome.2 ⟨(m.1, .any), List.mem_map.2 ⟨m.1, h m hm, rfl⟩, beq_self_eq_true m.1⟩
    obtain ⟨found, hfound⟩ := Option.isSome_iff_exists.1 hsome
    obtain ⟨n, -, rfl⟩ := List.mem_map.1 (List.mem_of_find?_eq_some hfound)
    rw [List.reverse_singleton, List.singleton_append, Layout.ofNames, Layout.passes, hfound]
    exact Layout.passes_any inner
  have hread := @Reader.read_object _ [] (Reader.isPassed_nil _) members hobject hnames fun m _ =>
    Reader.rereads m.2
  rw [List.length_nil] at hread
  rw [render, parseAs?_ofList, Reader.start, hread]
  cases (Json.obj members).reread? 0 <;> rfl

end Deadwood.Json
