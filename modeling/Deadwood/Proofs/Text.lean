import Deadwood.Text.Piece

/-!
# Pieces of a text

How texts that are put together come apart again: what trimming leaves, and where a text is cut at
separators, into words and into items. The last part is about the line of an offset.
-/

namespace Deadwood.Text

/-! ## Character classes -/

/-- `inRanges` holds for no code point of two lists of ranges that do not overlap. -/
theorem inRanges_eq_false_of_disjoint {rs ss : List (Nat × Nat)}
    (hdisjoint : ∀ r ∈ rs, ∀ s ∈ ss, r.2 < s.1 ∨ s.2 < r.1) {code : Nat}
    (h : inRanges rs code = true) : inRanges ss code = false := by
  unfold inRanges at h ⊢
  simp only [List.any_eq_true, Bool.and_eq_true, decide_eq_true_eq] at h
  obtain ⟨r, hr, hlow, hhigh⟩ := h
  rw [List.any_eq_false]
  intro s hs
  have := hdisjoint r hr s hs
  simp only [Bool.and_eq_true, decide_eq_true_eq, not_and]
  omega

/-- `isSpace` holds of gaps. -/
theorem isSpace_of_isGap {c : Char} (h : isGap c = true) : isSpace c = true := by
  simp only [isGap, isBlank, Bool.or_eq_true, beq_iff_eq] at h
  rcases h with ((rfl | rfl) | rfl) | rfl <;> decide

/-- `isGap` holds of blanks. -/
theorem isGap_of_isBlank {c : Char} (h : isBlank c = true) : isGap c = true := by
  simp [isGap, h]

/-! ## Trimming -/

/-- The text starts and ends with characters other than white space. -/
structure Tight (cs : List Char) : Prop where
  head : ∃ c ∈ cs.head?, isSpace c = false
  last : ∃ c ∈ cs.getLast?, isSpace c = false

/-- `Tight` holds of a text without white space. -/
theorem Tight.of_all {cs : List Char} (hne : cs ≠ []) (hcs : ∀ c ∈ cs, isSpace c = false) :
    Tight cs where
  head := ⟨cs.head hne, List.head?_eq_some_head hne, hcs _ (List.head_mem hne)⟩
  last := ⟨cs.getLast hne, List.getLast?_eq_some_getLast hne, hcs _ (List.getLast_mem hne)⟩

/-- `Tight` texts are not empty. -/
theorem Tight.ne_nil {cs : List Char} (h : Tight cs) : cs ≠ [] := by
  rintro rfl
  obtain ⟨c, hc, -⟩ := h.head
  cases hc

/-- `Tight` holds of whatever stands between tight texts. -/
theorem Tight.append {xs ys : List Char} (hxs : Tight xs) (hys : Tight ys) (cs : List Char) :
    Tight (xs ++ cs ++ ys) where
  head := by
    obtain ⟨c, hc, hspace⟩ := hxs.head
    exact ⟨c, by rw [List.append_assoc, List.head?_append, hc]; rfl, hspace⟩
  last := by
    obtain ⟨c, hc, hspace⟩ := hys.last
    exact ⟨c, by rw [List.getLast?_append, hc]; rfl, hspace⟩

/-- `isBlank` holds only of white space. -/
theorem isBlank_of_isSpace {c : Char} (h : isSpace c = false) : isBlank c = false := by
  cases hblank : isBlank c with
  | false => rfl
  | true =>
    rw [isSpace_of_isGap (isGap_of_isBlank hblank)] at h
    cases h

/-- `Tight` texts start with no blank. -/
theorem Tight.isBlank_head? {cs : List Char} (h : Tight cs) (rest : List Char) :
    ∀ c ∈ (cs ++ rest).head?, isBlank c = false := by
  obtain ⟨d, hd, hspace⟩ := h.head
  intro c hc
  rw [List.head?_append, hd] at hc
  cases hc
  exact isBlank_of_isSpace hspace

/-- `dropWhile` drops nothing of a text that does not start with white space. -/
private theorem dropWhile_isSpace_of_head {cs : List Char}
    (h : ∃ c ∈ cs.head?, isSpace c = false) : cs.dropWhile isSpace = cs := by
  obtain ⟨c, hc, hspace⟩ := h
  cases cs with
  | nil => cases hc
  | cons d cs =>
    cases hc
    exact List.dropWhile_cons_of_neg (by simp [hspace])

/-- `trimRight` does nothing to a tight text. -/
theorem Tight.trimRight_eq {cs : List Char} (h : Tight cs) : trimRight cs = cs := by
  have hhead : ∃ c ∈ cs.reverse.head?, isSpace c = false := by
    rw [List.head?_reverse]
    exact h.last
  rw [trimRight, dropWhile_isSpace_of_head hhead, List.reverse_reverse]

/-- `trim` does nothing to a tight text. -/
theorem Tight.trim_eq {cs : List Char} (h : Tight cs) : trim cs = cs := by
  rw [trim, trimLeft, dropWhile_isSpace_of_head h.head, h.trimRight_eq]

/-- `trim` drops white space in front. -/
theorem trim_space_cons {c : Char} (hc : isSpace c = true) (cs : List Char) :
    trim (c :: cs) = trim cs := by
  rw [trim, trimLeft, List.dropWhile_cons_of_pos hc, trim, trimLeft]

/-- `trim` drops white space behind a tight text. -/
theorem Tight.trim_append_space {cs : List Char} (h : Tight cs) {c : Char}
    (hc : isSpace c = true) : trim (cs ++ [c]) = cs := by
  have hhead : ∃ d ∈ (cs ++ [c]).head?, isSpace d = false := by
    obtain ⟨d, hd, hspace⟩ := h.head
    exact ⟨d, by rw [List.head?_append, hd]; rfl, hspace⟩
  rw [trim, trimLeft, dropWhile_isSpace_of_head hhead, trimRight, List.reverse_append,
    List.reverse_singleton, List.singleton_append, List.dropWhile_cons_of_pos hc, ← trimRight,
    h.trimRight_eq]

/-! ## Cutting at separators -/

section

variable {α : Type} {sep : α → Bool}

/-- Pieces that end at the first separator are told apart from what follows them. -/
theorem append_cons_inj {s : α} {xs ys us vs : List α} (hxs : ∀ x ∈ xs, x ≠ s)
    (hys : ∀ y ∈ ys, y ≠ s) (h : xs ++ s :: us = ys ++ s :: vs) : xs = ys ∧ us = vs := by
  -- the two first pieces are gone through side by side
  induction xs generalizing ys with
  | nil =>
    cases ys with
    | nil => exact ⟨rfl, List.tail_eq_of_cons_eq h⟩
    | cons y ys => exact absurd (List.head_eq_of_cons_eq h).symm (hys y List.mem_cons_self)
  | cons x xs ih =>
    cases ys with
    | nil => exact absurd (List.head_eq_of_cons_eq h) (hxs x List.mem_cons_self)
    | cons y ys =>
      obtain ⟨rfl, hrest⟩ := List.cons.inj h
      obtain ⟨rfl, hfollow⟩ := ih (fun z hz => hxs z (List.mem_cons_of_mem x hz))
        (fun z hz => hys z (List.mem_cons_of_mem x hz)) hrest
      exact ⟨rfl, hfollow⟩

/-- `splitAtAll` leaves a text without separators in one piece. -/
theorem splitAtAll_of_all {xs : List α} (hxs : ∀ x ∈ xs, sep x = false) :
    splitAtAll sep xs = [xs] := by
  induction xs with
  | nil => rfl
  | cons x xs ih =>
    rw [splitAtAll, hxs x List.mem_cons_self, ih fun y hy => hxs y (List.mem_cons_of_mem x hy)]
    rfl

/-- `splitAtAll` gives at least one piece. -/
theorem splitAtAll_ne_nil (xs : List α) : splitAtAll sep xs ≠ [] := by
  cases xs with
  | nil => exact List.cons_ne_nil _ _
  | cons x xs =>
    rw [splitAtAll]
    split
    · exact List.cons_ne_nil _ _
    · split <;> exact List.cons_ne_nil _ _

/-- `splitAtAll` cuts a text at a separator into the pieces before and behind it. -/
theorem splitAtAll_append_sep (xs : List α) {s : α} (hs : sep s = true) (ys : List α) :
    splitAtAll sep (xs ++ s :: ys) = splitAtAll sep xs ++ splitAtAll sep ys := by
  induction xs with
  | nil =>
    show splitAtAll sep (s :: ys) = [] :: splitAtAll sep ys
    rw [splitAtAll, if_pos hs]
  | cons x xs ih =>
    rw [List.cons_append, splitAtAll, ih, splitAtAll]
    split
    · rfl
    · -- a character goes to the first piece, of which there always is one
      cases h : splitAtAll sep xs with
      | nil => exact absurd h (splitAtAll_ne_nil xs)
      | cons p ps => rfl

/-- `splitAtAll` ends its first piece at the first separator. -/
theorem splitAtAll_append_cons {xs : List α} (hxs : ∀ x ∈ xs, sep x = false) {s : α}
    (hs : sep s = true) (ys : List α) :
    splitAtAll sep (xs ++ s :: ys) = xs :: splitAtAll sep ys := by
  rw [splitAtAll_append_sep xs hs, splitAtAll_of_all hxs, List.singleton_append]

/-- `splitAtAll` leaves no separator in a piece. -/
theorem eq_false_of_mem_splitAtAll {xs piece : List α} (h : piece ∈ splitAtAll sep xs) :
    ∀ x ∈ piece, sep x = false := by
  induction xs generalizing piece with
  | nil =>
    cases List.mem_singleton.1 h
    exact List.forall_mem_nil _
  | cons y xs ih =>
    rw [splitAtAll] at h
    split at h
    · rcases List.mem_cons.1 h with rfl | h
      · exact List.forall_mem_nil _
      · exact ih h
    · rename_i hy
      -- the first member goes to the first piece of the rest
      cases hxs : splitAtAll sep xs with
      | nil => exact absurd hxs (splitAtAll_ne_nil xs)
      | cons p ps =>
        simp only [hxs] at h ih
        rcases List.mem_cons.1 h with rfl | h
        · exact List.forall_mem_cons.2 ⟨by simpa using hy, ih List.mem_cons_self⟩
        · exact ih (List.mem_cons_of_mem p h)

/-- `splitAtAll` gives pieces that hold nothing but members of the text. -/
theorem mem_of_mem_splitAtAll {xs piece : List α} (h : piece ∈ splitAtAll sep xs) {x : α}
    (hx : x ∈ piece) : x ∈ xs := by
  induction xs generalizing piece with
  | nil =>
    cases List.mem_singleton.1 h
    cases hx
  | cons y xs ih =>
    rw [splitAtAll] at h
    split at h
    · rcases List.mem_cons.1 h with rfl | h
      · cases hx
      · exact List.mem_cons_of_mem y (ih h hx)
    · -- the first member goes to the first piece of the rest
      cases hxs : splitAtAll sep xs with
      | nil => exact absurd hxs (splitAtAll_ne_nil xs)
      | cons p ps =>
        simp only [hxs] at h ih
        rcases List.mem_cons.1 h with rfl | h
        · rcases List.mem_cons.1 hx with rfl | hx
          · exact List.mem_cons_self
          · exact List.mem_cons_of_mem y (ih List.mem_cons_self hx)
        · exact List.mem_cons_of_mem y (ih (List.mem_cons_of_mem p h) hx)

end

/-- `splitAtAll` takes pieces apart that `joinWith` has put together. -/
theorem splitAtAll_joinWith {sep : Char} {pieces : List (List Char)} (hne : pieces ≠ [])
    (hpieces : ∀ p ∈ pieces, sep ∉ p) :
    splitAtAll (· == sep) (joinWith sep pieces) = pieces := by
  have hfree : ∀ p ∈ pieces, ∀ c ∈ p, (c == sep) = false := fun p hp c hc => by
    simpa using fun h : c = sep => hpieces p hp (h ▸ hc)
  clear hpieces
  -- the first piece ends at the first separator, unless it is the last one
  induction pieces with
  | nil => exact absurd rfl hne
  | cons p rest ih =>
    have hp := hfree p List.mem_cons_self
    cases rest with
    | nil => exact splitAtAll_of_all hp
    | cons q rest =>
      show splitAtAll (· == sep) (p ++ sep :: joinWith sep (q :: rest)) = p :: q :: rest
      rw [splitAtAll_append_cons hp (beq_self_eq_true sep),
        ih (List.cons_ne_nil q rest) fun r hr => hfree r (List.mem_cons_of_mem p hr)]

/-- `joinWith` holds separators and characters of its pieces. -/
theorem eq_or_exists_of_mem_joinWith {sep c : Char} {pieces : List (List Char)}
    (h : c ∈ joinWith sep pieces) : c = sep ∨ ∃ p ∈ pieces, c ∈ p := by
  induction pieces with
  | nil => cases h
  | cons p rest ih =>
    cases rest with
    | nil => exact .inr ⟨p, List.mem_cons_self, h⟩
    | cons q rest =>
      -- a separator is written only if there is another piece
      have hcons : joinWith sep (p :: q :: rest) = p ++ sep :: joinWith sep (q :: rest) := rfl
      rw [hcons, List.mem_append, List.mem_cons] at h
      rcases h with hp | rfl | hrest
      · exact .inr ⟨p, List.mem_cons_self, hp⟩
      · exact .inl rfl
      · exact (ih hrest).imp_right fun ⟨r, hr, hc⟩ => ⟨r, List.mem_cons_of_mem p hr, hc⟩

/-- `joinWith` takes what is written behind joined pieces to the last one. -/
theorem joinWith_concat_append (sep : Char) (pieces : List (List Char)) (last more : List Char) :
    joinWith sep (pieces ++ [last]) ++ more = joinWith sep (pieces ++ [last ++ more]) := by
  induction pieces with
  | nil => rfl
  | cons p rest ih =>
    have hcons : ∀ l, joinWith sep (p :: rest ++ [l]) = p ++ sep :: joinWith sep (rest ++ [l]) := by
      intro l
      cases rest <;> rfl
    rw [hcons, hcons, ← ih, List.append_assoc, List.cons_append]

/-- `words` of a text without white space is the text. -/
theorem words_of_all {cs : List Char} (hne : cs ≠ []) (hcs : ∀ c ∈ cs, isSpace c = false) :
    words cs = [cs] := by
  rw [words, splitAtAll_of_all hcs]
  simp [hne]

/-- `words` starts with the text before the first blank. -/
theorem words_append_space {cs : List Char} (hne : cs ≠ []) (hcs : ∀ c ∈ cs, isSpace c = false)
    (rest : List Char) : words (cs ++ ' ' :: rest) = cs :: words rest := by
  rw [words, splitAtAll_append_cons hcs (by decide)]
  simp [hne, words]

/-- `items` of a text without commas is one item, if anything of it is left. -/
theorem items_of_all {cs : List Char} (hcs : ∀ c ∈ cs, c ≠ ',') :
    items cs = if trim cs = [] then [] else [trim cs] := by
  rw [items, splitAtAll_of_all (by simpa using hcs)]
  by_cases h : trim cs = [] <;> simp [h]

/-- `items` starts with the text before the first comma, if anything of it is left. -/
theorem items_append_comma {cs : List Char} (hcs : ∀ c ∈ cs, c ≠ ',') (rest : List Char) :
    items (cs ++ ',' :: rest) = (if trim cs = [] then [] else [trim cs]) ++ items rest := by
  rw [items, splitAtAll_append_cons (by simpa using hcs) (by decide)]
  by_cases h : trim cs = [] <;> simp [h, items]

/-- `items` do not have white space in front. -/
theorem items_space_cons {c : Char} (hc : isSpace c = true) (hcomma : c ≠ ',') (rest : List Char) :
    items (c :: rest) = items rest := by
  rw [items, splitAtAll, if_neg (by simpa using hcomma), items]
  cases splitAtAll (· == ',') rest with
  | nil => simp [trim_space_cons hc, show trim [] = [] from rfl]
  | cons p ps => simp only [List.map_cons, trim_space_cons hc]

/-! ## Lines -/

/-- `byteLength` is zero for the empty text only. -/
theorem byteLength_eq_zero_iff {cs : List Char} : byteLength cs = 0 ↔ cs = [] := by
  cases cs with
  | nil => simp
  | cons c cs =>
    have hpos := c.utf8Size_pos
    simp only [byteLength_cons, reduceCtorEq, iff_false]
    omega

/-- `lineEndsBefore` the end of a first part counts the line ends in it. -/
theorem lineEndsBefore_byteLength (cs rest : List Char) :
    lineEndsBefore (byteLength cs) (cs ++ rest) = cs.count '\n' := by
  induction cs with
  | nil => cases rest <;> rfl
  | cons c cs ih =>
    have hpos : 0 < c.utf8Size := c.utf8Size_pos
    -- a character has an octet at least, so the definition takes another step
    obtain ⟨n, hn⟩ : ∃ n, c.utf8Size + byteLength cs = n + 1 := ⟨_, (Nat.succ_pred (by omega)).symm⟩
    rw [byteLength_cons, List.cons_append, hn, lineEndsBefore, ← hn, Nat.add_sub_cancel_left, ih,
      List.count_cons]
    by_cases h : c = '\n' <;> simp [h, Nat.add_comm]

end Deadwood.Text
