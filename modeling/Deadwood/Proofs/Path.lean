import Deadwood.Path.Relative
import Deadwood.Proofs.Text

/-!
# Paths and their components

The components of paths that are written from components, joined or given an extension, and the
part of a joined path below its first one: `relativeTo_join`. Steps that never leave a folder lead
to the same place below it, wherever the folder is: `normalComponents_below`.
-/

namespace Deadwood

namespace Component

/-- Is it the name of a file or folder? -/
def IsName (c : Component) : Prop := ∃ s, c = .name s

instance (c : Component) : Decidable c.IsName :=
  match c with
  | .name s => isTrue ⟨s, rfl⟩
  | .root | .current | .parent => isFalse fun ⟨_, h⟩ => nomatch h

/-- `Component.text` of what a stretch is read as is that stretch. -/
theorem toList_text_of_segment {segment : List Char} {c : Component}
    (h : ofSegment? segment = some c) : c.text.toList = segment := by
  unfold ofSegment? at h
  split at h
  · cases h
  · cases h
  · cases h
    rfl
  · cases h
    exact String.toList_ofList

/-- `ofSegment?` reads a stretch of more than two characters as a name. -/
theorem ofSegment?_of_length {segment : List Char} (h : 2 < segment.length) :
    ofSegment? segment = some (.name (String.ofList segment)) := by
  unfold ofSegment?
  split
  · exact absurd h (by decide)
  · exact absurd h (by decide)
  · exact absurd h (by decide)
  · rfl

/-- The component can stand between slashes, where it is read as itself. -/
structure IsInner (c : Component) : Prop where
  read : ofSegment? c.text.toList = some c
  noSlash : '/' ∉ c.text.toList

/-- `IsInner` names stay so when they are given an extension. -/
theorem IsInner.extend {n ext : String} (h : (name n).IsInner) (hne : ext.toList ≠ [])
    (hslash : '/' ∉ ext.toList) : (name (n ++ "." ++ ext)).IsInner := by
  have htext : (n ++ "." ++ ext).toList = n.toList ++ '.' :: ext.toList := by simp
  have hn : n.toList ≠ [] := by
    intro heq
    have hread := h.read
    rw [text, heq] at hread
    cases hread
  constructor
  · -- with a dot and an extension it is too long for `.` and `..`
    have hlength : 2 < (n ++ "." ++ ext).toList.length := by
      have := List.length_pos_iff.2 hn
      have := List.length_pos_iff.2 hne
      rw [htext, List.length_append, List.length_cons]
      omega
    rw [text, ofSegment?_of_length hlength, String.ofList_toList]
  · rw [text, htext, List.mem_append, List.mem_cons]
    rintro (hmem | heq | hmem)
    · exact h.noSlash hmem
    · cases heq
    · exact hslash hmem

end Component

namespace Path

open Component

/-! ## Components -/

/-- What stands between slashes in a text. -/
def innerComponents (cs : List Char) : List Component :=
  (Text.splitAtAll (· == '/') cs).filterMap ofSegment?

/-- `innerComponents` of two texts with a slash between them. -/
theorem innerComponents_append_slash (xs ys : List Char) :
    innerComponents (xs ++ '/' :: ys) = innerComponents xs ++ innerComponents ys := by
  rw [innerComponents, Text.splitAtAll_append_sep xs (by decide), List.filterMap_append]
  rfl

/-- `IsInner` holds of what stands between slashes. -/
theorem isInner_of_mem_segments {cs segment : List Char} {c : Component}
    (hmem : segment ∈ Text.splitAtAll (· == '/') cs) (h : ofSegment? segment = some c) :
    c.IsInner := by
  have htext := toList_text_of_segment h
  refine ⟨by rwa [htext], fun hslash => ?_⟩
  rw [htext] at hslash
  exact absurd (Text.eq_false_of_mem_splitAtAll hmem '/' hslash) (by decide)

/-- `isAbsolute` looks at the first character. -/
theorem isAbsolute_iff {p : Path} : p.isAbsolute = true ↔ ∃ cs, p.text.toList = '/' :: cs := by
  rw [isAbsolute]
  cases p.text.toList <;> simp

/-- `components` of an absolute path are the root and what stands between slashes. -/
theorem components_of_slash {p : Path} {cs : List Char} (h : p.text.toList = '/' :: cs) :
    p.components = .root :: innerComponents cs := by
  have hsegments : p.segments = [] :: Text.splitAtAll (· == '/') cs := by
    rw [segments, h]
    rfl
  rw [components, hsegments, innerComponents]
  cases hcs : Text.splitAtAll (· == '/') cs with
  | nil => exact absurd hcs (Text.splitAtAll_ne_nil cs)
  | cons s rest => rfl

/-- `splitStart` leaves stretches of the path. -/
theorem mem_of_mem_splitStart {segments : List (List Char)} {s : List Char}
    (h : s ∈ (splitStart segments).2) : s ∈ segments := by
  unfold splitStart at h
  split at h
  · exact List.mem_cons_of_mem _ h
  · exact List.mem_cons_of_mem _ h
  · exact h

/-- `splitStart` takes no name off. -/
theorem not_isName_of_mem_splitStart {segments : List (List Char)} {c : Component}
    (h : c ∈ (splitStart segments).1.toList) : ¬ c.IsName := by
  rintro ⟨s, rfl⟩
  unfold splitStart at h
  split at h <;> simp at h

/-- `IsInner` holds of the names in a path. -/
theorem isInner_of_mem_components {p : Path} {c : Component} (hmem : c ∈ p.components)
    (hname : c.IsName) : c.IsInner := by
  rw [components] at hmem
  rcases List.mem_append.1 hmem with hstart | hrest
  · exact absurd hname (not_isName_of_mem_splitStart hstart)
  · obtain ⟨segment, hsegment, hc⟩ := List.mem_filterMap.1 hrest
    exact isInner_of_mem_segments (mem_of_mem_splitStart hsegment) hc

/-- All components of the path are names. Such a path is relative. -/
def IsNamed (p : Path) : Prop := ∀ c ∈ p.components, c.IsName

instance (p : Path) : Decidable p.IsNamed := inferInstanceAs (Decidable (∀ c ∈ p.components, _))

namespace IsNamed

variable {p : Path}

/-- `splitStart` takes nothing off a path of names. -/
theorem splitStart_segments (h : p.IsNamed) : splitStart p.segments = (none, p.segments) := by
  have hnone : (splitStart p.segments).1 = none := by
    cases hstart : (splitStart p.segments).1 with
    | none => rfl
    | some c =>
      have hc : c ∈ (splitStart p.segments).1.toList := by rw [hstart]; exact List.mem_cons_self
      exact absurd (h c (List.mem_append_left _ hc)) (not_isName_of_mem_splitStart hc)
  unfold splitStart at hnone ⊢
  split at hnone
  · cases hnone
  · cases hnone
  · rfl

/-- `components` of a path of names are what stands between slashes. -/
theorem components_eq (h : p.IsNamed) : p.components = innerComponents p.text.toList := by
  rw [components, h.splitStart_segments]
  rfl

/-- `isAbsolute` does not hold of a path of names. -/
theorem isAbsolute_eq_false (h : p.IsNamed) : p.isAbsolute = false := by
  cases habsolute : p.isAbsolute with
  | false => rfl
  | true =>
    obtain ⟨cs, hcs⟩ := isAbsolute_iff.1 habsolute
    obtain ⟨s, hs⟩ := h .root (by rw [components_of_slash hcs]; exact List.mem_cons_self)
    cases hs

end IsNamed

/-! ## Joined paths -/

/-- `join`: the stretches of a path that is joined to an absolute one stand behind the components of
    that. -/
theorem exists_segments_join {p q : Path} {cs : List Char} (hp : p.text.toList = '/' :: cs)
    (hq : q.isAbsolute = false) :
    ∃ rest base, (p.join q).text.toList = '/' :: rest ∧
      Text.splitAtAll (· == '/') rest = base ++ q.segments ∧
      base.filterMap ofSegment? = innerComponents cs := by
  have hne : p.text.isEmpty = false := by
    rw [String.isEmpty_eq_false_iff]
    rintro hempty
    rw [hempty] at hp
    cases hp
  rw [join, if_neg (by simp [hq]), hne, Bool.false_or]
  split
  · -- the first path ends in a slash, which is its first one or stands behind others
    rename_i hlast
    rw [hp] at hlast
    rcases List.eq_nil_or_concat cs with rfl | ⟨init, last, hcs⟩
    · exact ⟨q.text.toList, [], by simp [hp], rfl, rfl⟩
    · rw [List.concat_eq_append] at hcs
      have hslash : last = '/' := by
        rw [hcs, ← List.cons_append, List.getLast?_concat] at hlast
        simpa using hlast
      refine ⟨init ++ '/' :: q.text.toList, Text.splitAtAll (· == '/') init, ?_, ?_, ?_⟩
      · simp [hp, hcs, hslash]
      · exact Text.splitAtAll_append_sep init (by decide) _
      · rw [hcs, hslash, innerComponents_append_slash]
        exact (List.append_nil _).symm
  · refine ⟨cs ++ '/' :: q.text.toList, Text.splitAtAll (· == '/') cs, by simp [hp], ?_, rfl⟩
    exact Text.splitAtAll_append_sep cs (by decide) _

/-- `components` of a path of names that is joined to an absolute one. -/
theorem components_join {p q : Path} (hp : p.isAbsolute = true) (hq : q.IsNamed) :
    (p.join q).components = p.components ++ q.components := by
  obtain ⟨cs, hcs⟩ := isAbsolute_iff.1 hp
  obtain ⟨rest, base, htext, hsegments, hbase⟩ := exists_segments_join hcs hq.isAbsolute_eq_false
  rw [components_of_slash htext, components_of_slash hcs, hq.components_eq, innerComponents,
    hsegments, List.filterMap_append, hbase]
  rfl

/-- `dropComponents` leaves, behind the components of the first stretches, the other ones, apart
    from what stands for nothing. -/
theorem dropWhile_dropComponents (base rest : List (List Char)) :
    (dropComponents (base.filterMap ofSegment?).length (base ++ rest)).dropWhile isFiller =
      rest.dropWhile isFiller := by
  induction base with
  | nil => rw [List.filterMap_nil, List.length_nil, dropComponents, List.nil_append]
  | cons s base ih =>
    cases hs : ofSegment? s with
    | none =>
      have hfiller : isFiller s = true := by rw [isFiller, hs]; rfl
      rw [List.filterMap_cons_none hs, List.cons_append]
      -- without a component to drop, `dropComponents` stops at once and leaves the filler
      cases hcount : (base.filterMap ofSegment?).length with
      | zero =>
        rw [hcount, dropComponents] at ih
        rw [dropComponents, List.dropWhile_cons_of_pos hfiller, ih]
      | succ n =>
        rw [hcount] at ih
        rw [dropComponents, if_pos hfiller, ih]
    | some c =>
      have hfiller : isFiller s = false := by rw [isFiller, hs]; rfl
      rw [List.filterMap_cons_some hs, List.length_cons, List.cons_append, dropComponents,
        hfiller]
      exact ih

/-- `relativeTo` gives the part of a joined path below its first one, which does not depend on that
    one. -/
theorem relativeTo_join {p q : Path} (hp : p.isAbsolute = true) (hq : q.IsNamed) :
    (p.join q).relativeTo p =
      ofSegments (dropFillersRight (q.segments.dropWhile isFiller)) := by
  obtain ⟨cs, hcs⟩ := isAbsolute_iff.1 hp
  obtain ⟨rest, base, htext, hsegments, hbase⟩ := exists_segments_join hcs hq.isAbsolute_eq_false
  have hstart : splitStart (p.join q).segments = (some .root, base ++ q.segments) := by
    rw [← hsegments, segments, htext]
    show splitStart ([] :: Text.splitAtAll (· == '/') rest) = _
    cases hrest : Text.splitAtAll (· == '/') rest with
    | nil => exact absurd hrest (Text.splitAtAll_ne_nil rest)
    | cons s segments => rfl
  -- the first path is a prefix, so there is a part below it
  have hbelow : p.components.isPrefixOf (p.join q).components = true := by
    rw [components_join hp hq, List.isPrefixOf_iff_prefix]
    exact List.prefix_append _ _
  rw [relativeTo, below?, if_pos hbelow, components_of_slash hcs, hstart]
  simp only [Option.isSome_some, if_true, List.length_cons, Nat.add_sub_cancel, Option.getD_some]
  rw [← hbase, dropWhile_dropComponents]

/-! ## The characters of a part -/

/-- `dropFillersRight` leaves stretches of the path. -/
theorem dropFillersRight_subset (segments : List (List Char)) :
    dropFillersRight segments ⊆ segments := fun _ hs =>
  List.mem_reverse.1 ((List.dropWhile_suffix _).subset (List.mem_reverse.1 hs))

/-- `dropComponents` leaves stretches of the path. -/
theorem dropComponents_subset (n : Nat) (segments : List (List Char)) :
    dropComponents n segments ⊆ segments := by
  fun_induction dropComponents n segments with
  | case1 segments => exact List.Subset.refl _
  | case2 => exact List.Subset.refl _
  | case3 n s segments hs ih => exact List.Subset.trans ih (List.subset_cons_self _ _)
  | case4 n s segments hs ih => exact List.Subset.trans ih (List.subset_cons_self _ _)

/-- What is written with stretches of a path and dots holds characters of the path, slashes and
    dots. -/
theorem mem_of_mem_joinWith {p : Path} {segments : List (List Char)}
    (h : ∀ s ∈ segments, s = ['.'] ∨ s ∈ p.segments) {c : Char}
    (hc : c ∈ Text.joinWith '/' segments) : c ∈ p.text.toList ∨ c = '/' ∨ c = '.' := by
  rcases Text.eq_or_exists_of_mem_joinWith hc with rfl | ⟨s, hs, hc⟩
  · exact .inr (.inl rfl)
  · rcases h s hs with rfl | hs
    · exact .inr (.inr (List.mem_singleton.1 hc))
    · exact .inl (Text.mem_of_mem_splitAtAll hs hc)

/-- `trimEnd` writes characters of the path, slashes and dots. -/
theorem mem_text_trimEnd {p : Path} {c : Char} (h : c ∈ p.trimEnd.text.toList) :
    c ∈ p.text.toList ∨ c = '/' ∨ c = '.' := by
  have hrest : ∀ s ∈ dropFillersRight (splitStart p.segments).2, s ∈ p.segments := fun s hs =>
    mem_of_mem_splitStart (dropFillersRight_subset _ hs)
  unfold trimEnd at h
  -- an absolute path, one that starts with a dot, and any other one
  split at h
  · rename_i rest hstart
    rw [hstart] at hrest
    rw [String.toList_ofList, List.mem_cons] at h
    rcases h with rfl | h
    · exact .inr (.inl rfl)
    · exact mem_of_mem_joinWith (fun s hs => .inr (hrest s hs)) h
  · rename_i rest _ hstart
    rw [hstart] at hrest
    rw [ofSegments, String.toList_ofList] at h
    refine mem_of_mem_joinWith (fun s hs => ?_) h
    exact (List.mem_cons.1 hs).imp_right (hrest s)
  · rename_i rest hstart
    rw [hstart] at hrest
    rw [ofSegments, String.toList_ofList] at h
    exact mem_of_mem_joinWith (fun s hs => .inr (hrest s hs)) h

/-- `relativeTo` writes characters of the path, slashes and dots. -/
theorem mem_text_relativeTo {root p : Path} {c : Char}
    (h : c ∈ (p.relativeTo root).text.toList) : c ∈ p.text.toList ∨ c = '/' ∨ c = '.' := by
  unfold relativeTo below? at h
  split at h
  · split at h
    · exact mem_text_trimEnd h
    · rw [Option.getD_some, ofSegments, String.toList_ofList] at h
      refine mem_of_mem_joinWith (fun s hs => .inr ?_) h
      -- every stretch that is left is one of the path
      have hdropped := (List.dropWhile_suffix _).subset (dropFillersRight_subset _ hs)
      exact mem_of_mem_splitStart (dropComponents_subset _ _ hdropped)
  · exact .inl h

/-! ## Paths that are written from components -/

/-- `ofSegment?` reads the texts of components back. -/
theorem filterMap_ofSegment?_texts {cs : List Component} (hcs : ∀ c ∈ cs, c.IsInner) :
    (cs.map fun c => c.text.toList).filterMap ofSegment? = cs := by
  induction cs with
  | nil => rfl
  | cons c rest ih =>
    rw [List.map_cons, List.filterMap_cons_some (hcs c List.mem_cons_self).read,
      ih fun d hd => hcs d (List.mem_cons_of_mem c hd)]

/-- `components` of an absolute path that is written from components are these. -/
theorem components_ofComponents {cs : List Component} (hcs : ∀ c ∈ cs, c.IsInner) :
    (ofComponents (.root :: cs)).components = .root :: cs := by
  have htext : (ofComponents (.root :: cs)).text.toList =
      '/' :: Text.joinWith '/' (cs.map fun c => c.text.toList) := String.toList_ofList
  rw [components_of_slash htext, innerComponents]
  cases cs with
  | nil => rfl
  | cons c rest =>
    -- no text of a step has a slash, so the slashes are those between the steps
    have hslashes : ∀ s ∈ (c :: rest).map fun c => c.text.toList, '/' ∉ s := by
      intro s hs
      obtain ⟨d, hd, rfl⟩ := List.mem_map.1 hs
      exact (hcs d hd).noSlash
    rw [Text.splitAtAll_joinWith (by simp) hslashes, filterMap_ofSegment?_texts hcs]

/-- `addExtension` changes the last name. -/
theorem addExtension_ofComponents (cs : List Component) (n ext : String) :
    (ofComponents (.root :: (cs ++ [.name n]))).addExtension ext =
      ofComponents (.root :: (cs ++ [.name (n ++ "." ++ ext)])) := by
  have hjoin := Text.joinWith_concat_append '/' (cs.map fun c => c.text.toList) n.toList
    ('.' :: ext.toList)
  refine congrArg Path.mk (String.toList_inj.1 ?_)
  simp only [ofComponents, List.map_append, List.map_cons, List.map_nil, Component.text,
    String.toList_append, String.toList_ofList, List.cons_append]
  simp only [List.append_assoc] at hjoin ⊢
  exact congrArg _ hjoin

/-- The path of a folder that is absolute and made of names. -/
structure IsBase (p : Path) : Prop where
  absolute : p.isAbsolute = true
  names : ∀ c ∈ p.components, c = .root ∨ c.IsName

instance (p : Path) : Decidable p.IsBase :=
  decidable_of_iff (p.isAbsolute = true ∧ ∀ c ∈ p.components, c = .root ∨ c.IsName)
    ⟨fun h => ⟨h.1, h.2⟩, fun h => ⟨h.absolute, h.names⟩⟩

section

variable {root : Path}

/-- `components` of an absolute path can stand between slashes behind the root. -/
theorem exists_inner_of_absolute (hroot : root.isAbsolute = true) :
    ∃ names, root.components = .root :: names ∧ ∀ c ∈ names, c.IsInner := by
  obtain ⟨cs, hcs⟩ := isAbsolute_iff.1 hroot
  refine ⟨innerComponents cs, components_of_slash hcs, fun c hc => ?_⟩
  obtain ⟨segment, hsegment, hc⟩ := List.mem_filterMap.1 hc
  exact isInner_of_mem_segments hsegment hc

/-- `isAbsolute` holds of what is written below an absolute path. -/
theorem isAbsolute_ofComponents_below (hroot : root.isAbsolute = true) (steps : List Component) :
    (ofComponents (root.components ++ steps)).isAbsolute = true := by
  obtain ⟨names, hnames, -⟩ := exists_inner_of_absolute hroot
  rw [hnames]
  exact isAbsolute_iff.2 ⟨_, String.toList_ofList⟩

/-- `components` of what is written below an absolute path. -/
theorem components_ofComponents_below (hroot : root.isAbsolute = true) {steps : List Component}
    (hsteps : ∀ c ∈ steps, c.IsInner) :
    (ofComponents (root.components ++ steps)).components = root.components ++ steps := by
  obtain ⟨names, hnames, hinner⟩ := exists_inner_of_absolute hroot
  rw [hnames, List.cons_append]
  refine components_ofComponents fun c hc => ?_
  exact (List.mem_append.1 hc).elim (hinner c) (hsteps c)

/-- `components` of what is written below an absolute path and given an extension. -/
theorem components_addExtension (hroot : root.isAbsolute = true) {steps : List Component}
    {n ext : String} (hsteps : ∀ c ∈ steps ++ [.name n], c.IsInner) (hne : ext.toList ≠ [])
    (hslash : '/' ∉ ext.toList) :
    ((ofComponents (root.components ++ (steps ++ [.name n]))).addExtension ext).components =
      root.components ++ (steps ++ [.name (n ++ "." ++ ext)]) := by
  -- the extension is written behind the last name
  have hwritten : (ofComponents (root.components ++ (steps ++ [.name n]))).addExtension ext =
      ofComponents (root.components ++ (steps ++ [.name (n ++ "." ++ ext)])) := by
    obtain ⟨names, hnames, -⟩ := exists_inner_of_absolute hroot
    rw [hnames, List.cons_append, List.cons_append, ← List.append_assoc, ← List.append_assoc]
    exact addExtension_ofComponents (names ++ steps) n ext
  rw [hwritten]
  refine components_ofComponents_below hroot fun c hc => ?_
  rcases List.mem_append.1 hc with hc | hc
  · exact hsteps c (List.mem_append_left _ hc)
  · cases List.mem_singleton.1 hc
    exact (hsteps _ (List.mem_append_right _ List.mem_cons_self)).extend hne hslash

end

/-! ## Steps below a folder -/

/-- Takes a step below a folder, behind those already taken, last first. There is no way up from
    the folder. -/
def stepBelow? (taken : List Component) : Component → Option (List Component)
  | .root => none
  | .current => some taken
  | .parent => if taken.isEmpty then none else some taken.tail
  | .name s => some (.name s :: taken)

/-- The specifier is relative, and its steps never leave the folder that the path starts from, when
    they are taken from the folder that holds the path, and end below it. -/
def StaysBelow (p : Path) (specifier : String) : Prop :=
  (Path.mk specifier).isAbsolute = false ∧
    ∃ place ∈ (Path.mk specifier).components.foldlM stepBelow? p.components.dropLast.reverse,
      place ≠ []

instance (p : Path) (specifier : String) : Decidable (p.StaysBelow specifier) :=
  inferInstanceAs (Decidable (_ ∧ ∃ place ∈ _, place ≠ []))

/-- `takeStep` takes names as they are. -/
theorem foldl_takeStep_of_names {steps : List Component}
    (hsteps : ∀ c ∈ steps, c = .root ∨ c.IsName) (taken : List Component) :
    steps.foldl takeStep taken = steps.reverse ++ taken := by
  induction steps generalizing taken with
  | nil => rfl
  | cons c rest ih =>
    have hc : takeStep taken c = c :: taken := by
      rcases hsteps c List.mem_cons_self with rfl | ⟨s, rfl⟩ <;> rfl
    rw [List.foldl_cons, hc, ih fun d hd => hsteps d (List.mem_cons_of_mem c hd)]
    simp

/-- `takeStep` below a folder is the same step, whatever leads to the folder. -/
theorem takeStep_of_below {taken place : List Component} {c : Component}
    (htaken : ∀ d ∈ taken, d.IsName) (h : stepBelow? taken c = some place)
    (above : List Component) :
    takeStep (taken ++ above) c = place ++ above ∧ ∀ d ∈ place, d ∈ taken ∨ d = c ∧ d.IsName := by
  -- a step up stays below if a name has been taken before
  cases c with
  | root => cases h
  | current =>
    cases h
    exact ⟨rfl, fun d hd => .inl hd⟩
  | name s =>
    cases h
    exact ⟨rfl, fun d hd => (List.mem_cons.1 hd).symm.imp id fun heq => ⟨heq, s, heq⟩⟩
  | parent =>
    cases taken with
    | nil => cases h
    | cons d rest =>
      cases h
      obtain ⟨s, rfl⟩ := htaken d List.mem_cons_self
      exact ⟨rfl, fun e he => .inl (List.mem_cons_of_mem _ he)⟩

/-- `takeStep` for steps below a folder leads to the same place, whatever leads to the folder. -/
theorem foldl_takeStep_of_below {steps taken place : List Component}
    (htaken : ∀ d ∈ taken, d.IsName) (h : steps.foldlM stepBelow? taken = some place)
    (above : List Component) :
    steps.foldl takeStep (taken ++ above) = place ++ above ∧
      ∀ d ∈ place, d.IsName ∧ (d ∈ taken ∨ d ∈ steps) := by
  -- the steps taken so far are names, so the next one does not leave the folder either
  induction steps generalizing taken with
  | nil =>
    cases h
    exact ⟨rfl, fun d hd => ⟨htaken d hd, .inl hd⟩⟩
  | cons c rest ih =>
    rw [List.foldlM_cons] at h
    obtain ⟨next, hnext, hrest⟩ := Option.bind_eq_some_iff.1 h
    obtain ⟨hstep, hmem⟩ := takeStep_of_below htaken hnext above
    have hnames : ∀ d ∈ next, d.IsName := fun d hd =>
      (hmem d hd).elim (htaken d) And.right
    obtain ⟨hplace, hsteps⟩ := ih hnames hrest
    refine ⟨by rw [List.foldl_cons, hstep, hplace], fun d hd => ⟨(hsteps d hd).1, ?_⟩⟩
    rcases (hsteps d hd).2 with hd | hd
    · exact (hmem d hd).imp id fun heq => by rw [heq.1]; exact List.mem_cons_self
    · exact .inr (List.mem_cons_of_mem c hd)

/-- `normalComponents` of steps that are carried out in a folder below another one, and never leave
    that one, lead to the same place below it, wherever it is. -/
theorem normalComponents_below {base folder steps place : List Component}
    (hbase : ∀ c ∈ base, c = .root ∨ c.IsName) (hfolder : ∀ c ∈ folder, c.IsName)
    (h : steps.foldlM stepBelow? folder.reverse = some place) :
    normalComponents (base ++ folder ++ steps) = base ++ place.reverse ∧
      ∀ c ∈ place, c.IsName ∧ (c ∈ folder ∨ c ∈ steps) := by
  have hnames : ∀ c ∈ base ++ folder, c = .root ∨ c.IsName := fun c hc =>
    (List.mem_append.1 hc).elim (hbase c) fun hc => .inr (hfolder c hc)
  have hreverse : ∀ c ∈ folder.reverse, c.IsName := fun c hc => hfolder c (List.mem_reverse.1 hc)
  obtain ⟨hplace, hmem⟩ := foldl_takeStep_of_below hreverse h base.reverse
  refine ⟨?_, by simpa using hmem⟩
  rw [normalComponents, List.foldl_append, foldl_takeStep_of_names hnames, List.reverse_append,
    List.append_nil, hplace, List.reverse_append, List.reverse_reverse]

end Path
end Deadwood
