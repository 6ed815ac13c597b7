import Deadwood.Proofs.Path

/-!
# Normal paths and the places that they name

By its text alone, a path leads from the root, or from the folder that one is in, so many folders
up and then down over names (`Place`). A normal path is written for the same start and the same
names. Of the steps up it keeps only whether their number is odd: a second `..` takes back the first
one (`normalize_keeps_parity`). So it names the same place where at most one step up is left in a
relative path, and an even number of them at the root.
-/

namespace Deadwood

open Component

/-- Where the steps of a path lead, by its text alone. -/
structure Place where
  /-- Do the steps start at the root? -/
  absolute : Bool
  /-- How many steps up had no name to take back. -/
  up : Nat
  /-- The names that no step up has taken back, last first. -/
  names : List String
  deriving DecidableEq

namespace Place

/-- The folder in which relative paths start. -/
def here : Place := ⟨false, 0, []⟩

/-- Takes one more step. A step up takes back the last name, if there is one. -/
def step (w : Place) : Component → Place
  | .root => ⟨true, 0, []⟩
  | .current => w
  | .parent =>
    match w.names with
    | [] => { w with up := w.up + 1 }
    | _ :: rest => { w with names := rest }
  | .name s => { w with names := s :: w.names }

/-- The component with which a path starts at the root. -/
def start : Bool → List Component
  | true => [.root]
  | false => []

/-- The start and the names of the place, with the given number of `..` between them. -/
def components (w : Place) (ups : Nat) : List Component :=
  start w.absolute ++ List.replicate ups .parent ++ w.names.reverse.map .name

/-- The steps up that lead to the place. At the root there is no way up. -/
def stepsUp (w : Place) : Nat := if w.absolute then 0 else w.up

/-- The path that names the place without detours. -/
def path (w : Place) : Path := Path.ofComponents (w.components w.stepsUp)

end Place

/-- The place that a path names. -/
def Path.place (p : Path) : Place := p.components.foldl Place.step .here

namespace Place

/-! ## Steps are taken as at the place -/

/-- `Path.takeStep` changes the parity of the steps up where it goes up from a place without names.
    -/
theorem takeStep_components (w : Place) {c : Component} (hc : c ≠ .root) :
    Path.takeStep (w.components (w.up % 2)).reverse c =
      ((w.step c).components ((w.step c).up % 2)).reverse := by
  obtain ⟨absolute, up, names⟩ := w
  cases c with
  | root => exact absurd rfl hc
  | current => rfl
  | name s => simp [step, components, Path.takeStep]
  | parent =>
    cases names with
    | cons n rest => simp [step, components, Path.takeStep]
    | nil =>
      -- a `..` that is left is taken back by the next one
      rcases Nat.mod_two_eq_zero_or_one up with hup | hup
      · have hnext : (up + 1) % 2 = 1 := by omega
        cases absolute <;> simp [step, components, start, Path.takeStep, hup, hnext]
      · have hnext : (up + 1) % 2 = 0 := by omega
        cases absolute <;> simp [step, components, start, Path.takeStep, hup, hnext]

/-- `Path.takeStep` for steps that do not go to the root leads where `Place.step` does, but for
    pairs of steps up. -/
theorem foldl_takeStep_components (w : Place) {cs : List Component} (hcs : ∀ c ∈ cs, c ≠ .root) :
    cs.foldl Path.takeStep (w.components (w.up % 2)).reverse =
      ((cs.foldl step w).components ((cs.foldl step w).up % 2)).reverse := by
  induction cs generalizing w with
  | nil => rfl
  | cons c cs ih =>
    rw [List.foldl_cons, w.takeStep_components (hcs c List.mem_cons_self),
      ih (w.step c) fun d hd => hcs d (List.mem_cons_of_mem c hd), List.foldl_cons]

/-- `Place.step` adds no name but its own. -/
theorem mem_names_step {w : Place} {c : Component} {s : String} (h : s ∈ (w.step c).names) :
    s ∈ w.names ∨ c = .name s := by
  obtain ⟨absolute, up, names⟩ := w
  -- only a name adds one; a step up takes the last one away
  cases c with
  | root => cases h
  | current => exact .inl h
  | parent =>
    cases names with
    | nil => cases h
    | cons n rest => exact .inl (List.mem_cons_of_mem n h)
  | name t =>
    rcases List.mem_cons.1 h with rfl | h
    · exact .inr rfl
    · exact .inl h

/-- `Place.step` adds no names but those of the steps. -/
theorem mem_names_foldl {w : Place} {cs : List Component} {s : String}
    (h : s ∈ (cs.foldl step w).names) : s ∈ w.names ∨ .name s ∈ cs := by
  induction cs generalizing w with
  | nil => exact .inl h
  | cons c cs ih =>
    rcases ih h with hstep | hcs
    · rcases mem_names_step hstep with hw | rfl
      · exact .inl hw
      · exact .inr List.mem_cons_self
    · exact .inr (List.mem_cons_of_mem c hcs)

end Place

namespace Path

/-! ## The components of a path and of its place -/

/-- `Path.components` have the root at most as the first one. -/
theorem exists_components_eq (p : Path) :
    ∃ absolute rest, p.components = Place.start absolute ++ rest ∧ ∀ c ∈ rest, c ≠ .root := by
  -- a root is read off the start only
  have hinner : ∀ c ∈ (splitStart p.segments).2.filterMap ofSegment?, c ≠ .root := by
    rintro c hc rfl
    obtain ⟨segment, -, hsegment⟩ := List.mem_filterMap.1 hc
    have htext := toList_text_of_segment hsegment
    rw [← htext] at hsegment
    cases hsegment
  show ∃ absolute rest, (splitStart p.segments).1.toList ++
    (splitStart p.segments).2.filterMap ofSegment? = Place.start absolute ++ rest ∧ _
  cases hstart : (splitStart p.segments).1 with
  | none => exact ⟨false, _, rfl, hinner⟩
  | some c =>
    by_cases hc : c = .root
    · exact ⟨true, _, by rw [hc]; rfl, hinner⟩
    · exact ⟨false, _, rfl, List.forall_mem_cons.2 ⟨hc, hinner⟩⟩

/-- `IsInner` holds of `..`. -/
theorem isInner_parent : Component.parent.IsInner := ⟨rfl, by decide⟩

/-- `IsInner` holds of the names of a path's place. -/
theorem isInner_of_mem_place {p : Path} {s : String} (h : s ∈ p.place.names) :
    (Component.name s).IsInner := by
  rcases Place.mem_names_foldl h with hnone | hmem
  · cases hnone
  · exact isInner_of_mem_components hmem ⟨s, rfl⟩

/-- `Path.components` of relative paths that are written from components are these. -/
theorem components_ofComponents_relative {cs : List Component} (hcs : ∀ c ∈ cs, c.IsInner) :
    (ofComponents cs).components = cs := by
  cases cs with
  | nil => rfl
  | cons c rest =>
    have hc := hcs c List.mem_cons_self
    have hroot : c ≠ .root := by
      rintro rfl
      exact hc.noSlash (by decide)
    have htext : (ofComponents (c :: rest)).text.toList =
        Text.joinWith '/' ((c :: rest).map fun c => c.text.toList) := by
      unfold ofComponents
      split
      · rename_i heq
        cases heq
        exact absurd rfl hroot
      · exact String.toList_ofList
    have hslashes : ∀ s ∈ (c :: rest).map fun c => c.text.toList, '/' ∉ s := by
      intro s hs
      obtain ⟨d, hd, rfl⟩ := List.mem_map.1 hs
      exact (hcs d hd).noSlash
    have hsegments : (ofComponents (c :: rest)).segments =
        (c :: rest).map fun c => c.text.toList := by
      rw [segments, htext, Text.splitAtAll_joinWith (by simp) hslashes]
    -- the first stretch is read as a component, so it is neither empty nor `.`
    have hstart : splitStart ((c :: rest).map fun c => c.text.toList) =
        (none, (c :: rest).map fun c => c.text.toList) := by
      have hread := hc.read
      rw [List.map_cons]
      unfold splitStart
      split
      · rename_i heq
        rw [(List.cons.inj heq).1] at hread
        cases hread
      · rename_i heq
        rw [(List.cons.inj heq).1] at hread
        cases hread
      · rfl
    rw [components, hsegments, hstart]
    exact filterMap_ofSegment?_texts hcs

/-- `Path.components` of what is written for a place. -/
theorem components_ofComponents_place (p : Path) (ups : Nat) :
    (ofComponents (p.place.components ups)).components = p.place.components ups := by
  -- steps up and names can stand anywhere but at the start
  have hinner : ∀ c ∈ List.replicate ups Component.parent ++ p.place.names.reverse.map .name,
      c.IsInner := by
    intro c hc
    rcases List.mem_append.1 hc with hc | hc
    · rw [List.eq_of_mem_replicate hc]
      exact isInner_parent
    · obtain ⟨s, hs, rfl⟩ := List.mem_map.1 hc
      exact isInner_of_mem_place (List.mem_reverse.1 hs)
  rw [Place.components, List.append_assoc]
  cases p.place.absolute with
  | true => exact components_ofComponents hinner
  | false => exact components_ofComponents_relative hinner

/-! ## Normal paths -/

/-- `normalComponents` are what is left when all steps are carried out: the start, one `..` for an
    odd number of steps up, and the names. -/
theorem normalComponents_components (p : Path) :
    normalComponents p.components = p.place.components (p.place.up % 2) := by
  obtain ⟨absolute, rest, hcomponents, hrest⟩ := p.exists_components_eq
  have hrun := (Place.mk absolute 0 []).foldl_takeStep_components hrest
  have hplace : p.place = rest.foldl Place.step ⟨absolute, 0, []⟩ := by
    rw [place, hcomponents, List.foldl_append]
    cases absolute <;> rfl
  have hsteps : p.components.foldl takeStep [] =
      rest.foldl takeStep ((Place.mk absolute 0 []).components (0 % 2)).reverse := by
    rw [hcomponents, List.foldl_append]
    cases absolute <;> rfl
  rw [normalComponents, hsteps, hrun, List.reverse_reverse, hplace]

/-- `Path.normalize` gives the start and the names of the place, and one `..` where the number of
    steps up is odd. So it is the path of the place exactly where that is the right number of `..`.
    -/
theorem normalize_keeps_parity (p : Path) :
    p.normalize = ofComponents (p.place.components (p.place.up % 2)) ∧
      (p.normalize = p.place.path ↔ p.place.up % 2 = p.place.stepsUp) := by
  have hnormal : p.normalize = ofComponents (p.place.components (p.place.up % 2)) := by
    rw [normalize, normalComponents_components]
  refine ⟨hnormal, ?_⟩
  rw [hnormal, Place.path]
  constructor
  · intro h
    -- the components are read back, and their number tells that of the steps up
    have hread := congrArg components h
    rw [components_ofComponents_place, components_ofComponents_place] at hread
    have hlength := congrArg List.length hread
    simp only [Place.components, List.length_append, List.length_replicate] at hlength
    omega
  · intro h
    rw [h]

/-- Two steps up from the folder that one is in come back to it, and a step up from the root is
    written down. -/
theorem normalize_takes_back_up :
    (Path.mk "../..").normalize = ⟨""⟩ ∧ (Path.mk "../..").place.path = ⟨"../.."⟩ ∧
      (Path.mk "/..").normalize = ⟨"/.."⟩ ∧ (Path.mk "/..").place.path = ⟨"/"⟩ := by
  decide

end Path
end Deadwood
