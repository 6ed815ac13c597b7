import Mathlib.Data.List.Forall2
import Deadwood.Graph.Cycle
import Deadwood.Graph.EntryPoints
import Deadwood.Proofs.Graph.Build
import Deadwood.Proofs.Path

/-!
# Projects that are moved

A project is moved when its files are placed below another folder. A path and the one that it
becomes are told by the same steps from the two folders and by the same part below them
(`Path.Moved`), so they are compared alike, resolved alike and shown alike. All that is worked out
from the files is made of paths, and what comes of a moved project is the same up to moving the
paths: this goes through the graph (`moved_build`), the entry points (`moved_detect`), what they
lead to and the dead cycles.
-/

namespace List

variable {α β : Type} {R : α → β → Prop}

/-- `Forall₂` of two functions over one list. -/
theorem forall₂_map_same {γ : Type} {f : γ → α} {f' : γ → β} {xs : List γ} :
    Forall₂ R (xs.map f) (xs.map f') ↔ ∀ x ∈ xs, R (f x) (f' x) := by
  rw [forall₂_map_left_iff, forall₂_map_right_iff, forall₂_same]

/-- `Forall₂` is kept by `mergeSort`, for orders that agree on related members. -/
theorem Forall₂.mergeSort {le : α → α → Bool} {le' : β → β → Bool}
    (hle : ∀ a a', R a a' → ∀ b b', R b b' → le a b = le' a' b') {l : List α} {l' : List β}
    (h : Forall₂ R l l') : Forall₂ R (l.mergeSort le) (l'.mergeSort le') := by
  obtain ⟨hlength, hmem⟩ := forall₂_iff_zip.1 h
  -- both lists are sorted by sorting the pairs of related members
  have hleft : (l.zip l').map Prod.fst = l := map_fst_zip (Nat.le_of_eq hlength)
  have hright : (l.zip l').map Prod.snd = l' := map_snd_zip (Nat.le_of_eq hlength.symm)
  have hfst : ((l.zip l').mergeSort fun x y => le x.1 y.1).map Prod.fst = l.mergeSort le := by
    rw [map_mergeSort (s := le) fun _ _ _ _ => rfl, hleft]
  have hsnd : ((l.zip l').mergeSort fun x y => le x.1 y.1).map Prod.snd = l'.mergeSort le' := by
    rw [map_mergeSort (s := le') fun x hx y hy => hle _ _ (hmem hx) _ _ (hmem hy), hright]
  rw [← hfst, ← hsnd, forall₂_map_same]
  intro x hx
  exact hmem (mem_mergeSort.1 hx)

/-- `Forall₂` members at one place are related. -/
theorem Forall₂.rel_getElem? {l : List α} {l' : List β} (h : Forall₂ R l l') (i : Nat) :
    Option.Rel R l[i]? l'[i]? := by
  induction h generalizing i with
  | nil => exact .none
  | cons hab _ ih =>
    cases i with
    | zero => exact .some hab
    | succ i => exact ih i

/-- `List.compareLex` orders related lists alike. -/
theorem Forall₂.compareLex {cmp : α → α → Ordering} {cmp' : β → β → Ordering}
    (hcmp : ∀ a a', R a a' → ∀ b b', R b b' → cmp a b = cmp' a' b') {l m : List α} {l' m' : List β}
    (h : Forall₂ R l l') (hm : Forall₂ R m m') :
    List.compareLex cmp l m = List.compareLex cmp' l' m' := by
  induction h generalizing m m' with
  | nil => cases hm <;> rfl
  | cons hab _ ih =>
    cases hm with
    | nil => rfl
    | cons hcd hm =>
      rw [List.compareLex_cons_cons, List.compareLex_cons_cons, hcmp _ _ hab _ _ hcd, ih hm]

/-- `List.compareLex` does not count what lists have in common at their start. -/
theorem compareLex_append {cmp : α → α → Ordering} [Std.ReflCmp cmp] (xs l m : List α) :
    List.compareLex cmp (xs ++ l) (xs ++ m) = List.compareLex cmp l m := by
  induction xs with
  | nil => rfl
  | cons x xs ih =>
    have hx : cmp x x = .eq := Std.ReflCmp.compare_self
    rw [cons_append, cons_append, List.compareLex_cons_cons, hx, ih]
    rfl

end List

namespace Deadwood

open List (Forall₂)

/-! ## Paths -/

namespace Path

/-- The same steps lead from the two folders to the two paths. -/
def SameSteps (root root' p p' : Path) : Prop :=
  ∃ steps, p.components = root.components ++ steps ∧ p'.components = root'.components ++ steps

/-- The second path is to the second folder what the first path is to the first folder. -/
structure Moved (root root' p p' : Path) : Prop where
  steps : SameSteps root root' p p'
  /-- The parts below the folders are spelled alike. -/
  part : p.relativeTo root = p'.relativeTo root'

variable {root root' p p' q q' : Path}

/-- `Path.same` does not depend on the folder. -/
theorem SameSteps.same (hp : SameSteps root root' p p') (hq : SameSteps root root' q q') :
    p.same q = p'.same q' := by
  obtain ⟨steps, hp, hp'⟩ := hp
  obtain ⟨others, hq, hq'⟩ := hq
  rw [Bool.eq_iff_iff, same_iff, same_iff, hp, hq, hp', hq', List.append_right_inj,
    List.append_right_inj]

/-- `Path.compare` does not depend on the folder. -/
theorem SameSteps.compare (hp : SameSteps root root' p p') (hq : SameSteps root root' q q') :
    p.compare q = p'.compare q' := by
  obtain ⟨steps, hp, hp'⟩ := hp
  obtain ⟨others, hq, hq'⟩ := hq
  rw [Path.compare, Path.compare, hp, hq, hp', hq', List.compareLex_append, List.compareLex_append]

/-- `Path.isIn` does not depend on the folder. -/
theorem SameSteps.isIn (hp : SameSteps root root' p p') {paths paths' : List Path}
    (h : Forall₂ (SameSteps root root') paths paths') : p.isIn paths = p'.isIn paths' := by
  induction h with
  | nil => rfl
  | cons hq _ ih =>
    rw [Path.isIn, Path.isIn, List.any_cons, List.any_cons, hp.same hq]
    exact congrArg _ ih

/-- `Path.isIn`: moved paths are the same members of the moved list. -/
theorem Moved.isIn (hp : Moved root root' p p') {paths paths' : List Path}
    (h : Forall₂ (Moved root root') paths paths') : p.isIn paths = p'.isIn paths' :=
  hp.steps.isIn (h.imp fun _ _ => Moved.steps)

/-- `Path.le` puts moved paths into the same order. -/
theorem moved_mergeSort {paths paths' : List Path} (h : Forall₂ (Moved root root') paths paths') :
    Forall₂ (Moved root root') (paths.mergeSort Path.le) (paths'.mergeSort Path.le) := by
  refine h.mergeSort fun p p' hp q q' hq => ?_
  rw [le, le, hp.steps.compare hq.steps]

/-- `Path.join`: a file that is placed below one folder and then below the other is moved. -/
theorem moved_join (hroot : root.isAbsolute = true) (hroot' : root'.isAbsolute = true)
    (hp : p.IsNamed) : Moved root root' (root.join p) (root'.join p) where
  steps := ⟨p.components, components_join hroot hp, components_join hroot' hp⟩
  part := by rw [relativeTo_join hroot hp, relativeTo_join hroot' hp]

end Path

/-! ## References -/

namespace Resolution

open Deadwood.Path Component

variable {root root' : Path}

/-- `Path.extension?` is told by the last name. -/
theorem extension?_of_last {p : Path} {steps : List Component} {n : String}
    (h : p.components = steps ++ [.name n]) : p.extension? = (splitName n).2 := by
  simp [extension?, fileName?, h]

/-- `moduleExtensions` are names without separators. -/
theorem moduleExtensions_isInner : ∀ ext ∈ moduleExtensions,
    ext.toList ≠ [] ∧ '/' ∉ ext.toList ∧
      (Path.mk ("index." ++ ext)).components = [.name ("index." ++ ext)] := by
  decide +kernel

/-- `Path.components` of the index file of a folder have one step more. -/
theorem components_index (hroot : root.isAbsolute = true) {steps : List Component}
    (hsteps : ∀ c ∈ steps, c.IsInner) {ext : String} (hext : ext ∈ moduleExtensions) :
    ((ofComponents (root.components ++ steps)).join ⟨"index." ++ ext⟩).components =
      root.components ++ (steps ++ [.name ("index." ++ ext)]) := by
  obtain ⟨-, -, hindex⟩ := moduleExtensions_isInner ext hext
  have hnamed : (Path.mk ("index." ++ ext)).IsNamed := by
    rw [IsNamed, hindex]
    simp [IsName]
  rw [components_join (isAbsolute_ofComponents_below hroot _) hnamed,
    components_ofComponents_below hroot hsteps, hindex, List.append_assoc]

/-- `candidates` of a place below a folder are told by the same steps wherever the folder is. -/
theorem sameSteps_candidates (hroot : root.isAbsolute = true) (hroot' : root'.isAbsolute = true)
    {steps : List Component} {n : String} (hsteps : ∀ c ∈ steps ++ [.name n], c.IsInner) :
    Forall₂ (SameSteps root root')
      (candidates (ofComponents (root.components ++ (steps ++ [.name n]))))
      (candidates (ofComponents (root'.components ++ (steps ++ [.name n])))) := by
  have hplace := components_ofComponents_below hroot hsteps
  have hplace' := components_ofComponents_below hroot' hsteps
  have hsame : SameSteps root root' (ofComponents (root.components ++ (steps ++ [.name n])))
      (ofComponents (root'.components ++ (steps ++ [.name n]))) := ⟨_, hplace, hplace'⟩
  unfold candidates
  rw [extension?_of_last (hplace.trans (List.append_assoc _ _ _).symm),
    extension?_of_last (hplace'.trans (List.append_assoc _ _ _).symm)]
  -- with an extension of its own a place stands for itself only
  split
  · exact .cons hsame .nil
  · refine .cons hsame (List.rel_append ?_ ?_)
    · refine List.forall₂_map_same.2 fun ext hext => ?_
      obtain ⟨hne, hslash, -⟩ := moduleExtensions_isInner ext hext
      exact ⟨_, components_addExtension hroot hsteps hne hslash,
        components_addExtension hroot' hsteps hne hslash⟩
    · refine List.forall₂_map_same.2 fun ext hext => ?_
      exact ⟨_, components_index hroot hsteps hext, components_index hroot' hsteps hext⟩

/-- `target` of a specifier that stays below the folder of the project is the same place below it
    wherever the folder is. -/
theorem target_of_staysBelow {p : Path} (hp : p.IsNamed) {specifier : String}
    (h : p.StaysBelow specifier) :
    ∃ steps n, (∀ c ∈ steps ++ [.name n], c.IsInner) ∧ ∀ root : Path, root.IsBase →
      target (root.components ++ p.components.dropLast) specifier =
        ofComponents (root.components ++ (steps ++ [.name n])) := by
  obtain ⟨hrelative, place, hplace, hne⟩ := h
  have hfolder : ∀ c ∈ p.components.dropLast, c.IsName := fun c hc =>
    hp c (List.dropLast_subset _ hc)
  -- the steps that are left are names of the file's path or of the specifier
  have hmem := (normalComponents_below (List.forall_mem_nil _) hfolder hplace).2
  have hinner : ∀ c ∈ place, c.IsInner := fun c hc =>
    (hmem c hc).2.elim
      (fun h => isInner_of_mem_components (List.dropLast_subset _ h) (hmem c hc).1)
      fun h => isInner_of_mem_components h (hmem c hc).1
  obtain ⟨last, rest, rfl⟩ := List.exists_cons_of_ne_nil hne
  obtain ⟨n, rfl⟩ := (hmem last List.mem_cons_self).1
  refine ⟨rest.reverse, n, fun c hc => hinner c (by simpa [or_comm] using hc), ?_⟩
  intro root hroot
  rw [target, if_neg (by simp [hrelative]), (normalComponents_below hroot.names hfolder hplace).1,
    List.reverse_cons]

/-- `Path.parentComponents?` of a file below a folder. -/
theorem parentComponents?_join (hroot : root.isAbsolute = true) {p : Path} (hp : p.IsNamed)
    (hne : p.components ≠ []) :
    (root.join p).parentComponents? = some (root.components ++ p.components.dropLast) := by
  have hlast : (root.components ++ p.components).getLast? =
      some (p.components.getLast hne) := by
    rw [List.getLast?_append_of_ne_nil _ hne, List.getLast?_eq_some_getLast hne]
  obtain ⟨s, hs⟩ := hp _ (List.getLast_mem hne)
  rw [parentComponents?, components_join hroot hp, hlast, hs, List.dropLast_append_of_ne_nil hne]

/-- `resolve?` of a specifier that stays below the folder of the project finds files that are told
    by the same steps wherever the folder is. -/
theorem sameSteps_resolve? (hroot : root.IsBase) (hroot' : root'.IsBase) {p : Path}
    (hp : p.IsNamed) (hne : p.components ≠ []) {specifier : String} (h : p.StaysBelow specifier)
    {known known' : List Path} (hknown : Forall₂ (SameSteps root root') known known') :
    Option.Rel (SameSteps root root') (resolve? known (root.join p) specifier)
      (resolve? known' (root'.join p) specifier) := by
  -- the specifier names the same steps below either folder
  obtain ⟨steps, n, hinner, htarget⟩ := target_of_staysBelow hp h
  unfold resolve?
  split
  · rw [parentComponents?_join hroot.absolute hp hne, parentComponents?_join hroot'.absolute hp hne,
      Option.bind_some, Option.bind_some, htarget root hroot, htarget root' hroot']
    exact (sameSteps_candidates hroot.absolute hroot'.absolute hinner).rel_find?
      fun _ _ hq => hq.isIn hknown
  · exact .none

end Resolution

/-! ## Graphs -/

namespace Graph

open Deadwood.Path

variable {root root' : Path}

/-- The second graph is about the moved files. -/
structure Moved (root root' : Path) (g g' : Graph) : Prop where
  files : Forall₂ (Path.Moved root root') g.files g'.files
  /-- The index has the same numbers under the moved paths. -/
  index : Forall₂ (fun e e' => SameSteps root root' e.1 e'.1 ∧ e.2 = e'.2) g.index g'.index
  imports : g.imports = g'.imports

namespace Moved

variable {g g' : Graph}

/-- `Graph.nodeIndex?` gives moved paths the same numbers. -/
theorem nodeIndex? (h : Moved root root' g g') {p p' : Path} (hp : SameSteps root root' p p') :
    g.nodeIndex? p = g'.nodeIndex? p' := by
  have hfind := h.index.rel_find? fun e e' he => hp.same he.1
  rw [Graph.nodeIndex?, Graph.nodeIndex?, PathIndex.get?, PathIndex.get?]
  revert hfind
  -- only how the two finds are related counts
  generalize g.index.find? (fun e => p.same e.1) = found
  generalize g'.index.find? (fun e => p'.same e.1) = found'
  intro hfind
  cases hfind with
  | none => rfl
  | some he => exact congrArg some he.2

/-- `Graph.addFile` of a moved path keeps `Moved`. -/
theorem addFile (h : Moved root root' g g') {p p' : Path} (hp : Path.Moved root root' p p') :
    Moved root root' (g.addFile p) (g'.addFile p') := by
  unfold Graph.addFile
  rw [contains, contains, h.nodeIndex? hp.steps]
  split
  · exact h
  · exact ⟨List.rel_append h.files (.cons hp .nil),
      .cons ⟨hp.steps, h.files.length_eq⟩ h.index, h.imports⟩

/-- `Graph.addImport` between moved paths keeps `Moved`. -/
theorem addImport (h : Moved root root' g g') {p p' q q' : Path} (hp : SameSteps root root' p p')
    (hq : SameSteps root root' q q') : Moved root root' (g.addImport p q) (g'.addImport p' q') := by
  rw [Graph.addImport, Graph.addImport, addImport?, addImport?, h.nodeIndex? hp, h.nodeIndex? hq,
    h.imports]
  split
  · -- both graphs have the import already or neither has it
    rw [Option.getD_some, Option.getD_some]
    split
    · exact h
    · exact ⟨h.files, h.index, rfl⟩
  · exact h

/-- `Graph.addImport` of what a reference stands for, if it stands for a file, keeps `Moved`. -/
theorem addResolved (h : Moved root root' g g') {p p' : Path} (hp : SameSteps root root' p p')
    {target target' : Option Path} (htarget : Option.Rel (SameSteps root root') target target') :
    Moved root root' (target.elim g (g.addImport p)) (target'.elim g' (g'.addImport p')) := by
  cases htarget with
  | none => exact h
  | some hq => exact h.addImport hp hq

/-- A moved graph has as many files. -/
theorem length_files (h : Moved root root' g g') : g.files.length = g'.files.length :=
  h.files.length_eq

/-- `Graph.targets` are numbers, which stay. -/
theorem targets (h : Moved root root' g g') : g.targets = g'.targets := by
  funext i
  rw [Graph.targets, Graph.targets, h.imports]

/-- `Graph.sources` are numbers, which stay. -/
theorem sources (h : Moved root root' g g') : g.sources = g'.sources := by
  funext i
  rw [Graph.sources, Graph.sources, h.imports]

/-- `Graph.pathOf?` gives moved paths. -/
theorem pathOf? (h : Moved root root' g g') (i : Nat) :
    Option.Rel (Path.Moved root root') (g.pathOf? i) (g'.pathOf? i) :=
  h.files.rel_getElem? i

/-- `Graph.sortedPaths` gives moved paths in the same order. -/
theorem sortedPaths (h : Moved root root' g g') (nodes : List Nat) :
    Forall₂ (Path.Moved root root') (g.sortedPaths nodes) (g'.sortedPaths nodes) := by
  have hpaths : Forall₂ (Path.Moved root root') (nodes.filterMap g.pathOf?)
      (nodes.filterMap g'.pathOf?) := by
    refine List.rel_filterMap (R := Eq) ?_ (List.forall₂_refl nodes)
    rintro i _ rfl
    exact h.pathOf? i
  exact moved_mergeSort hpaths

/-- `Graph.reachedFrom` comes to the same numbers. -/
theorem reachedFrom (h : Moved root root' g g') (start : List Nat) :
    g.reachedFrom start = g'.reachedFrom start := by
  rw [Graph.reachedFrom, Graph.reachedFrom, h.targets, h.length_files]

/-- `Graph.componentOf` has the same numbers. -/
theorem componentOf (h : Moved root root' g g') (i : Nat) :
    g.componentOf i = g'.componentOf i := by
  simp only [Graph.componentOf, reaching, h.reachedFrom, h.sources, h.length_files]

/-- `Graph.isClosed` tells the same of the numbers. -/
theorem isClosed (h : Moved root root' g g') (members : List Nat) :
    g.isClosed members = g'.isClosed members := by
  rw [Graph.isClosed, Graph.isClosed, h.sources]

/-- `Graph.reach` from the moved entry points gives the moved files. -/
theorem reach (h : Moved root root' g g') {entries entries' : List Path}
    (hentries : Forall₂ (Path.Moved root root') entries entries') :
    Forall₂ (Path.Moved root root') (g.reach entries).reachable (g'.reach entries').reachable ∧
      Forall₂ (Path.Moved root root') (g.reach entries).dead (g'.reach entries').dead := by
  have hstart : entries.filterMap g.nodeIndex? = entries'.filterMap g'.nodeIndex? := by
    induction hentries with
    | nil => rfl
    | cons hp _ ih => rw [List.filterMap_cons, List.filterMap_cons, h.nodeIndex? hp.steps, ih]
  simp only [Graph.reach, hstart, h.reachedFrom]
  generalize g'.reachedFrom (entries'.filterMap g'.nodeIndex?) = nodes
  refine ⟨h.sortedPaths nodes, moved_mergeSort (List.rel_filter (fun p p' hp => ?_) h.files)⟩
  -- a moved path is among the moved paths if it was among them before
  simp only [hp.isIn (h.sortedPaths nodes)]

/-- A test that moved paths pass alike is passed by the same nodes. -/
theorem any_pathOf? (h : Moved root root' g g') {test test' : Path → Bool}
    (htest : ∀ p p', Path.Moved root root' p p' → test p = test' p') (i : Nat) :
    (g.pathOf? i).any test = (g'.pathOf? i).any test' := by
  have hpath := h.pathOf? i
  generalize g.pathOf? i = p at hpath
  generalize g'.pathOf? i = p' at hpath
  cases hpath with
  | none => rfl
  | some hp => exact htest _ _ hp

/-- `Graph.deadCycles` of the moved graph are the moved cycles. -/
theorem deadCycles (h : Moved root root' g g') {r r' : Reach}
    (hreach : Forall₂ (Path.Moved root root') r.reachable r'.reachable) :
    Forall₂ (Forall₂ (Path.Moved root root')) (g.deadCycles r) (g'.deadCycles r') := by
  have hdead : ∀ i, (g.pathOf? i).any (fun p => !r.isReachable p) =
      (g'.pathOf? i).any (fun p => !r'.isReachable p) :=
    h.any_pathOf? fun p p' hp => by
      rw [Reach.isReachable, Reach.isReachable, hp.isIn hreach]
  simp only [Graph.deadCycles, hdead, h.length_files, h.componentOf, h.isClosed]
  refine List.Forall₂.mergeSort (fun a a' ha b b' hb => ?_) ?_
  · -- cycles are compared by their lengths and their files
    rw [compareCycles, compareCycles, ha.length_eq, hb.length_eq,
      ha.compareLex (fun p p' hp q q' hq => hp.steps.compare hq.steps) hb]
  · refine List.rel_filterMap (R := Eq) ?_ (List.forall₂_refl _)
    rintro i _ rfl
    dsimp only
    split
    · split
      · exact .some (h.sortedPaths _)
      · exact .none
    · exact .none

end Moved

end Graph

namespace SourceFile

/-- The file, placed below a folder. -/
def placedIn (root : Path) (f : SourceFile) : SourceFile := { f with path := root.join f.path }

/-- A file by its names below the folder of a project, whose references stay below that folder. -/
structure IsMovable (f : SourceFile) : Prop where
  named : f.path.IsNamed
  nonempty : f.path.components ≠ []
  references : ∀ text ∈ f.text?, ∀ specifier ∈ Graph.localSpecifiers text,
    f.path.StaysBelow specifier

instance (f : SourceFile) : Decidable f.IsMovable :=
  decidable_of_iff (f.path.IsNamed ∧ f.path.components ≠ [] ∧ ∀ text ∈ f.text?,
      ∀ specifier ∈ Graph.localSpecifiers text, f.path.StaysBelow specifier)
    ⟨fun h => ⟨h.1, h.2.1, h.2.2⟩, fun h => ⟨h.named, h.nonempty, h.references⟩⟩

end SourceFile

namespace Graph

open Deadwood.Path

variable {root root' : Path}

/-- `localReferences` of files in a folder are at the paths below it. -/
theorem localReferences_placedIn (root : Path) (files : List SourceFile) :
    localReferences (files.map (·.placedIn root)) =
      (localReferences files).map fun r => (root.join r.1, r.2) := by
  rw [localReferences, localReferences, List.flatMap_map, List.map_flatMap]
  congr 1
  funext f
  have htext : (f.placedIn root).text? = f.text? := rfl
  have hpath : (f.placedIn root).path = root.join f.path := rfl
  rw [htext, hpath]
  cases f.text? with
  | none => rfl
  | some text => rw [List.map_map]; rfl

/-- `build` gives of a moved project the moved graph. -/
theorem moved_build (hroot : root.IsBase) (hroot' : root'.IsBase) {files : List SourceFile}
    (hfiles : ∀ f ∈ files, f.IsMovable) :
    Moved root root' (build (files.map (·.placedIn root))).graph
      (build (files.map (·.placedIn root'))).graph := by
  have hmoved : ∀ f ∈ files, Path.Moved root root' (root.join f.path) (root'.join f.path) :=
    fun f hf => moved_join hroot.absolute hroot'.absolute (hfiles f hf).named
  have hknown : Forall₂ (SameSteps root root') ((files.map (·.placedIn root)).map (·.path))
      ((files.map (·.placedIn root')).map (·.path)) := by
    rw [List.map_map, List.map_map, List.forall₂_map_same]
    exact fun f hf => (hmoved f hf).steps
  have hempty : Moved root root' (ofFiles (files.map (·.placedIn root)))
      (ofFiles (files.map (·.placedIn root'))) := by
    simp only [ofFiles, List.map_map, List.foldl_map]
    refine List.foldl_rel ⟨.nil, .nil, rfl⟩ fun f hf g g' hg => ?_
    exact hg.addFile (hmoved f hf)
  simp only [build, localReferences_placedIn, List.map_map, List.foldl_map]
  -- from here on every reference adds the same import to both graphs, or none
  refine List.foldl_rel hempty fun r hr g g' hg => ?_
  obtain ⟨p, specifier⟩ := r
  -- the reference is one of a file, so it stays below the folder
  obtain ⟨f, hf, rfl, text, htext, reference, hmem, hlocal, rfl⟩ := mem_localReferences_iff.1 hr
  have hbelow := (hfiles f hf).references text htext reference.specifier
    (List.mem_map.2 ⟨reference, List.mem_filter.2 ⟨hmem, hlocal⟩, rfl⟩)
  refine hg.addResolved (hmoved f hf).steps ?_
  rw [← List.map_map, ← List.map_map]
  exact Resolution.sameSteps_resolve? hroot hroot' (hfiles f hf).named (hfiles f hf).nonempty hbelow
    hknown

end Graph

/-! ## Entry points -/

namespace EntryRules

open Deadwood.Path

variable {root root' : Path}

/-- `keepLast` keeps the moved paths. -/
theorem moved_keepLast {paths paths' : List Path} (h : Forall₂ (Moved root root') paths paths') :
    Forall₂ (Moved root root') (keepLast paths) (keepLast paths') := by
  -- as `keepLast` compares the first two paths
  induction paths using keepLast.induct generalizing paths' with
  | case1 p q rest hsame ih =>
    cases h with
    | cons hp h =>
      cases h with
      | cons hq h =>
        have hsame' := (hp.steps.same hq.steps).symm.trans hsame
        rw [keepLast, keepLast, if_pos hsame, if_pos hsame']
        exact ih (.cons hq h)
  | case2 p q rest hdiffer ih =>
    cases h with
    | cons hp h =>
      cases h with
      | cons hq h =>
        have hdiffer' := hp.steps.same hq.steps ▸ hdiffer
        rw [keepLast, keepLast, if_neg hdiffer, if_neg hdiffer']
        exact .cons hp (ih (.cons hq h))
  | case3 paths hshort =>
    cases h with
    | nil => exact .nil
    | cons hp h =>
      cases h with
      | nil => exact .cons hp .nil
      | cons hq h => exact absurd rfl (hshort _ _ _)

/-- `ordered` keeps and orders the moved paths. -/
theorem moved_ordered {paths paths' : List Path} (h : Forall₂ (Moved root root') paths paths') :
    Forall₂ (Moved root root') (ordered paths) (ordered paths') :=
  moved_keepLast (moved_mergeSort h)

/-- `detect` finds among the moved files the moved entry points. -/
theorem moved_detect (patterns : List Glob) {files files' : List Path}
    (h : Forall₂ (Moved root root') files files') :
    Forall₂ (Moved root root') (detect ⟨some root, patterns⟩ files).paths
        (detect ⟨some root', patterns⟩ files').paths ∧
      (detect ⟨some root, patterns⟩ files).fallback =
        (detect ⟨some root', patterns⟩ files').fallback := by
  -- patterns only see the part below the folder
  have hentry : ∀ p p', Moved root root' p p' →
      isEntry ⟨some root, patterns⟩ p = isEntry ⟨some root', patterns⟩ p' := by
    intro p p' hp
    simp only [isEntry, Option.elim_some, hp.part]
  have hfound : Forall₂ (Moved root root') (files.filter (isEntry ⟨some root, patterns⟩))
      (files'.filter (isEntry ⟨some root', patterns⟩)) :=
    List.rel_filter (fun p p' hp => Bool.eq_iff_iff.1 (hentry p p' hp)) h
  unfold detect
  generalize files.filter (isEntry ⟨some root, patterns⟩) = found at hfound
  generalize files'.filter (isEntry ⟨some root', patterns⟩) = found' at hfound
  cases hfound with
  | nil => exact ⟨moved_ordered h, by cases h <;> rfl⟩
  | cons hp hrest => exact ⟨moved_ordered (.cons hp hrest), rfl⟩

end EntryRules
end Deadwood
