import Mathlib.Data.List.Pairwise
import Deadwood.Graph.Build
import Deadwood.Graph.EntryPoints
import Deadwood.Proofs.Graph.Reach

/-!
# The graph of a project and its entry points

Where no place is listed twice, the graph of a project has the files as its nodes, in their order,
and an edge from one file to another exactly where a local reference in the text of the first
stands for the second (`mem_imports_build_iff`). So what the entry points reach can be told without
a graph: `Live` are the files at the ends of chains of imports that start at an entry point.
-/

namespace Deadwood

open Relation

/-- No two of the files have the same path. -/
def DistinctPaths (files : List SourceFile) : Prop :=
  files.Pairwise fun f g => f.path.same g.path = false

/-- A local reference in the text of `f` stands for `g`, looked up among the files. -/
def Imports (files : List SourceFile) (f g : SourceFile) : Prop :=
  ∃ text, f.text? = some text ∧ ∃ r ∈ (Import.extract text).references, r.isLocal = true ∧
    ∃ target, Resolution.resolve? (files.map (·.path)) f.path r.specifier = some target ∧
      target.same g.path = true

/-- The files that a chain of imports leads to from an entry point. -/
inductive Live (rules : EntryRules) (files : List SourceFile) : SourceFile → Prop where
  /-- A chain of one file. -/
  | entry {f : SourceFile} (hf : f ∈ files) (hentry : rules.isEntry f.path = true) :
      Live rules files f
  /-- A chain with one more file, which the last one imports. -/
  | imported {f g : SourceFile} (hf : Live rules files f) (hg : g ∈ files)
      (himports : Imports files f g) : Live rules files g

/-- `Live` files are among the files. -/
theorem Live.mem {rules : EntryRules} {files : List SourceFile} {f : SourceFile}
    (h : Live rules files f) : f ∈ files := by
  cases h with
  | entry hf _ => exact hf
  | imported _ hg _ => exact hg

/-- `DistinctPaths` in terms of the paths. -/
theorem DistinctPaths.pairwise_paths {files : List SourceFile} (hd : DistinctPaths files) :
    (files.map (·.path)).Pairwise fun p q => p.same q = false :=
  List.pairwise_map.2 hd

/-- `DistinctPaths` files are not repeated. -/
theorem DistinctPaths.nodup {files : List SourceFile} (hd : DistinctPaths files) : files.Nodup := by
  refine hd.imp fun hne heq => ?_
  rw [heq, Path.same_refl] at hne
  cases hne

/-- `DistinctPaths`: the path tells the file. -/
theorem DistinctPaths.eq_of_same {files : List SourceFile} (hd : DistinctPaths files)
    {f g : SourceFile} (hf : f ∈ files) (hg : g ∈ files) (hsame : f.path.same g.path = true) :
    f = g := by
  by_contra hne
  have : Std.Symm fun f g : SourceFile => f.path.same g.path = false :=
    ⟨fun a b h => by rwa [Path.same_comm]⟩
  rw [List.Pairwise.forall hd hf hg hne] at hsame
  cases hsame

namespace Graph

/-! ## Adding imports -/

/-- `Graph.addImport` adds no node. -/
@[simp] theorem files_addImport (g : Graph) (source target : Path) :
    (g.addImport source target).files = g.files := by
  unfold addImport addImport?
  split
  · split <;> rfl
  · rfl

/-- `Graph.addImport` leaves the index as it is. -/
@[simp] theorem nodeIndex?_addImport (g : Graph) (source target p : Path) :
    (g.addImport source target).nodeIndex? p = g.nodeIndex? p := by
  unfold addImport addImport?
  split
  · split <;> rfl
  · rfl

/-- `Graph.addImport` adds the import between two paths if both have a number. -/
theorem mem_imports_addImport_iff {g : Graph} {source target : Path} {i j : Nat} :
    (i, j) ∈ (g.addImport source target).imports ↔
      (i, j) ∈ g.imports ∨ (g.nodeIndex? source = some i ∧ g.nodeIndex? target = some j) := by
  unfold addImport addImport?
  -- between two nodes, where the import may be there already
  split
  · rename_i k l hk hl
    rw [hk, hl]
    simp only [Option.getD_some, Option.some.injEq]
    split
    · rename_i hmem
      refine ⟨.inl, ?_⟩
      rintro (h | ⟨rfl, rfl⟩)
      · exact h
      · exact hmem
    · simp [eq_comm]
  · rename_i hnone
    simp only [Option.getD_none]
    refine ⟨.inl, ?_⟩
    rintro (h | ⟨hi, hj⟩)
    · exact h
    · exact absurd hj (hnone i j hi)

/-- A reference with the file that it stands for, if there is one. -/
abbrev Resolved := (Path × String) × Option Path

/-- The graph with an import for each reference that stands for a file. -/
def addAll (g : Graph) (resolved : List Resolved) : Graph :=
  resolved.foldl (fun g r => r.2.elim g (g.addImport r.1.1)) g

/-- `Graph.addAll` adds no node. -/
theorem files_addAll (g : Graph) (resolved : List Resolved) :
    (g.addAll resolved).files = g.files := by
  induction resolved generalizing g with
  | nil => rfl
  | cons r resolved ih =>
    rw [addAll, List.foldl_cons, ← addAll, ih]
    cases r.2 with
    | none => rfl
    | some target => exact files_addImport g r.1.1 target

/-- `Graph.addAll` adds an import for each reference between two nodes. -/
private theorem mem_imports_addAll_iff (g : Graph) (resolved : List Resolved) {i j : Nat} :
    (i, j) ∈ (g.addAll resolved).imports ↔
      (i, j) ∈ g.imports ∨ ∃ r ∈ resolved, ∃ target, r.2 = some target ∧
        g.nodeIndex? r.1.1 = some i ∧ g.nodeIndex? target = some j := by
  induction resolved generalizing g with
  | nil => simp [addAll]
  | cons r resolved ih =>
    rw [addAll, List.foldl_cons, ← addAll, ih]
    obtain ⟨⟨source, specifier⟩, target⟩ := r
    cases target with
    | none => simp
    | some target =>
      -- the index stays, so later references are looked up as before
      simp [mem_imports_addImport_iff, or_assoc]

/-! ## The graph of the files -/

/-- `Graph.addFile` adds no import. -/
theorem imports_addFile (g : Graph) (p : Path) : (g.addFile p).imports = g.imports := by
  rw [addFile]
  split <;> rfl

/-- `Graph.addFile` adds no imports, however many files are added. -/
theorem imports_foldl_addFile (g : Graph) (paths : List Path) :
    (paths.foldl addFile g).imports = g.imports := by
  induction paths generalizing g with
  | nil => rfl
  | cons p paths ih => rw [List.foldl_cons, ih, imports_addFile]

/-- `Graph.contains` looks for the place among the nodes. -/
theorem WellFormed.contains_eq {g : Graph} (hg : g.WellFormed) (p : Path) :
    g.contains p = p.isIn g.files := by
  rw [contains, hg.inStep, List.findIdx?_isSome, Path.isIn]

/-- `Graph.empty` is well-formed. -/
theorem wellFormed_empty : empty.WellFormed := ⟨fun _ => rfl, .nil, fun _ _ h => nomatch h⟩

/-- `Graph.addFile` writes the number of a new node into the index, under its own path, so both stay
    in step. -/
theorem WellFormed.addFile {g : Graph} (hg : g.WellFormed) (p : Path) :
    (g.addFile p).WellFormed := by
  cases hnew : g.contains p with
  | true =>
    rw [Graph.addFile, hnew, if_pos rfl]
    exact hg
  | false =>
    have hnone : g.files.findIdx? p.same = none := by
      rwa [← hg.inStep, ← Option.not_isSome_iff_eq_none, Bool.not_eq_true]
    rw [hg.contains_eq, Path.isIn, List.any_eq_false] at hnew
    rw [Graph.addFile, hg.contains_eq, Path.isIn, List.any_eq_false.2 hnew, if_neg (by simp)]
    refine ⟨fun q => ?_, List.pairwise_append.2 ⟨hg.distinct, List.pairwise_singleton _ _, ?_⟩, ?_⟩
    · rw [nodeIndex?, PathIndex.get?_insert, List.findIdx?_append]
      by_cases hsame : q.same p = true
      · -- the place of the new node has no earlier one
        rw [funext (Path.same_congr hsame), hnone]
        simp [Path.same_refl]
      · rw [if_neg hsame, ← nodeIndex?, hg.inStep]
        simp [hsame]
    · intro q hq r hr
      rw [List.mem_singleton.1 hr, Path.same_comm, ← Bool.not_eq_true]
      exact hnew q hq
    · intro i j h
      have hij := hg.inRange i j h
      simp only [List.length_append]
      omega

/-- `Graph.addImport` makes imports between nodes only. -/
theorem WellFormed.addImport {g : Graph} (hg : g.WellFormed) (source target : Path) :
    (g.addImport source target).WellFormed := by
  -- imports are added between nodes that are there
  have hlt {p : Path} {i : Nat} (h : g.nodeIndex? p = some i) : i < g.files.length := by
    obtain ⟨q, hq, -⟩ := hg.nodeIndex?_eq_some_iff.1 h
    exact (List.getElem?_eq_some_iff.1 hq).1
  refine ⟨fun p => ?_, ?_, fun i j h => ?_⟩
  · rw [nodeIndex?_addImport, files_addImport, hg.inStep]
  · rw [files_addImport]
    exact hg.distinct
  · rw [files_addImport]
    rcases mem_imports_addImport_iff.1 h with h | ⟨hi, hj⟩
    · exact hg.inRange i j h
    · exact ⟨hlt hi, hlt hj⟩

/-- `Graph.addAll` adds one import after the other. -/
theorem WellFormed.addAll {g : Graph} (hg : g.WellFormed) (resolved : List Resolved) :
    (g.addAll resolved).WellFormed := by
  induction resolved generalizing g with
  | nil => exact hg
  | cons r resolved ih =>
    rw [Graph.addAll, List.foldl_cons, ← Graph.addAll]
    obtain ⟨⟨source, specifier⟩, target⟩ := r
    cases target with
    | none => exact ih hg
    | some target => exact ih (hg.addImport source target)

/-- `Graph.ofFiles` is well-formed, also if a place is listed more than once. -/
theorem wellFormed_ofFiles (files : List SourceFile) : (ofFiles files).WellFormed := by
  have hfoldl : ∀ (paths : List Path) {g : Graph}, g.WellFormed →
      (paths.foldl Graph.addFile g).WellFormed := by
    intro paths
    induction paths with
    | nil => exact fun hg => hg
    | cons p paths ih => exact fun hg => ih (hg.addFile p)
  exact hfoldl _ wellFormed_empty

/-- `build` gives a well-formed graph of any project. -/
theorem wellFormed_build (files : List SourceFile) : (build files).graph.WellFormed :=
  (wellFormed_ofFiles files).addAll _

/-- `Graph.addFile` puts files that are not in a graph yet, each with its own path, behind those
    that are. -/
private theorem files_foldl_addFile {g : Graph} (hg : g.WellFormed) (paths : List Path)
    (hd : paths.Pairwise fun p q => p.same q = false)
    (hnew : ∀ p ∈ paths, ∀ q ∈ g.files, p.same q = false) :
    (paths.foldl addFile g).files = g.files ++ paths := by
  induction paths generalizing g with
  | nil => simp
  | cons p paths ih =>
    -- no path is there yet, so each is put at the end
    have hcontains : g.contains p = false := by
      rw [hg.contains_eq, Path.isIn, List.any_eq_false]
      exact fun q hq => Bool.not_eq_true _ ▸ hnew p List.mem_cons_self q hq
    have hfiles : (g.addFile p).files = g.files ++ [p] := by
      rw [addFile, hcontains, if_neg (by simp)]
    rw [List.foldl_cons, ih (hg.addFile p) (List.pairwise_cons.1 hd).2, hfiles, List.append_assoc,
      List.singleton_append]
    intro q hq r hr
    rcases List.mem_append.1 (hfiles ▸ hr) with hr | hr
    · exact hnew q (List.mem_cons_of_mem p hq) r hr
    · rw [List.mem_singleton.1 hr, Path.same_comm]
      exact (List.pairwise_cons.1 hd).1 q hq

/-- `Graph.ofFiles` has the files as its nodes, where no place is listed twice. -/
private theorem files_ofFiles {files : List SourceFile} (hd : DistinctPaths files) :
    (ofFiles files).files = files.map (·.path) :=
  files_foldl_addFile wellFormed_empty _ hd.pairwise_paths fun _ _ _ h => nomatch h

/-- `build` has the files as its nodes, where no place is listed twice. -/
theorem files_build {files : List SourceFile} (hd : DistinctPaths files) :
    (build files).graph.files = files.map (·.path) := by
  show ((ofFiles files).addAll _).files = _
  rw [files_addAll, files_ofFiles hd]

/-- `localReferences` are the specifiers of local references in readable files. -/
theorem mem_localReferences_iff {files : List SourceFile} {p : Path} {specifier : String} :
    (p, specifier) ∈ localReferences files ↔
      ∃ f ∈ files, f.path = p ∧ ∃ text, f.text? = some text ∧
        ∃ r ∈ (Import.extract text).references, r.isLocal = true ∧ r.specifier = specifier := by
  simp only [localReferences, List.mem_flatMap, localSpecifiers]
  refine exists_congr fun f => and_congr_right fun _ => ?_
  -- a file that was not read refers to nothing
  cases f.text? with
  | none => simp
  | some text =>
    simp only [List.mem_map, List.mem_filter, Prod.mk.injEq, Option.some.injEq, exists_eq_left']
    constructor
    · rintro ⟨_, ⟨r, ⟨hr, hlocal⟩, rfl⟩, hp, rfl⟩
      exact ⟨hp, r, hr, hlocal, rfl⟩
    · rintro ⟨hp, r, hr, hlocal, rfl⟩
      exact ⟨_, ⟨r, ⟨hr, hlocal⟩, rfl⟩, hp, rfl⟩

/-- `build` has imports by the references that they come from. -/
theorem mem_imports_build_iff_reference {files : List SourceFile} {i j : Nat} :
    (i, j) ∈ (build files).graph.imports ↔
      ∃ p specifier target, (p, specifier) ∈ localReferences files ∧
        Resolution.resolve? (files.map (·.path)) p specifier = some target ∧
        (ofFiles files).nodeIndex? p = some i ∧ (ofFiles files).nodeIndex? target = some j := by
  show (i, j) ∈ ((ofFiles files).addAll _).imports ↔ _
  -- the graph of the files alone has no imports
  rw [mem_imports_addAll_iff, ofFiles, imports_foldl_addFile]
  constructor
  · rintro (h | ⟨_, hr, target, htarget, hi, hj⟩)
    · exact nomatch h
    · obtain ⟨⟨p, specifier⟩, hmem, rfl⟩ := List.mem_map.1 hr
      exact ⟨p, specifier, target, hmem, htarget, hi, hj⟩
  · rintro ⟨p, specifier, target, hmem, htarget, hi, hj⟩
    exact .inr ⟨_, List.mem_map.2 ⟨(p, specifier), hmem, rfl⟩, target, htarget, hi, hj⟩

/-- `Graph.nodeIndex?` gives a path the number of the file at its place. -/
private theorem nodeIndex?_ofFiles_iff {files : List SourceFile} (hd : DistinctPaths files)
    {p : Path} {i : Nat} :
    (ofFiles files).nodeIndex? p = some i ↔
      ∃ f, files[i]? = some f ∧ p.same f.path = true := by
  rw [(wellFormed_ofFiles files).nodeIndex?_eq_some_iff, files_ofFiles hd]
  simp [List.getElem?_map]

/-- `build` has an import from one file to another where the first `Imports` the second. -/
theorem mem_imports_build_iff {files : List SourceFile} (hd : DistinctPaths files) {i j : Nat} :
    (i, j) ∈ (build files).graph.imports ↔
      ∃ f g, files[i]? = some f ∧ files[j]? = some g ∧ Imports files f g := by
  rw [mem_imports_build_iff_reference]
  simp only [nodeIndex?_ofFiles_iff hd, mem_localReferences_iff]
  constructor
  · rintro ⟨_, _, target, ⟨f, hf, rfl, text, htext, r, hr, hlocal, rfl⟩, htarget,
      ⟨f', hf', hsame⟩, ⟨g, hg, hgsame⟩⟩
    -- the node of the importing file is the file itself
    obtain rfl := hd.eq_of_same hf (List.mem_of_getElem? hf') hsame
    exact ⟨f, g, hf', hg, text, htext, r, hr, hlocal, target, htarget, hgsame⟩
  · rintro ⟨f, g, hf, hg, text, htext, r, hr, hlocal, target, htarget, hsame⟩
    exact ⟨f.path, r.specifier, target,
      ⟨f, List.mem_of_getElem? hf, rfl, text, htext, r, hr, hlocal, rfl⟩, htarget,
      ⟨f, hf, Path.same_refl _⟩, ⟨g, hg, hsame⟩⟩

/-! ## Entry points and live files -/

/-- `Reached` in the graph of a project, from entry points among its files, is `Live`. -/
theorem reached_build_iff {files : List SourceFile} (hd : DistinctPaths files)
    {rules : EntryRules} {entries : List Path}
    (hentries : ∀ p, p ∈ entries ↔ ∃ f ∈ files, f.path = p ∧ rules.isEntry p = true)
    {j : Nat} {g : SourceFile} (hg : files[j]? = some g) :
    (build files).graph.Reached entries j ↔ Live rules files g := by
  have hindex : ∀ p i, (build files).graph.nodeIndex? p = some i ↔
      ∃ f, files[i]? = some f ∧ p.same f.path = true := by
    intro p i
    rw [(wellFormed_build files).nodeIndex?_eq_some_iff, files_build hd]
    simp [List.getElem?_map]
  constructor
  · rintro ⟨e, he, i, hei, hchain⟩
    -- the chain grows at its end, as `Live` does
    induction hchain generalizing g with
    | refl =>
      obtain ⟨f, hf, rfl, hentry⟩ := (hentries e).1 he
      obtain ⟨f', hf', hsame⟩ := (hindex _ i).1 hei
      obtain rfl := hd.eq_of_same hf (List.mem_of_getElem? hf') hsame
      rw [hf'] at hg
      cases hg
      exact .entry hf hentry
    | tail _ hstep ih =>
      obtain ⟨f, g', hf, hg', himports⟩ := (mem_imports_build_iff hd).1 hstep
      rw [hg] at hg'
      cases hg'
      exact .imported (ih hf) (List.mem_of_getElem? hg) himports
  · intro hlive
    induction hlive generalizing j with
    | @entry f hf hentry =>
      exact ⟨f.path, (hentries _).2 ⟨f, hf, rfl, hentry⟩, j,
        (hindex _ j).2 ⟨f, hg, Path.same_refl _⟩, .refl⟩
    | @imported f g hf _ himports ih =>
      obtain ⟨i, hi⟩ := List.getElem?_of_mem hf.mem
      obtain ⟨e, he, k, hek, hchain⟩ := ih hi
      exact ⟨e, he, k, hek, hchain.tail ((mem_imports_build_iff hd).2 ⟨f, g, hi, hg, himports⟩)⟩

end Graph

namespace EntryRules

/-- `keepLast` keeps all paths if they are at different places. -/
private theorem keepLast_eq_self {paths : List Path}
    (hd : paths.Pairwise fun p q => p.same q = false) : keepLast paths = paths := by
  fun_induction keepLast paths with
  | case1 p q rest hsame ih =>
    rw [(List.pairwise_cons.1 hd).1 q List.mem_cons_self] at hsame
    cases hsame
  | case2 p q rest hsame ih => rw [ih (List.pairwise_cons.1 hd).2]
  | case3 => rfl

/-- `ordered` keeps all paths if they are at different places. -/
theorem ordered_perm {paths : List Path} (hd : paths.Pairwise fun p q => p.same q = false) :
    (ordered paths).Perm paths := by
  rw [ordered, keepLast_eq_self (Path.distinct_mergeSort hd)]
  exact List.mergeSort_perm paths Path.le

/-- `detect` finds the files that are entry points, where there are any. -/
theorem detect_of_entry {rules : EntryRules} {paths : List Path}
    (hd : paths.Pairwise fun p q => p.same q = false)
    (hentry : ∃ p ∈ paths, rules.isEntry p = true) :
    (rules.detect paths).paths.Perm (paths.filter rules.isEntry) ∧
      (rules.detect paths).fallback = false := by
  unfold detect
  split
  · rename_i hnone
    obtain ⟨p, hp, hpe⟩ := hentry
    rw [List.filter_eq_nil_iff] at hnone
    exact absurd hpe (hnone p hp)
  · exact ⟨ordered_perm (hd.sublist List.filter_sublist), rfl⟩

/-- `detect` takes all files for entry points where none is one. -/
theorem detect_of_no_entry {rules : EntryRules} {paths : List Path}
    (hd : paths.Pairwise fun p q => p.same q = false) (hne : paths ≠ [])
    (hentry : ¬ ∃ p ∈ paths, rules.isEntry p = true) :
    (rules.detect paths).paths.Perm paths ∧ (rules.detect paths).fallback = true := by
  unfold detect
  split
  · exact ⟨ordered_perm hd, by simp [hne]⟩
  · rename_i hsome
    refine absurd (List.filter_eq_nil_iff.2 ?_) hsome
    exact fun p hp hpe => hentry ⟨p, hp, hpe⟩

end EntryRules
end Deadwood
