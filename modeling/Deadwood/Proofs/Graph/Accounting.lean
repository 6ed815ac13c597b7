import Deadwood.Proofs.Graph.History
import Deadwood.Proofs.Graph.Resolution

/-!
# What becomes of the references of a project

Every local reference in a readable file becomes an import between two nodes or is kept as
unresolved, and nothing else does (`build_accounts`). This holds for any list of files, also if a
place is listed more than once: a target is looked up among the listed paths by its place, and so
are the nodes, which are the listed places. So no import is ever refused.
-/

namespace Deadwood.Graph

/-- A readable file at the first place has a local reference that stands for the second place. -/
def Refers (files : List SourceFile) (p q : Path) : Prop :=
  ∃ f ∈ files, f.path.same p = true ∧ ∃ text, f.text? = some text ∧
    ∃ r ∈ (Import.extract text).references, r.isLocal = true ∧
      ∃ target, Resolution.resolve? (files.map (·.path)) f.path r.specifier = some target ∧
        target.same q = true

/-- The imports that are added to the graph of a project, in their order. -/
def importsToAdd (files : List SourceFile) : List (Path × Path) :=
  (localReferences files).filterMap fun r =>
    (Resolution.resolve? (files.map (·.path)) r.1 r.2).map (Prod.mk r.1)

/-- The path of a file and, if it can be read, its local references. -/
def outline (f : SourceFile) : Path × Option (List String) := (f.path, f.text?.map localSpecifiers)

/-- The build says of each file and each local reference what became of it. -/
structure Build.Accounts (b : Build) (files : List SourceFile) : Prop where
  /-- The nodes are the places of the files, each under its first spelling and in their order. -/
  nodes : FirstSpelled b.graph.files (files.map (·.path))
  /-- No place is two nodes. -/
  distinct : b.graph.files.Pairwise fun p q => p.same q = false
  /-- There is an import between two places if a local reference stands for it. -/
  imports : ∀ p q : Path, q.isIn (b.graph.importsOf p) = true ↔ Refers files p q
  /-- None of the imports is refused when it is added. -/
  accepted : (importsToAdd files).foldlM (fun g e => g.addImport? e.1 e.2) (ofFiles files) =
    some b.graph
  /-- The other local references are kept, in the order of the files and of their texts. -/
  unresolved : b.unresolved = files.flatMap fun f => f.text?.elim [] fun text =>
    ((Import.extract text).references.filter fun r => r.isLocal &&
      (Resolution.resolve? (files.map (·.path)) f.path r.specifier).isNone).map fun r =>
        (f.path, r.specifier)
  /-- The files without a text are kept, in their order. -/
  unreadable : b.unreadable = (files.filter fun f => f.text?.isNone).map (·.path)
  /-- References to packages make no difference. -/
  packages : ∀ files' : List SourceFile, files'.map outline = files.map outline → build files' = b

/-! ## The nodes -/

/-- The operations that make the graph of a project: first all files, then the imports. -/
def buildOperations (files : List SourceFile) : List Operation :=
  files.map (fun f => .addFile f.path) ++
    (importsToAdd files).map fun e => .addImport e.1 e.2

/-- `ofFiles` is the graph after adding the files one by one. -/
theorem ofFiles_eq_after (files : List SourceFile) :
    ofFiles files = after (files.map fun f => .addFile f.path) := by
  rw [ofFiles, after, List.foldl_map, List.foldl_map]
  rfl

/-- `build` adds the imports of `importsToAdd` to the graph of the files. -/
theorem graph_build_eq_foldl (files : List SourceFile) :
    (build files).graph =
      (importsToAdd files).foldl (fun g e => g.addImport e.1 e.2) (ofFiles files) := by
  simp only [build, importsToAdd, List.foldl_map, List.foldl_filterMap]
  congr
  funext g r
  -- references that stand for no file add nothing
  cases Resolution.resolve? (files.map (·.path)) r.1 r.2 <;> rfl

/-- `build` gives the graph after `buildOperations`. -/
theorem graph_build_eq_after (files : List SourceFile) :
    (build files).graph = after (buildOperations files) := by
  rw [graph_build_eq_foldl, ofFiles_eq_after, after, after, buildOperations, List.foldl_append]
  rw [@List.foldl_map _ _ _ _ apply (importsToAdd files)]
  rfl

/-- `added` by `buildOperations` are the paths of the files. -/
theorem added_buildOperations (files : List SourceFile) :
    added (buildOperations files) = files.map (·.path) := by
  have hfiles : (files.map fun f => Operation.addFile f.path).filterMap Operation.file? =
      files.map (·.path) := by
    rw [List.filterMap_map, ← List.filterMap_eq_map]
    rfl
  have himports : ((importsToAdd files).map fun e => Operation.addImport e.1 e.2).filterMap
      Operation.file? = [] := by
    rw [List.filterMap_map, List.filterMap_eq_nil_iff]
    exact fun _ _ => rfl
  rw [added, buildOperations, List.filterMap_append, hfiles, himports, List.append_nil]

/-- `build` gives nodes for the places of the files, under their first spellings. -/
theorem firstSpelled_build (files : List SourceFile) :
    FirstSpelled (build files).graph.files (files.map (·.path)) := by
  rw [graph_build_eq_after, ← added_buildOperations]
  exact firstSpelled_after _

/-- `build` adds no nodes to those of `ofFiles`. -/
theorem files_build_eq (files : List SourceFile) :
    (build files).graph.files = (ofFiles files).files :=
  files_addAll _ _

/-- `Graph.contains` looks for a place among the files. -/
theorem contains_ofFiles (files : List SourceFile) (p : Path) :
    (ofFiles files).contains p = p.isIn (files.map (·.path)) := by
  rw [(wellFormed_ofFiles files).contains_eq, ← files_build_eq, (firstSpelled_build files).isIn_eq]

/-! ## The imports -/

/-- `Graph.addImport?` accepts imports between nodes one after the other. -/
theorem foldlM_addImport? (g : Graph) {edges : List (Path × Path)}
    (h : ∀ e ∈ edges, g.contains e.1 = true ∧ g.contains e.2 = true) :
    edges.foldlM (fun g e => g.addImport? e.1 e.2) g =
      some (edges.foldl (fun g e => g.addImport e.1 e.2) g) := by
  induction edges generalizing g with
  | nil => rfl
  | cons e edges ih =>
    obtain ⟨hsource, htarget⟩ := h e List.mem_cons_self
    have hsome : (g.addImport? e.1 e.2).isSome = true := by
      rw [isSome_addImport?, hsource, htarget]
      rfl
    obtain ⟨g', hg'⟩ := Option.isSome_iff_exists.1 hsome
    have hstep : g.addImport e.1 e.2 = g' := by rw [addImport, hg', Option.getD_some]
    rw [List.foldlM_cons, hg', List.foldl_cons, hstep]
    refine ih g' fun d hd => ?_
    -- the index stays the same, so that the next imports are between nodes as well
    rw [← hstep, contains, contains, nodeIndex?_addImport, nodeIndex?_addImport]
    exact h d (List.mem_cons_of_mem e hd)

/-- `importsToAdd` are between nodes of the graph of the files. -/
theorem contains_of_mem_importsToAdd {files : List SourceFile} {e : Path × Path}
    (he : e ∈ importsToAdd files) :
    (ofFiles files).contains e.1 = true ∧ (ofFiles files).contains e.2 = true := by
  obtain ⟨⟨p, specifier⟩, hmem, hresolve⟩ := List.mem_filterMap.1 he
  obtain ⟨target, htarget, rfl⟩ := Option.map_eq_some_iff.1 hresolve
  obtain ⟨f, hf, hpath, -⟩ := mem_localReferences_iff.1 hmem
  rw [contains_ofFiles, contains_ofFiles]
  exact ⟨Path.isIn_iff.2 ⟨f.path, List.mem_map_of_mem hf, hpath ▸ Path.same_refl _⟩,
    Resolution.isIn_of_resolve? htarget⟩

/-- `Graph.nodeIndex?` gives one number to one place only. -/
theorem WellFormed.same_of_nodeIndex? {g : Graph} (hg : g.WellFormed) {p q : Path} {i : Nat}
    (hp : g.nodeIndex? p = some i) (hq : g.nodeIndex? q = some i) : p.same q = true := by
  obtain ⟨file, hfile, hpf⟩ := hg.nodeIndex?_eq_some_iff.1 hp
  obtain ⟨file', hfile', hqf⟩ := hg.nodeIndex?_eq_some_iff.1 hq
  rw [hfile] at hfile'
  cases hfile'
  rw [Path.same_congr hpf, Path.same_comm, hqf]

/-- `build` gives an import between two places if a local reference stands for it. -/
theorem isIn_importsOf_build_iff (files : List SourceFile) (p q : Path) :
    q.isIn ((build files).graph.importsOf p) = true ↔ Refers files p q := by
  have hg := wellFormed_build files
  -- numbers are looked up before the imports are added, but these leave the index as it is
  have hindex : (ofFiles files).nodeIndex? = (build files).graph.nodeIndex? := by
    funext p
    rw [hg.inStep, (wellFormed_ofFiles files).inStep, files_build_eq]
  rw [hg.isIn_importsOf_iff]
  simp only [mem_imports_build_iff_reference, hindex, mem_localReferences_iff]
  constructor
  · rintro ⟨i, j, hi, hj, _, _, target, ⟨f, hf, rfl, text, htext, r, hr, hlocal, rfl⟩, htarget,
      hsource, hnode⟩
    exact ⟨f, hf, hg.same_of_nodeIndex? hsource hi, text, htext, r, hr, hlocal, target, htarget,
      hg.same_of_nodeIndex? hnode hj⟩
  · rintro ⟨f, hf, hsame, text, htext, r, hr, hlocal, target, htarget, hsame'⟩
    -- the importing file is listed, and what a reference stands for is one of the listed places
    have hcontains {p : Path} (h : p.isIn (files.map (·.path)) = true) :
        ∃ i, (build files).graph.nodeIndex? p = some i := by
      rwa [← contains_ofFiles, contains, hindex, Option.isSome_iff_exists] at h
    obtain ⟨i, hi⟩ := hcontains (Path.isIn_iff.2
      ⟨f.path, List.mem_map_of_mem hf, Path.same_refl f.path⟩)
    obtain ⟨j, hj⟩ := hcontains (Resolution.isIn_of_resolve? htarget)
    exact ⟨i, j, nodeIndex?_congr _ hsame ▸ hi, nodeIndex?_congr _ hsame' ▸ hj, f.path,
      r.specifier, target, ⟨f, hf, rfl, text, htext, r, hr, hlocal, rfl⟩, htarget, hi, hj⟩

/-! ## What is kept aside -/

/-- `Build.unresolved` file by file, and in a file reference by reference. -/
theorem unresolved_build (files : List SourceFile) :
    (build files).unresolved = files.flatMap fun f => f.text?.elim [] fun text =>
      ((Import.extract text).references.filter fun r => r.isLocal &&
        (Resolution.resolve? (files.map (·.path)) f.path r.specifier).isNone).map fun r =>
          (f.path, r.specifier) := by
  -- each reference is paired with what it stands for, and these pairs are undone
  have hfilter : (build files).unresolved = (localReferences files).filter fun r =>
      (Resolution.resolve? (files.map (·.path)) r.1 r.2).isNone := by
    simp only [build, List.filter_map, List.map_map, Function.comp_def, List.map_id']
  rw [hfilter, localReferences, List.filter_flatMap]
  congr
  funext f
  cases f.text? with
  | none => rfl
  | some text =>
    simp only [localSpecifiers, List.map_map, List.filter_map, List.filter_filter,
      Option.elim_some, Function.comp_def, Bool.and_comm]

/-- `localReferences` are told by the outlines. -/
theorem localReferences_eq_outline (files : List SourceFile) :
    localReferences files =
      (files.map outline).flatMap fun o => (o.2.getD []).map fun s => (o.1, s) := by
  rw [localReferences, List.flatMap_map]
  congr
  funext f
  rw [outline]
  cases f.text? <;> rfl

/-- The files without a text are told by the outlines. -/
theorem unreadable_eq_outline (files : List SourceFile) :
    (files.filter fun f => f.text?.isNone).map (·.path) =
      ((files.map outline).filter fun o => o.2.isNone).map (·.1) := by
  simp only [List.filter_map, List.map_map, Function.comp_def, outline, Option.isNone_map]

/-- `build` depends on the texts by their local references only. -/
theorem build_congr {files files' : List SourceFile}
    (h : files'.map outline = files.map outline) : build files' = build files := by
  have hpaths : files'.map (·.path) = files.map (·.path) := by
    simpa [outline, Function.comp_def] using congrArg (List.map Prod.fst) h
  have hreferences : localReferences files' = localReferences files := by
    rw [localReferences_eq_outline, h, ← localReferences_eq_outline]
  have hunreadable : (files'.filter fun f => f.text?.isNone).map (·.path) =
      (files.filter fun f => f.text?.isNone).map (·.path) := by
    rw [unreadable_eq_outline, h, ← unreadable_eq_outline]
  have hfiles : ofFiles files' = ofFiles files := by rw [ofFiles, ofFiles, hpaths]
  rw [build, build, hreferences, hpaths, hfiles, hunreadable]

/-- `build` accounts for all files and local references of a project. -/
theorem build_accounts (files : List SourceFile) : (build files).Accounts files where
  nodes := firstSpelled_build files
  distinct := (wellFormed_build files).distinct
  imports := isIn_importsOf_build_iff files
  accepted := by
    rw [foldlM_addImport? _ fun _ => contains_of_mem_importsToAdd, graph_build_eq_foldl]
  unresolved := unresolved_build files
  unreadable := rfl
  packages _ := build_congr

end Deadwood.Graph
