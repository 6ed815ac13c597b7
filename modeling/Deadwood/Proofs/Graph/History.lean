import Mathlib.Data.Set.Card
import Deadwood.Proofs.Graph.Build
import Deadwood.Proofs.Graph.Cycle

/-!
# Graphs and how they came about

A graph is made by adding files and imports in any order. `Records` says what it has to show of
that: that its index is in step with its nodes, which nodes there are and under which numbers and
paths, and between which of them there are imports, seen from either end. `Graph.addFile` and
`Graph.addImport` keep this one by one, so a graph that is made from the empty one records all that
was done (`records_after`).
-/

namespace Deadwood.Graph

/-! ## Operations -/

/-- What can be done to a graph. -/
inductive Operation where
  | addFile (p : Path)
  | addImport (source target : Path)

/-- The file that an operation adds. -/
def Operation.file? : Operation → Option Path
  | addFile p => some p
  | addImport _ _ => none

/-- The graph after an operation. -/
def apply (g : Graph) : Operation → Graph
  | .addFile p => g.addFile p
  | .addImport source target => g.addImport source target

/-- The graph after operations on the empty one. -/
def after (ops : List Operation) : Graph := ops.foldl apply empty

/-- The files that were added, as often and as they were spelled then. -/
def added (ops : List Operation) : List Path := ops.filterMap Operation.file?

/-- One of the operations was an import between these nodes, and it was accepted. -/
def Accepted (ops : List Operation) (e : Nat × Nat) : Prop :=
  ∃ earlier later source target, ops = earlier ++ .addImport source target :: later ∧
    ((after earlier).addImport? source target).isSome = true ∧
    (after earlier).nodeIndex? source = some e.1 ∧ (after earlier).nodeIndex? target = some e.2

/-- The graph shows what was done. -/
structure Records (g : Graph) (ops : List Operation) : Prop where
  /-- The index has the nodes, each under its path, and nothing else. -/
  entries : ∀ p i, (p, i) ∈ g.index ↔ g.pathOf? i = some p
  /-- However a path is spelled, its number is that of the node at its place. -/
  inStep : ∀ p i, g.nodeIndex? p = some i ↔ ∃ q, g.pathOf? i = some q ∧ p.same q = true
  /-- The numbers of nodes are those below the number of files. -/
  numbers : ∀ i, i < g.files.length ↔ ∃ p, g.nodeIndex? p = some i
  /-- The nodes are the places that were added. -/
  contains : ∀ p, g.contains p = p.isIn (added ops)
  /-- They are numbered in the order in which they were added first. -/
  order : (g.files.map fun p => (added ops).findIdx p.same).Pairwise (· < ·)
  /-- No operation that follows changes a number. -/
  stable : ∀ (later : List Operation) p i, g.nodeIndex? p = some i →
    (later.foldl apply g).nodeIndex? p = some i
  /-- A node has the path under which its place was added first. -/
  spelling : ∀ p, (g.nodeIndex? p).bind g.pathOf? = (added ops).find? p.same
  /-- No place is two nodes. -/
  distinct : g.files.Pairwise fun p q => p.same q = false
  /-- An import is accepted exactly between nodes. -/
  accepts : ∀ source target,
    (g.addImport? source target).isSome = (g.contains source && g.contains target)
  /-- One that is not accepted changes nothing. -/
  refuses : ∀ source target,
    (g.addImport? source target).isSome = false → g.addImport source target = g
  /-- There are as many imports as pairs of nodes between which one was accepted. -/
  count : g.imports.length = {e | Accepted ops e}.ncard
  /-- The files that a file imports, and those that import it, stand in strict order. -/
  sorted : ∀ p, (g.importsOf p).Pairwise (fun q r => q.compare r = .lt) ∧
    (g.importersOf p).Pairwise fun q r => q.compare r = .lt
  /-- A file imports the targets of the imports that were accepted from it. -/
  targets : ∀ p q, q ∈ g.importsOf p ↔
    ∃ i j, g.nodeIndex? p = some i ∧ g.pathOf? j = some q ∧ Accepted ops (i, j)
  /-- A file is imported by the sources of the imports that were accepted to it. -/
  sources : ∀ p q, q ∈ g.importersOf p ↔
    ∃ i j, g.nodeIndex? p = some j ∧ g.pathOf? i = some q ∧ Accepted ops (i, j)
  /-- One file imports another one if that is imported by it. -/
  converse : ∀ p q : Path, q.isIn (g.importsOf p) = p.isIn (g.importersOf q)

/-! ## Nodes -/

/-- `Graph.pathOf?` of the number that `Graph.nodeIndex?` finds is the first path of that place. -/
theorem WellFormed.nodeIndex?_bind_pathOf? {g : Graph} (hg : g.WellFormed) (p : Path) :
    (g.nodeIndex? p).bind g.pathOf? = g.files.find? p.same := by
  rw [hg.inStep]
  exact List.find?_eq_bind_findIdx?_getElem?.symm

/-- `Graph.nodeIndex?` gives paths of one place the same number. -/
theorem nodeIndex?_congr (g : Graph) {p q : Path} (h : p.same q = true) :
    g.nodeIndex? p = g.nodeIndex? q :=
  g.index.get?_congr h

/-- `Graph.apply` changes no number: `Graph.addFile` writes into the index under a path that has
    none yet. -/
theorem nodeIndex?_apply {g : Graph} {p : Path} {i : Nat} (h : g.nodeIndex? p = some i)
    (op : Operation) : (g.apply op).nodeIndex? p = some i := by
  cases op with
  | addFile q =>
    rw [apply, addFile]
    split
    · exact h
    · rename_i hnew
      rw [nodeIndex?, PathIndex.get?_insert, if_neg, ← nodeIndex?, h]
      -- a path of the same place would have a number already
      intro hsame
      rw [contains, ← g.nodeIndex?_congr hsame, h] at hnew
      exact hnew rfl
  | addImport source target => rwa [apply, nodeIndex?_addImport]

/-- What `nodeIndex?_apply` says of one operation holds of any number of them. -/
theorem nodeIndex?_foldl_apply {g : Graph} {p : Path} {i : Nat} (h : g.nodeIndex? p = some i)
    (ops : List Operation) : (ops.foldl apply g).nodeIndex? p = some i := by
  induction ops generalizing g with
  | nil => exact h
  | cons op ops ih => exact ih (nodeIndex?_apply h op)

/-- `Graph.nodeIndex?` only finds numbers of nodes. -/
theorem WellFormed.nodeIndex?_lt {g : Graph} (hg : g.WellFormed) {p : Path} {i : Nat}
    (h : g.nodeIndex? p = some i) : i < g.files.length := by
  obtain ⟨q, hq, -⟩ := hg.nodeIndex?_eq_some_iff.1 h
  exact (List.getElem?_eq_some_iff.1 hq).1

/-- `Graph.apply` keeps a graph well-formed. -/
theorem WellFormed.apply {g : Graph} (hg : g.WellFormed) (op : Operation) :
    (g.apply op).WellFormed := by
  cases op with
  | addFile p => exact hg.addFile p
  | addImport source target => exact hg.addImport source target

/-! ## What one more operation adds to the history -/

/-- `Graph.after` one more operation. -/
theorem after_concat (ops : List Operation) (op : Operation) :
    after (ops ++ [op]) = (after ops).apply op := by
  simp [after]

/-- `Accepted` by one more operation: it was so before, or this is the import. -/
theorem accepted_concat_iff {ops : List Operation} {op : Operation} {e : Nat × Nat} :
    Accepted (ops ++ [op]) e ↔
      Accepted ops e ∨ ∃ source target, op = .addImport source target ∧
        (after ops).nodeIndex? source = some e.1 ∧ (after ops).nodeIndex? target = some e.2 := by
  constructor
  · rintro ⟨earlier, later, source, target, heq, haccepted, hsource, htarget⟩
    -- the operations behind the import are none, or end with the last one
    rcases List.eq_nil_or_concat later with rfl | ⟨later, last, rfl⟩
    · obtain ⟨rfl, hop⟩ := List.append_inj' heq rfl
      exact .inr ⟨source, target, List.singleton_inj.1 hop, hsource, htarget⟩
    · rw [List.concat_eq_append, ← List.cons_append, ← List.append_assoc] at heq
      obtain ⟨rfl, -⟩ := List.append_inj' heq rfl
      exact .inl ⟨earlier, later, source, target, rfl, haccepted, hsource, htarget⟩
  · rintro (⟨earlier, later, source, target, rfl, h⟩ | ⟨source, target, rfl, hsource, htarget⟩)
    · exact ⟨earlier, later ++ [op], source, target, by simp, h⟩
    · refine ⟨ops, [], source, target, rfl, ?_, hsource, htarget⟩
      simp only [addImport?, hsource, htarget, Option.isSome_some]

/-! ## The nodes of a history -/

/-- The files are the places of the paths, each under its first spelling and in this order. -/
structure FirstSpelled (files paths : List Path) : Prop where
  find : ∀ p : Path, files.find? p.same = paths.find? p.same
  order : (files.map fun p => paths.findIdx p.same).Pairwise (· < ·)

namespace FirstSpelled

variable {files paths : List Path}

/-- `Path.isIn` tells the same of the files and of the paths. -/
theorem isIn_eq (h : FirstSpelled files paths) (p : Path) : p.isIn files = p.isIn paths := by
  rw [Path.isIn, Path.isIn, ← List.isSome_find?, ← List.isSome_find?, h.find p]

/-- The place of a file is spelled by one of the paths. -/
theorem findIdx_lt (h : FirstSpelled files paths) {p : Path} (hp : p ∈ files) :
    paths.findIdx p.same < paths.length := by
  rw [List.findIdx_lt_length, ← Path.isIn_iff, ← h.isIn_eq]
  exact Path.isIn_iff.2 ⟨p, hp, Path.same_refl p⟩

/-- `FirstSpelled` places do not change when a path follows. -/
theorem map_findIdx_concat (h : FirstSpelled files paths) (p : Path) :
    (files.map fun q => (paths ++ [p]).findIdx q.same) = files.map fun q => paths.findIdx q.same :=
  List.map_congr_left fun q hq => by rw [List.findIdx_append, if_pos (h.findIdx_lt hq)]

/-- `FirstSpelled` is kept by a path whose place was spelled before. -/
theorem concat_old (h : FirstSpelled files paths) {p : Path} (hp : p.isIn paths = true) :
    FirstSpelled files (paths ++ [p]) where
  find q := by
    rw [List.find?_append, h.find q]
    by_cases hsame : q.same p = true
    · -- the place has an earlier spelling
      rw [← Path.isIn_congr hsame, Path.isIn, ← List.isSome_find?] at hp
      rw [Option.or_of_isSome hp]
    · simp [hsame]
  order := by
    rw [h.map_findIdx_concat]
    exact h.order

/-- `FirstSpelled` is kept by a new place, which becomes the last file. -/
theorem concat_new (h : FirstSpelled files paths) {p : Path} (hp : p.isIn paths = false) :
    FirstSpelled (files ++ [p]) (paths ++ [p]) where
  find q := by rw [List.find?_append, List.find?_append, h.find q]
  order := by
    rw [List.map_append, h.map_findIdx_concat]
    refine List.pairwise_append.2 ⟨h.order, List.pairwise_singleton _ _, ?_⟩
    -- the new path is the last one, and all other files are spelled before
    have hnone : paths.findIdx p.same = paths.length := by
      rw [List.findIdx_eq_length]
      simpa [Path.isIn] using hp
    have hlast : (paths ++ [p]).findIdx p.same = paths.length := by
      rw [List.findIdx_append, if_neg (by omega)]
      simp
    simp only [List.mem_map, List.map_cons, List.map_nil, List.mem_singleton, hlast]
    rintro _ ⟨q, hq, rfl⟩ _ rfl
    exact h.findIdx_lt hq

/-- `FirstSpelled` files are at different places. -/
theorem distinct (h : FirstSpelled files paths) : files.Pairwise fun p q => p.same q = false := by
  refine (List.pairwise_map.1 h.order).imp fun {p q} hlt => Bool.eq_false_iff.2 fun hsame => ?_
  have hcongr : p.same = q.same := funext fun r => Path.same_congr hsame r
  rw [hcongr] at hlt
  exact Nat.lt_irrefl _ hlt

/-- `FirstSpelled` files are the first spellings of their places. -/
theorem find?_eq_self (h : FirstSpelled files paths) {p : Path} (hp : p ∈ files) :
    paths.find? p.same = some p := by
  have hmem : p ∈ files.filter p.same := List.mem_filter.2 ⟨hp, Path.same_refl p⟩
  rwa [Path.filter_same_eq h.distinct, Option.mem_toList, h.find p] at hmem

end FirstSpelled

/-- `Graph.after` is well-formed, whatever was done. -/
theorem wellFormed_after (ops : List Operation) : (after ops).WellFormed := by
  induction ops using List.reverseRecOn with
  | nil => exact wellFormed_empty
  | append_singleton ops op ih =>
    rw [after_concat]
    exact ih.apply op

/-- `Graph.after` has the places that were added, under their first spellings. -/
theorem firstSpelled_after (ops : List Operation) :
    FirstSpelled (after ops).files (added ops) := by
  -- the last operation is taken off, since it acts on what the others have made
  induction ops using List.reverseRecOn with
  | nil => exact ⟨fun _ => rfl, .nil⟩
  | append_singleton ops op ih =>
    rw [after_concat, added, List.filterMap_append, ← added]
    cases op with
    | addFile p =>
      show FirstSpelled ((after ops).addFile p).files (added ops ++ [p])
      have hin : (after ops).contains p = p.isIn (added ops) := by
        rw [(wellFormed_after ops).contains_eq, ih.isIn_eq]
      rw [addFile, hin]
      cases hp : p.isIn (added ops) with
      | true => exact ih.concat_old hp
      | false => exact ih.concat_new hp
    | addImport source target =>
      show FirstSpelled ((after ops).addImport source target).files (added ops ++ [])
      rwa [files_addImport, List.append_nil]

/-- `Graph.after` has in its index the nodes under their paths. -/
theorem mem_index_after_iff (ops : List Operation) {p : Path} {i : Nat} :
    (p, i) ∈ (after ops).index ↔ (after ops).pathOf? i = some p := by
  induction ops using List.reverseRecOn with
  | nil => exact iff_of_false List.not_mem_nil (by simp [after, pathOf?, empty])
  | append_singleton ops op ih =>
    rw [after_concat]
    cases op with
    | addFile q =>
      rw [apply, addFile]
      split
      · exact ih
      · -- the new entry is for the number behind those that are there
        show (p, i) ∈ (after ops).index.insert q (after ops).files.length ↔
          ((after ops).files ++ [q])[i]? = some p
        rw [PathIndex.insert, List.mem_cons, ih, pathOf?, Prod.mk.injEq]
        rcases Nat.lt_trichotomy i (after ops).files.length with hlt | rfl | hgt
        · rw [List.getElem?_append_left hlt]
          exact ⟨fun h => h.elim (fun h => absurd h.2 (Nat.ne_of_lt hlt)) id, .inr⟩
        · simp [eq_comm]
        · have hout : (after ops).files[i]? = none := List.getElem?_eq_none (Nat.le_of_lt hgt)
          have hout' : ((after ops).files ++ [q])[i]? = none :=
            List.getElem?_eq_none (by simpa using hgt)
          simp [hout, hout', Nat.ne_of_gt hgt]
    | addImport source target =>
      have hindex : ((after ops).addImport source target).index = (after ops).index := by
        rw [addImport, addImport?]
        split
        · rw [Option.getD_some]
          split <;> rfl
        · rfl
      rw [apply, hindex, pathOf?, files_addImport]
      exact ih

/-! ## The imports of a history -/

/-- `Graph.addImport` repeats no import. -/
theorem nodup_imports_addImport {g : Graph} (h : g.imports.Nodup) (source target : Path) :
    (g.addImport source target).imports.Nodup := by
  rw [addImport, addImport?]
  split
  · rw [Option.getD_some]
    split
    · exact h
    · rename_i hnew
      exact h.append (List.nodup_singleton _) (by simpa using hnew)
  · exact h

/-- `Graph.after` has imports between the nodes for which one was accepted, and none of them is
    repeated. -/
theorem imports_after (ops : List Operation) :
    (after ops).imports.Nodup ∧ ∀ e, e ∈ (after ops).imports ↔ Accepted ops e := by
  induction ops using List.reverseRecOn with
  | nil =>
    refine ⟨.nil, fun e => iff_of_false List.not_mem_nil ?_⟩
    -- without operations nothing was accepted
    rintro ⟨earlier, later, _, _, h, -⟩
    cases earlier <;> cases h
  | append_singleton ops op ih =>
    obtain ⟨hnodup, hmem⟩ := ih
    simp only [after_concat, accepted_concat_iff]
    cases op with
    | addFile p =>
      refine ⟨?_, fun e => ?_⟩
      · rwa [apply, imports_addFile]
      · rw [apply, imports_addFile, hmem]
        simp
    | addImport source target =>
      refine ⟨nodup_imports_addImport hnodup source target, fun ⟨i, j⟩ => ?_⟩
      rw [apply, mem_imports_addImport_iff, hmem]
      simp

/-! ## What the graph shows -/

section

variable {g : Graph}

/-- `Graph.addImport?` accepts an import exactly between nodes. -/
theorem isSome_addImport? (g : Graph) (source target : Path) :
    (g.addImport? source target).isSome = (g.contains source && g.contains target) := by
  rw [addImport?, contains, contains]
  cases g.nodeIndex? source <;> cases g.nodeIndex? target <;> rfl

/-- `Graph.importsOf` lists the paths of the nodes that the file's node imports. -/
theorem mem_importsOf_iff {p q : Path} :
    q ∈ g.importsOf p ↔
      ∃ i j, g.nodeIndex? p = some i ∧ g.pathOf? j = some q ∧ (i, j) ∈ g.imports := by
  rw [importsOf]
  -- a path that is no node imports nothing
  cases hp : g.nodeIndex? p with
  | none => simp
  | some i =>
    simp only [mem_sortedPaths_iff, mem_targets_iff]
    constructor
    · rintro ⟨j, h, hj⟩
      exact ⟨i, j, rfl, hj, h⟩
    · rintro ⟨_, j, ⟨⟩, hj, h⟩
      exact ⟨j, h, hj⟩

/-- `Graph.importersOf` lists the paths of the nodes that import the file's node. -/
theorem mem_importersOf_iff {p q : Path} :
    q ∈ g.importersOf p ↔
      ∃ i j, g.nodeIndex? p = some j ∧ g.pathOf? i = some q ∧ (i, j) ∈ g.imports := by
  rw [importersOf]
  -- and is imported by nothing
  cases hp : g.nodeIndex? p with
  | none => simp
  | some j =>
    simp only [mem_sortedPaths_iff, mem_sources_iff]
    constructor
    · rintro ⟨i, h, hi⟩
      exact ⟨i, j, rfl, hi, h⟩
    · rintro ⟨i, _, ⟨⟩, hi, h⟩
      exact ⟨i, h, hi⟩

/-- `Graph.importsOf` in terms of places: a file imports another one if there is an import between
    their nodes. -/
theorem WellFormed.isIn_importsOf_iff (hg : g.WellFormed) {p q : Path} :
    q.isIn (g.importsOf p) = true ↔
      ∃ i j, g.nodeIndex? p = some i ∧ g.nodeIndex? q = some j ∧ (i, j) ∈ g.imports := by
  simp only [Path.isIn_iff, mem_importsOf_iff, hg.nodeIndex?_eq_some_iff (p := q)]
  constructor
  · rintro ⟨r, ⟨i, j, hi, hj, h⟩, hsame⟩
    exact ⟨i, j, hi, ⟨r, hj, hsame⟩, h⟩
  · rintro ⟨i, j, hi, ⟨r, hj, hsame⟩, h⟩
    exact ⟨r, ⟨i, j, hi, hj, h⟩, hsame⟩

/-- `Graph.importersOf` in terms of places, which is the same import seen from its other end. -/
theorem WellFormed.isIn_importersOf_iff (hg : g.WellFormed) {p q : Path} :
    p.isIn (g.importersOf q) = true ↔
      ∃ i j, g.nodeIndex? p = some i ∧ g.nodeIndex? q = some j ∧ (i, j) ∈ g.imports := by
  simp only [Path.isIn_iff, mem_importersOf_iff, hg.nodeIndex?_eq_some_iff (p := p)]
  constructor
  · rintro ⟨r, ⟨i, j, hj, hi, h⟩, hsame⟩
    exact ⟨i, j, ⟨r, hi, hsame⟩, hj, h⟩
  · rintro ⟨i, j, ⟨r, hi, hsame⟩, hj, h⟩
    exact ⟨r, ⟨i, j, hj, hi, h⟩, hsame⟩

/-- Imports that are not repeated and agree in one node differ in the other one. -/
private theorem nodup_map_filter {imports : List (Nat × Nat)} (h : imports.Nodup) (i : Nat) :
    ((imports.filter fun e => e.1 == i).map (·.2)).Nodup ∧
      ((imports.filter fun e => e.2 == i).map (·.1)).Nodup := by
  constructor
  · refine (h.filter _).map_on fun a ha b hb heq => Prod.ext ?_ heq
    simp only [List.mem_filter, beq_iff_eq] at ha hb
    rw [ha.2, hb.2]
  · refine (h.filter _).map_on fun a ha b hb heq => Prod.ext heq ?_
    simp only [List.mem_filter, beq_iff_eq] at ha hb
    rw [ha.2, hb.2]

/-- `Graph.importsOf` and `Graph.importersOf` stand in the strict order of paths. -/
theorem WellFormed.pairwise_neighbours (hg : g.WellFormed) (hnodup : g.imports.Nodup) (p : Path) :
    (g.importsOf p).Pairwise (fun q r => q.compare r = .lt) ∧
      (g.importersOf p).Pairwise fun q r => q.compare r = .lt := by
  rw [importsOf, importersOf]
  cases g.nodeIndex? p with
  | none => exact ⟨.nil, .nil⟩
  | some i =>
    obtain ⟨htargets, hsources⟩ := nodup_map_filter hnodup i
    exact ⟨hg.pairwise_sortedPaths htargets, hg.pairwise_sortedPaths hsources⟩

end

/-- A graph that was made from the empty one by adding files and imports in any order records all
    that was done. -/
theorem records_after (ops : List Operation) : (after ops).Records ops := by
  have hg := wellFormed_after ops
  have hfiles := firstSpelled_after ops
  obtain ⟨hnodup, himports⟩ := imports_after ops
  refine ⟨fun p i => mem_index_after_iff ops, fun p i => hg.nodeIndex?_eq_some_iff,
    fun i => ⟨fun hi => ?_, fun ⟨p, hp⟩ => hg.nodeIndex?_lt hp⟩, fun p => ?_, hfiles.order,
    fun later p i h => nodeIndex?_foldl_apply h later, fun p => ?_, hg.distinct,
    isSome_addImport? _, fun source target h => ?_, ?_, hg.pairwise_neighbours hnodup,
    fun p q => ?_, fun p q => ?_, fun p q => ?_⟩
  · exact ⟨_, hg.nodeIndex?_eq_some_iff.2 ⟨_, List.getElem?_eq_getElem hi, Path.same_refl _⟩⟩
  · rw [hg.contains_eq, hfiles.isIn_eq]
  · rw [hg.nodeIndex?_bind_pathOf?, hfiles.find]
  · rw [Option.isSome_eq_false_iff, Option.isNone_iff_eq_none] at h
    rw [addImport, h, Option.getD_none]
  · -- the imports, none of which is repeated, are the accepted pairs
    have hset : {e | Accepted ops e} = ((after ops).imports.toFinset : Set (Nat × Nat)) := by
      ext e
      simp [himports]
    rw [hset, Set.ncard_coe_finset, List.toFinset_card_of_nodup hnodup]
  · simp only [mem_importsOf_iff, himports]
  · simp only [mem_importersOf_iff, himports]
  · rw [Bool.eq_iff_iff, hg.isIn_importsOf_iff, hg.isIn_importersOf_iff]

end Deadwood.Graph
