import Mathlib.Order.Preorder.Finite
import Deadwood.Proofs.Graph.Traversal

/-!
# Where dead files come from

A dead file may be imported by other dead files. Whoever follows the importers backwards comes to
an end, since there are finitely many files: to a file that all further importers lead back from
(`exists_source`). Such a source is imported by no other file, or it lies on a circle that nothing
outside imports, and then the circle is one of the dead cycles. So no dead file is left unexplained
(`dead_files_have_origins`).
-/

namespace Deadwood.Graph

open Relation

variable {g : Graph}

/-! ## Chains backwards -/

/-- `Graph.Edge` is between files. -/
theorem Edge.mem_files {p q : Path} (h : g.Edge p q) : p ∈ g.files ∧ q ∈ g.files := by
  obtain ⟨i, j, hi, hj, -⟩ := h
  exact ⟨List.mem_of_getElem? hi, List.mem_of_getElem? hj⟩

/-- A chain of `Graph.Edge` to a file starts at a file. -/
theorem mem_files_of_chain {p q : Path} (h : ReflTransGen g.Edge q p) (hp : p ∈ g.files) :
    q ∈ g.files := by
  induction h using ReflTransGen.head_induction_on with
  | refl => exact hp
  | head hedge _ _ => exact hedge.mem_files.1

/-- Every file has a source above it: a file that leads to it, and that leads back to all that lead
    to the source. -/
theorem exists_source {p : Path} (hp : p ∈ g.files) :
    ∃ q ∈ g.files, ReflTransGen g.Edge q p ∧
      ∀ x, ReflTransGen g.Edge x q → ReflTransGen g.Edge q x := by
  -- of all files above `p`, take one with as few files above it as can be
  have hfinite : {q | q ∈ g.files ∧ ReflTransGen g.Edge q p}.Finite :=
    g.files.finite_toSet.subset fun q hq => hq.1
  obtain ⟨q, ⟨hq, hchain⟩, hleast⟩ :=
    hfinite.exists_minimalFor (fun q => {x | ReflTransGen g.Edge x q}) _ ⟨p, hp, .refl⟩
  refine ⟨q, hq, hchain, fun x hx => ?_⟩
  -- a file above the source has no more files above it than the source has
  have hbelow : {y | ReflTransGen g.Edge y x} ⊆ {y | ReflTransGen g.Edge y q} :=
    fun y hy => ReflTransGen.trans hy hx
  exact hleast ⟨mem_files_of_chain hx hq, hx.trans hchain⟩ hbelow ReflTransGen.refl

/-- `Graph.Connected` holds of a file and itself. -/
theorem Connected.refl (p : Path) : g.Connected p p := ⟨.refl, .refl⟩

/-- `Graph.Connected` does not depend on the direction. -/
theorem Connected.symm {p q : Path} (h : g.Connected p q) : g.Connected q p := ⟨h.2, h.1⟩

/-- `Graph.Connected` files of a third one are connected. -/
theorem Connected.trans {p q x : Path} (hpq : g.Connected p q) (hqx : g.Connected q x) :
    g.Connected p x :=
  ⟨hpq.1.trans hqx.1, hqx.2.trans hpq.2⟩

/-- `Graph.reach`: what leads to a dead file is dead. -/
theorem WellFormed.mem_dead_of_chain (hg : g.WellFormed) {entries : List Path} {p q : Path}
    (hp : p ∈ (g.reach entries).dead) (hchain : ReflTransGen g.Edge q p) :
    q ∈ (g.reach entries).dead := by
  rw [hg.mem_dead_iff_not_isLedTo] at hp ⊢
  refine ⟨mem_files_of_chain hchain hp.1, ?_⟩
  rintro ⟨e, he, x, hx, hsame, hxq⟩
  exact hp.2 ⟨e, he, x, hx, hsame, hxq.trans hchain⟩

/-- `Graph.importersOf` a file are those with an import to it. -/
theorem WellFormed.mem_importersOf_iff_edge (hg : g.WellFormed) {p q : Path} (hp : p ∈ g.files) :
    q ∈ g.importersOf p ↔ g.Edge q p := by
  -- a file is spelled as its node is
  have hnode : ∀ j, g.nodeIndex? p = some j ↔ g.pathOf? j = some p := by
    intro j
    rw [hg.nodeIndex?_eq_some_iff]
    constructor
    · rintro ⟨x, hx, hsame⟩
      rw [hg.eq_of_mem_files hp (List.mem_of_getElem? hx) hsame]
      exact hx
    · exact fun hj => ⟨p, hj, Path.same_refl p⟩
  simp only [mem_importersOf_iff, hnode, Edge]
  exact exists_congr fun i => exists_congr fun j => and_left_comm

/-! ## Sources among the dead files -/

/-- No other file imports the file. It may import itself. -/
def IsUnimported (g : Graph) (p : Path) : Prop := ∀ q ∈ g.importersOf p, q = p

/-- `Graph.deadCycles` has a dead source that another file imports. -/
theorem WellFormed.exists_deadCycle_of_source (hg : g.WellFormed) {entries : List Path}
    {p q : Path} (hp : p ∈ (g.reach entries).dead)
    (hsource : ∀ x, ReflTransGen g.Edge x p → ReflTransGen g.Edge p x) (hedge : g.Edge q p)
    (hne : q ≠ p) : ∃ cycle ∈ g.deadCycles (g.reach entries), p ∈ cycle := by
  have hfile : p ∈ g.files := hedge.mem_files.2
  obtain ⟨i, hi⟩ := List.getElem?_of_mem hfile
  have hmem : ∀ x, x ∈ g.sortedPaths (g.componentOf i) ↔ g.Connected p x := fun x =>
    hg.mem_component_iff hi
  have hself : p ∈ g.sortedPaths (g.componentOf i) := (hmem p).2 (.refl p)
  have hother : q ∈ g.sortedPaths (g.componentOf i) :=
    (hmem q).2 ⟨hsource q (.single hedge), .single hedge⟩
  refine ⟨g.sortedPaths (g.componentOf i), hg.mem_deadCycles_iff.2 ?_, hself⟩
  refine ⟨hg.pairwise_component i, ?_, fun x hx => ?_, fun x hx y => ?_, fun x hx => ?_,
    fun x hx y hyx => ?_⟩
  · -- a list of one member has not both `p` and `q`
    by_contra hshort
    obtain ⟨x, hx⟩ := List.length_eq_one_iff.1
      (show (g.sortedPaths (g.componentOf i)).length = 1 by
        have := List.length_pos_of_mem hself
        omega)
    rw [hx, List.mem_singleton] at hself hother
    exact hne (hother.trans hself.symm)
  · exact ((hmem x).1 hx).mem_files hfile
  · have hpx := (hmem x).1 hx
    exact (hmem y).trans ⟨fun hpy => hpx.symm.trans hpy, fun hxy => hpx.trans hxy⟩
  · -- a member leads to the dead file `p`
    have hpx := (hmem x).1 hx
    rw [← Bool.not_eq_true, isReachable_iff (hpx.mem_files hfile), not_not]
    exact hg.mem_dead_of_chain hp hpx.2
  · have hyp : ReflTransGen g.Edge y p := ((hmem x).1 hx).2.head hyx
    exact (hmem y).2 ⟨hsource y hyp, hyp⟩

/-- The file explains why dead files are dead: it is one that no other file imports, or a member of
    a dead cycle. -/
def IsOrigin (g : Graph) (r : Reach) (p : Path) : Prop :=
  g.IsUnimported p ∨ ∃ cycle ∈ g.deadCycles r, p ∈ cycle

/-- `IsOrigin` holds of a dead source. -/
theorem WellFormed.isOrigin_of_source (hg : g.WellFormed) {entries : List Path} {p : Path}
    (hp : p ∈ (g.reach entries).dead)
    (hsource : ∀ x, ReflTransGen g.Edge x p → ReflTransGen g.Edge p x) :
    g.IsOrigin (g.reach entries) p := by
  have hfile := (hg.mem_dead_iff_not_isLedTo.1 hp).1
  by_cases halone : g.IsUnimported p
  · exact .inl halone
  · simp only [IsUnimported, not_forall] at halone
    obtain ⟨q, hq, hne⟩ := halone
    rw [hg.mem_importersOf_iff_edge hfile] at hq
    exact .inr (hg.exists_deadCycle_of_source hp hsource hq hne)

/-- `IsOrigin` holds of some dead file that leads to a given one. -/
theorem WellFormed.exists_origin (hg : g.WellFormed) {entries : List Path} {p : Path}
    (hp : p ∈ (g.reach entries).dead) :
    ∃ q ∈ (g.reach entries).dead, g.IsOrigin (g.reach entries) q ∧ ReflTransGen g.Edge q p := by
  obtain ⟨q, -, hchain, hsource⟩ := exists_source (hg.mem_dead_iff_not_isLedTo.1 hp).1
  have hq := hg.mem_dead_of_chain hp hchain
  exact ⟨q, hq, hg.isOrigin_of_source hq hsource, hchain⟩

/-- Whatever a graph has been made of and whichever its entry points are, a chain of imports leads
    to every dead file from a dead file that explains it. So where there are dead files, one of them
    is imported by no other file, or there is a dead cycle. -/
theorem dead_files_have_origins (ops : List Operation) (entries : List Path) :
    (∀ p ∈ ((after ops).reach entries).dead, ∃ q ∈ ((after ops).reach entries).dead,
      (after ops).IsOrigin ((after ops).reach entries) q ∧ ReflTransGen (after ops).Edge q p) ∧
    (((after ops).reach entries).dead ≠ [] →
      (∃ q ∈ ((after ops).reach entries).dead, (after ops).IsUnimported q) ∨
        (after ops).deadCycles ((after ops).reach entries) ≠ []) := by
  have hg := wellFormed_after ops
  generalize after ops = g at hg
  refine ⟨fun p hp => hg.exists_origin hp, fun hne => ?_⟩
  -- the origin of any dead file is imported by none, or in a dead cycle
  obtain ⟨p, hp⟩ := List.exists_mem_of_ne_nil _ hne
  obtain ⟨q, hq, horigin, -⟩ := hg.exists_origin hp
  rcases horigin with halone | ⟨cycle, hcycle, -⟩
  · exact .inl ⟨q, hq, halone⟩
  · exact .inr (List.ne_nil_of_mem hcycle)

/-- An entry point that imports itself, and a circle of two files that imports a third one. -/
def orphanOperations : List Operation :=
  [.addFile ⟨"/p/index.js"⟩, .addFile ⟨"/p/a.js"⟩, .addFile ⟨"/p/b.js"⟩, .addFile ⟨"/p/c.js"⟩,
    .addImport ⟨"/p/index.js"⟩ ⟨"/p/index.js"⟩, .addImport ⟨"/p/a.js"⟩ ⟨"/p/b.js"⟩,
    .addImport ⟨"/p/b.js"⟩ ⟨"/p/a.js"⟩, .addImport ⟨"/p/b.js"⟩ ⟨"/p/c.js"⟩]

/-- The file that the circle imports is dead. -/
theorem mem_dead_orphanOperations :
    ⟨"/p/c.js"⟩ ∈ ((after orphanOperations).reach [⟨"/p/index.js"⟩]).dead := by
  have hg := wellFormed_after orphanOperations
  -- the graph and the walk over it, written out
  have hgraph : after orphanOperations =
      ⟨[⟨"/p/index.js"⟩, ⟨"/p/a.js"⟩, ⟨"/p/b.js"⟩, ⟨"/p/c.js"⟩],
        [(⟨"/p/c.js"⟩, 3), (⟨"/p/b.js"⟩, 2), (⟨"/p/a.js"⟩, 1), (⟨"/p/index.js"⟩, 0)],
        [(0, 0), (1, 2), (2, 1), (2, 3)]⟩ := by
    rfl
  have hentry : [(⟨"/p/index.js"⟩ : Path)].filterMap (after orphanOperations).nodeIndex? = [0] := by
    rfl
  have hwalk : (after orphanOperations).reachedFrom [0] = [0] := by
    simp [hgraph, reachedFrom, walk, Walk.start, Walk.enqueueAll, Walk.enqueue, targets]
  rw [hg.mem_dead_iff]
  refine ⟨3, rfl, ?_⟩
  rw [← hg.mem_reachedFrom_iff, hentry, hwalk]
  decide

/-- The file that the circle imports has an origin, and there is a dead cycle. -/
theorem dead_files_have_origins_orphanOperations :
    ⟨"/p/c.js"⟩ ∈ ((after orphanOperations).reach [⟨"/p/index.js"⟩]).dead ∧
      (∃ q ∈ ((after orphanOperations).reach [⟨"/p/index.js"⟩]).dead,
        (after orphanOperations).IsOrigin ((after orphanOperations).reach [⟨"/p/index.js"⟩]) q ∧
          ReflTransGen (after orphanOperations).Edge q ⟨"/p/c.js"⟩) ∧
      ((∃ q ∈ ((after orphanOperations).reach [⟨"/p/index.js"⟩]).dead,
          (after orphanOperations).IsUnimported q) ∨
        (after orphanOperations).deadCycles
          ((after orphanOperations).reach [⟨"/p/index.js"⟩]) ≠ []) := by
  obtain ⟨horigins, hsome⟩ := dead_files_have_origins orphanOperations [⟨"/p/index.js"⟩]
  exact ⟨mem_dead_orphanOperations, horigins _ mem_dead_orphanOperations,
    hsome (List.ne_nil_of_mem mem_dead_orphanOperations)⟩

end Deadwood.Graph
