import Deadwood.Proofs.Graph.Traversal

/-!
# Dead cycles among the components of a graph

The dead cycles of a graph are found by looking at one node after the other. They can as well be
picked out of the strongly connected components, whichever way these were found: neither their order
nor the order of the nodes in them plays a part (`deadCyclesAmong_eq`). Of a graph that was made by
adding files and imports, the dead cycles are listed once each, they have no file in common, and
larger ones come first (`deadCycles_listed`).
-/

namespace Deadwood.Graph

open Relation

variable {g : Graph}

/-! ## Picking the dead cycles out of the components -/

/-- The lists are the strongly connected components of the graph: every node is in one of them, and
    with a node all those that chains lead to and back from. -/
structure AreComponents (g : Graph) (components : List (List Nat)) : Prop where
  nodes : components.flatten.Perm (List.range g.files.length)
  connected : ∀ c ∈ components, ∀ i ∈ c, ∀ j, j ∈ c ↔
    ReflTransGen (fun a b => (a, b) ∈ g.imports) i j ∧
      ReflTransGen (fun a b => (a, b) ∈ g.imports) j i

/-- The components of two or more files of which none is reachable and none is imported from outside
    the component, in the order of cycles. -/
def deadCyclesAmong (g : Graph) (r : Reach) (components : List (List Nat)) : List (List Path) :=
  let dead := components.filter fun members =>
    2 ≤ members.length && (members.all fun i => !(g.pathOf? i).any r.isReachable) &&
      g.isClosed members
  (dead.map g.sortedPaths).mergeSort fun a b => (compareCycles a b).isLE

namespace AreComponents

variable {components : List (List Nat)}

/-- `AreComponents` have numbers of nodes. -/
theorem lt_length (h : g.AreComponents components) {c : List Nat} (hc : c ∈ components) {i : Nat}
    (hi : i ∈ c) : i < g.files.length :=
  List.mem_range.1 (h.nodes.mem_iff.1 (List.mem_flatten.2 ⟨c, hc, hi⟩))

/-- `AreComponents` have no node in two of them, or twice in one. -/
theorem nodup (h : g.AreComponents components) :
    (∀ c ∈ components, c.Nodup) ∧ components.Pairwise List.Disjoint :=
  List.nodup_flatten.1 (h.nodes.nodup_iff.2 List.nodup_range)

/-- `AreComponents` are what `Graph.componentOf` computes, in any order. -/
theorem perm_componentOf (h : g.AreComponents components) (hg : g.WellFormed) {c : List Nat}
    (hc : c ∈ components) {i : Nat} (hi : i ∈ c) : c.Perm (g.componentOf i) := by
  have hnodup : (g.componentOf i).Nodup := List.nodup_range.filter _
  refine (List.perm_ext_iff_of_nodup (h.nodup.1 c hc) hnodup).2 fun j => ?_
  rw [h.connected c hc i hi j, hg.mem_componentOf_iff (h.lt_length hc hi)]

/-- `Graph.sortedPaths` of a component do not depend on how its nodes are ordered. -/
theorem sortedPaths_eq (h : g.AreComponents components) (hg : g.WellFormed) {c : List Nat}
    (hc : c ∈ components) {i : Nat} (hi : i ∈ c) :
    g.sortedPaths c = g.sortedPaths (g.componentOf i) := by
  refine Path.eq_of_pairwise_lt (hg.pairwise_sortedPaths (h.nodup.1 c hc)) (hg.pairwise_component i)
    fun p => ?_
  simp only [mem_sortedPaths_iff, (h.perm_componentOf hg hc hi).mem_iff]

/-- `AreComponents`: in every one there is a node with the least number. -/
theorem exists_least (h : g.AreComponents components) (hg : g.WellFormed) {c : List Nat}
    (hc : c ∈ components) (hne : c ≠ []) : ∃ i ∈ c, (g.componentOf i).head? = some i := by
  obtain ⟨j, hj⟩ := List.exists_mem_of_ne_nil c hne
  have hperm := h.perm_componentOf hg hc hj
  have hnonempty : g.componentOf j ≠ [] := List.ne_nil_of_mem (hperm.mem_iff.1 hj)
  obtain ⟨i, hi⟩ := Option.isSome_iff_exists.1 (List.isSome_head?.2 hnonempty)
  have hmem := List.mem_of_mem_head? hi
  refine ⟨i, hperm.mem_iff.2 hmem, ?_⟩
  rw [hg.componentOf_eq (h.lt_length hc hj) hmem, hi]

/-- `IsDeadComponent` is asked of a component at its least node. -/
theorem isDeadComponent_iff (h : g.AreComponents components) (hg : g.WellFormed) (r : Reach)
    {c : List Nat} (hc : c ∈ components) {i : Nat} (hi : i ∈ c)
    (hleast : (g.componentOf i).head? = some i) :
    g.IsDeadComponent r i ↔ 2 ≤ c.length ∧
      (∀ j ∈ c, ∀ p, g.pathOf? j = some p → r.isReachable p = false) ∧
      ∀ j ∈ c, ∀ k, (k, j) ∈ g.imports → k ∈ c := by
  have hperm := h.perm_componentOf hg hc hi
  rw [hperm.length_eq]
  simp only [hperm.mem_iff]
  exact ⟨fun hdead => ⟨hdead.large, hdead.dead, hdead.closed⟩,
    fun ⟨hlarge, hdead, hclosed⟩ => ⟨hleast, hlarge, hdead, hclosed⟩⟩

/-- `deadCyclesAmong` has the same members as `Graph.deadCycles`. -/
theorem mem_deadCyclesAmong_iff (h : g.AreComponents components) (hg : g.WellFormed) {r : Reach}
    {cycle : List Path} :
    cycle ∈ g.deadCyclesAmong r components ↔ cycle ∈ g.deadCycles r := by
  simp only [mem_deadCycles_iff_component, deadCyclesAmong, List.mem_mergeSort, List.mem_map,
    List.mem_filter, Bool.and_eq_true, decide_eq_true_eq, List.all_eq_true, Bool.not_eq_true',
    Option.any_eq_false, isClosed_iff]
  constructor
  · rintro ⟨c, ⟨hc, ⟨hlarge, hdead⟩, hclosed⟩, rfl⟩
    -- a component of two nodes or more is found at its least one
    have hne : c ≠ [] := List.length_pos_iff.1 (by omega)
    obtain ⟨i, hi, hleast⟩ := h.exists_least hg hc hne
    exact ⟨i, (h.isDeadComponent_iff hg r hc hi hleast).2 ⟨hlarge, hdead, hclosed⟩,
      (h.sortedPaths_eq hg hc hi).symm⟩
  · rintro ⟨i, hdead, rfl⟩
    have hi := List.mem_range.2 (lt_of_mem_componentOf hdead.self_mem)
    obtain ⟨c, hc, hic⟩ := List.mem_flatten.1 (h.nodes.mem_iff.2 hi)
    obtain ⟨hlarge, hdead, hclosed⟩ := (h.isDeadComponent_iff hg r hc hic hdead.least).1 hdead
    exact ⟨c, ⟨hc, ⟨hlarge, hdead⟩, hclosed⟩, h.sortedPaths_eq hg hc hic⟩

/-- `deadCyclesAmong` lists no cycle twice. -/
theorem nodup_deadCyclesAmong (h : g.AreComponents components) (hg : g.WellFormed) (r : Reach) :
    (g.deadCyclesAmong r components).Nodup := by
  rw [deadCyclesAmong, (List.mergeSort_perm _ _).nodup_iff, List.Nodup, List.pairwise_map]
  refine (h.nodup.2.filter _).imp_of_mem fun {c d} hc hd hdisjoint heq => ?_
  simp only [List.mem_filter, Bool.and_eq_true, decide_eq_true_eq] at hc
  -- a file of one component would be a file of the other one as well
  obtain ⟨i, hi⟩ := List.exists_mem_of_length_pos (Nat.lt_of_lt_of_le Nat.two_pos hc.2.1.1)
  have hp : g.pathOf? i = some _ := List.getElem?_eq_getElem (h.lt_length hc.1 hi)
  obtain ⟨j, hj, hjp⟩ := mem_sortedPaths_iff.1 (heq ▸ mem_sortedPaths_iff.2 ⟨i, hi, hp⟩)
  rw [← hg.eq_of_same hp hjp (Path.same_refl _)] at hj
  exact hdisjoint hi hj

/-- `deadCyclesAmong` is `Graph.deadCycles`, whichever way the components were found. -/
theorem deadCyclesAmong_eq (h : g.AreComponents components) (hg : g.WellFormed) (r : Reach) :
    g.deadCyclesAmong r components = g.deadCycles r := by
  have hdead : ∀ c ∈ g.deadCyclesAmong r components, g.IsDeadCycle r c := fun c hc =>
    hg.mem_deadCycles_iff.1 ((h.mem_deadCyclesAmong_iff hg).1 hc)
  exact hg.eq_of_mem_iff hdead (fun c => h.mem_deadCyclesAmong_iff hg)
    (h.nodup_deadCyclesAmong hg r) (hg.nodup_deadCycles r) (pairwise_mergeSort_compareCycles _)
    (pairwise_deadCycles g r)

end AreComponents

/-! ## The list of dead cycles -/

/-- The dead cycles of a graph, as they are listed. -/
structure ListsDeadCycles (g : Graph) (r : Reach) (cycles : List (List Path)) : Prop where
  /-- The dead cycles are listed and nothing else. -/
  exact : ∀ cycle, cycle ∈ cycles ↔ g.IsDeadCycle r cycle
  /-- None is listed twice. -/
  once : cycles.Nodup
  /-- No file is in two of them. -/
  apart : cycles.Pairwise fun a b => ∀ p ∈ a, ∀ q ∈ b, p.same q = false
  /-- Their files are dead. -/
  dead : ∀ cycle ∈ cycles, ∀ p ∈ cycle, p ∈ r.dead
  /-- Larger ones come first, and those of one size in the order of their lists of files. -/
  ordered : cycles.Pairwise fun a b => b.length < a.length ∨
    b.length = a.length ∧ List.compareLex Path.compare a b = .lt

/-- `IsDeadCycle` lists with a file in common are the same. -/
theorem IsDeadCycle.eq_of_same (hg : g.WellFormed) {r : Reach} {a b : List Path}
    (ha : g.IsDeadCycle r a) (hb : g.IsDeadCycle r b) {p q : Path} (hp : p ∈ a) (hq : q ∈ b)
    (hsame : p.same q = true) : a = b := by
  cases hg.eq_of_mem_files (ha.inFiles p hp) (hb.inFiles q hq) hsame
  refine Path.eq_of_pairwise_lt ha.sorted hb.sorted fun x => ?_
  rw [ha.connected p hp, hb.connected p hq]

/-- `compareCycles` puts larger cycles first, and those of one size in the order of their lists. -/
theorem compareCycles_eq_lt_iff {a b : List Path} :
    compareCycles a b = .lt ↔
      b.length < a.length ∨ b.length = a.length ∧ List.compareLex Path.compare a b = .lt := by
  rw [compareCycles, Ordering.then_eq_lt, Nat.compare_eq_lt, Nat.compare_eq_eq]

/-- Whatever a graph has been made of and whichever its entry points are, its dead cycles are listed
    once each and in their order, and they are those among its strongly connected components. -/
theorem deadCycles_listed (ops : List Operation) (entries : List Path) :
    (after ops).ListsDeadCycles ((after ops).reach entries)
        ((after ops).deadCycles ((after ops).reach entries)) ∧
      ∀ components, (after ops).AreComponents components →
        (after ops).deadCyclesAmong ((after ops).reach entries) components =
          (after ops).deadCycles ((after ops).reach entries) := by
  have hg := wellFormed_after ops
  generalize after ops = g at hg
  refine ⟨?_, fun components h => h.deadCyclesAmong_eq hg _⟩
  have hcycle : ∀ {c}, c ∈ g.deadCycles (g.reach entries) → g.IsDeadCycle (g.reach entries) c :=
    hg.mem_deadCycles_iff.1
  have honce := hg.nodup_deadCycles (g.reach entries)
  refine ⟨fun c => hg.mem_deadCycles_iff, honce, ?_, fun c hc p hp => ?_, ?_⟩
  · refine honce.imp_of_mem fun {a b} ha hb hne p hp q hq => ?_
    by_contra hsame
    exact hne ((hcycle ha).eq_of_same hg (hcycle hb) hp hq (Bool.not_eq_false _ ▸ hsame))
  · by_contra hnot
    have hreachable := (isReachable_iff ((hcycle hc).inFiles p hp)).2 hnot
    rw [(hcycle hc).dead p hp] at hreachable
    cases hreachable
  · -- of two cycles the first one comes before the second one, and they are not compared equal
    refine ((pairwise_deadCycles g _).and honce).imp_of_mem fun {a b} ha hb h => ?_
    rw [← compareCycles_eq_lt_iff]
    cases hcmp : compareCycles a b with
    | lt => rfl
    | eq => exact absurd (hg.eq_of_compareCycles (hcycle ha) (hcycle hb) hcmp) h.2
    | gt =>
      have hle := h.1
      rw [hcmp] at hle
      cases hle

/-- Three files of which two circles are made that share an import, and an entry point that imports
    itself. -/
def sampleOperations : List Operation :=
  [.addFile ⟨"/p/index.js"⟩, .addFile ⟨"/p/a.js"⟩, .addFile ⟨"/p/b.js"⟩, .addFile ⟨"/p/c.js"⟩,
    .addImport ⟨"/p/index.js"⟩ ⟨"/p/index.js"⟩, .addImport ⟨"/p/a.js"⟩ ⟨"/p/b.js"⟩,
    .addImport ⟨"/p//b.js"⟩ ⟨"/p/a.js"⟩, .addImport ⟨"/p/b.js"⟩ ⟨"/p/c.js"⟩,
    .addImport ⟨"/p/c.js"⟩ ⟨"/p/a.js/"⟩]

/-- The graph after `sampleOperations`. -/
theorem after_sampleOperations :
    after sampleOperations =
      ⟨[⟨"/p/index.js"⟩, ⟨"/p/a.js"⟩, ⟨"/p/b.js"⟩, ⟨"/p/c.js"⟩],
        [(⟨"/p/c.js"⟩, 3), (⟨"/p/b.js"⟩, 2), (⟨"/p/a.js"⟩, 1), (⟨"/p/index.js"⟩, 0)],
        [(0, 0), (1, 2), (2, 1), (2, 3), (3, 1)]⟩ := by
  rfl

/-- The components, in another order than they are computed in. -/
theorem areComponents_sampleOperations :
    (after sampleOperations).AreComponents [[3, 1, 2], [0]] := by
  have hg := wellFormed_after sampleOperations
  have hlength : (after sampleOperations).files.length = 4 := by rw [after_sampleOperations]; rfl
  -- the walks forward and backward are written out for one node of each component
  have hentry : (after sampleOperations).componentOf 0 = [0] := by
    have hforward : (after sampleOperations).reachedFrom [0] = [0] := by
      simp [after_sampleOperations, reachedFrom, walk, Walk.start, Walk.enqueueAll, Walk.enqueue,
        targets]
    have hbackward : (after sampleOperations).reaching [0] = [0] := by
      simp [after_sampleOperations, reaching, walk, Walk.start, Walk.enqueueAll, Walk.enqueue,
        sources]
    rw [componentOf, hforward, hbackward, hlength]
    rfl
  have hcircles : (after sampleOperations).componentOf 1 = [1, 2, 3] := by
    have hforward : (after sampleOperations).reachedFrom [1] = [3, 2, 1] := by
      simp [after_sampleOperations, reachedFrom, walk, Walk.start, Walk.enqueueAll, Walk.enqueue,
        targets]
    have hbackward : (after sampleOperations).reaching [1] = [3, 2, 1] := by
      simp [after_sampleOperations, reaching, walk, Walk.start, Walk.enqueueAll, Walk.enqueue,
        sources]
    rw [componentOf, hforward, hbackward, hlength]
    rfl
  refine ⟨by rw [hlength]; decide, fun c hc i hi j => ?_⟩
  rcases List.mem_cons.1 hc with rfl | hc
  · have hperm : [3, 1, 2].Perm ((after sampleOperations).componentOf 1) := by
      rw [hcircles]
      decide
    have hmem := hperm.mem_iff.1 hi
    rw [← hg.mem_componentOf_iff (lt_of_mem_componentOf hmem),
      hg.componentOf_eq (by rw [hlength]; decide) hmem]
    exact hperm.mem_iff
  · cases List.mem_singleton.1 hc
    cases List.mem_singleton.1 hi
    rw [← hg.mem_componentOf_iff (by rw [hlength]; decide), hentry]

/-- The two circles are one component, which is picked out of the components in another order. -/
theorem deadCycles_listed_sampleOperations :
    (after sampleOperations).AreComponents [[3, 1, 2], [0]] ∧
      (after sampleOperations).deadCyclesAmong
          ((after sampleOperations).reach [⟨"/p/index.js"⟩]) [[3, 1, 2], [0]] =
        (after sampleOperations).deadCycles ((after sampleOperations).reach [⟨"/p/index.js"⟩]) :=
  ⟨areComponents_sampleOperations,
    (deadCycles_listed sampleOperations [⟨"/p/index.js"⟩]).2 _ areComponents_sampleOperations⟩

end Deadwood.Graph
