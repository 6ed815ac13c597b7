import Mathlib.Data.List.Nodup
import Deadwood.Graph.Cycle
import Deadwood.Proofs.Graph.Reach

/-!
# Dead cycles

What a dead cycle is can be said of paths alone (`IsDeadCycle`): two or more files that lead to each
other, none of which is reachable, and all whose importers are among them. `deadCycles` lists
exactly these (`mem_deadCycles_iff`), each once (`nodup_deadCycles`), and orders them. So the list
depends on the files and on the imports between them, but not on the numbers of nodes:
`deadCycles_congr`.
-/

namespace Deadwood.Graph

open Relation

/-! ## Chains between paths and between nodes -/

/-- One file imports the other. -/
def Edge (g : Graph) (p q : Path) : Prop :=
  ∃ i j, g.pathOf? i = some p ∧ g.pathOf? j = some q ∧ (i, j) ∈ g.imports

/-- Chains of imports lead from each of the files to the other. -/
def Connected (g : Graph) (p q : Path) : Prop :=
  ReflTransGen g.Edge p q ∧ ReflTransGen g.Edge q p

variable {g : Graph}

/-- `Graph.pathOf?` finds paths for both ends of an import. -/
theorem WellFormed.exists_pathOf? (hg : g.WellFormed) {i j : Nat} (h : (i, j) ∈ g.imports) :
    (∃ p, g.pathOf? i = some p) ∧ ∃ q, g.pathOf? j = some q :=
  ⟨⟨_, List.getElem?_eq_getElem (hg.inRange i j h).1⟩,
    ⟨_, List.getElem?_eq_getElem (hg.inRange i j h).2⟩⟩

/-- `Graph.Edge` chains of paths are chains of their nodes. -/
theorem WellFormed.chain_iff (hg : g.WellFormed) {i j : Nat} {p q : Path}
    (hi : g.pathOf? i = some p) (hj : g.pathOf? j = some q) :
    ReflTransGen g.Edge p q ↔ ReflTransGen (fun a b => (a, b) ∈ g.imports) i j := by
  constructor
  · intro hchain
    -- a chain grows at its end, whose path has one node only
    induction hchain generalizing j with
    | refl => rw [hg.eq_of_same hi hj (Path.same_refl p)]
    | tail _ hedge ih =>
      obtain ⟨k, l, hk, hl, himport⟩ := hedge
      rw [hg.eq_of_same hj hl (Path.same_refl _)]
      exact (ih hk).tail himport
  · intro hchain
    induction hchain generalizing q with
    | refl =>
      cases hi.symm.trans hj
      exact .refl
    | tail _ himport ih =>
      obtain ⟨r, hr⟩ := (hg.exists_pathOf? himport).1
      exact (ih hr).tail ⟨_, _, hr, hj, himport⟩

/-- `Connected` leads from files to files. -/
theorem Connected.mem_files {p q : Path} (h : g.Connected p q) (hp : p ∈ g.files) :
    q ∈ g.files := by
  rcases h.1.cases_tail with rfl | ⟨r, -, -, j, -, hj, -⟩
  · exact hp
  · exact List.mem_of_getElem? hj

/-! ## Components -/

/-- `Graph.sources` are the starts of the imports to a node. -/
theorem mem_sources_iff {i j : Nat} : i ∈ g.sources j ↔ (i, j) ∈ g.imports := by
  simp [sources]

/-- `Graph.reaching` comes, against the imports, to the nodes from which chains lead to its start.
    -/
theorem WellFormed.mem_reaching_iff (hg : g.WellFormed) {i j : Nat} (hi : i < g.files.length) :
    j ∈ g.reaching [i] ↔ ReflTransGen (fun a b => (a, b) ∈ g.imports) j i := by
  have hsources : Leads g.sources g.files.length =
      Function.swap fun a b => (a, b) ∈ g.imports := by
    funext a b
    simp only [Leads, mem_sources_iff, Function.swap, eq_iff_iff]
    exact ⟨And.left, fun h => ⟨h, (hg.inRange b a h).1⟩⟩
  rw [reaching, mem_walk_iff, hsources]
  simp only [List.mem_singleton, exists_eq_left, hi, true_and]
  exact reflTransGen_swap

/-- `Graph.componentOf` has the nodes that chains lead to and back from. -/
theorem WellFormed.mem_componentOf_iff (hg : g.WellFormed) {i j : Nat} (hi : i < g.files.length) :
    j ∈ g.componentOf i ↔
      ReflTransGen (fun a b => (a, b) ∈ g.imports) i j ∧
        ReflTransGen (fun a b => (a, b) ∈ g.imports) j i := by
  simp only [componentOf, List.mem_filter, List.mem_range, Bool.and_eq_true, List.contains_iff_mem,
    hg.mem_reaching_iff hi, reachedFrom, mem_walk_iff, hg.leads_targets, List.mem_singleton,
    exists_eq_left, hi, true_and]
  refine and_iff_right_of_imp fun h => ?_
  rcases h.1.cases_tail with rfl | ⟨k, -, himport⟩
  · exact hi
  · exact (hg.inRange k j himport).2

/-- `Graph.componentOf` has numbers of nodes. -/
theorem lt_of_mem_componentOf {i j : Nat} (hj : j ∈ g.componentOf i) : j < g.files.length :=
  List.mem_range.1 (List.mem_filter.1 hj).1

/-- `Graph.componentOf` is the same for all of its nodes. -/
theorem WellFormed.componentOf_eq (hg : g.WellFormed) {i j : Nat} (hi : i < g.files.length)
    (hj : j ∈ g.componentOf i) : g.componentOf j = g.componentOf i := by
  have hlt := lt_of_mem_componentOf hj
  obtain ⟨hij, hji⟩ := (hg.mem_componentOf_iff hi).1 hj
  have hmem : ∀ k, k ∈ g.componentOf j ↔ k ∈ g.componentOf i := fun k => by
    rw [hg.mem_componentOf_iff hlt, hg.mem_componentOf_iff hi]
    exact ⟨fun h => ⟨hij.trans h.1, h.2.trans hji⟩, fun h => ⟨hji.trans h.1, h.2.trans hij⟩⟩
  -- both are taken from the same list of numbers, so the same members make the same list
  refine List.filter_congr fun k hk => ?_
  have := hmem k
  simpa only [componentOf, List.mem_filter, hk, true_and, ← Bool.eq_iff_iff] using this

/-- `Graph.componentOf` has its paths in strict order. -/
theorem WellFormed.pairwise_component (hg : g.WellFormed) (i : Nat) :
    (g.sortedPaths (g.componentOf i)).Pairwise fun p q => p.compare q = .lt :=
  hg.pairwise_sortedPaths (List.nodup_range.filter _)

/-- `Graph.componentOf` has as many paths as nodes. -/
theorem length_component (i : Nat) :
    (g.sortedPaths (g.componentOf i)).length = (g.componentOf i).length := by
  rw [sortedPaths, List.length_mergeSort, List.filterMap_length_eq_length]
  intro j hj
  rw [pathOf?, List.getElem?_eq_getElem (lt_of_mem_componentOf hj)]
  rfl

/-- `Graph.componentOf` has the paths that are `Connected` with one of them. -/
theorem WellFormed.mem_component_iff (hg : g.WellFormed) {i : Nat} {p q : Path}
    (hi : g.pathOf? i = some p) : q ∈ g.sortedPaths (g.componentOf i) ↔ g.Connected p q := by
  have hlt : i < g.files.length := (List.getElem?_eq_some_iff.1 hi).1
  rw [mem_sortedPaths_iff]
  constructor
  · rintro ⟨j, hj, hq⟩
    -- numbers that lead to each other are paths that do
    rw [hg.mem_componentOf_iff hlt] at hj
    exact ⟨(hg.chain_iff hi hq).2 hj.1, (hg.chain_iff hq hi).2 hj.2⟩
  · intro h
    obtain ⟨j, hj⟩ := List.getElem?_of_mem (h.mem_files (List.mem_of_getElem? hi))
    refine ⟨j, ?_, hj⟩
    rw [hg.mem_componentOf_iff hlt]
    exact ⟨(hg.chain_iff hi hj).1 h.1, (hg.chain_iff hj hi).1 h.2⟩

/-! ## The cycles that are listed -/

/-- Two or more files in the order of paths that are connected with each other and with no others,
    none of them reachable or imported by another file. -/
structure IsDeadCycle (g : Graph) (r : Reach) (cycle : List Path) : Prop where
  sorted : cycle.Pairwise fun p q => p.compare q = .lt
  large : 2 ≤ cycle.length
  inFiles : ∀ p ∈ cycle, p ∈ g.files
  connected : ∀ p ∈ cycle, ∀ q, q ∈ cycle ↔ g.Connected p q
  dead : ∀ p ∈ cycle, r.isReachable p = false
  closed : ∀ p ∈ cycle, ∀ q, g.Edge q p → q ∈ cycle

/-- A component that is listed as a dead cycle, with its least node. -/
structure IsDeadComponent (g : Graph) (r : Reach) (i : Nat) : Prop where
  least : (g.componentOf i).head? = some i
  large : 2 ≤ (g.componentOf i).length
  dead : ∀ j ∈ g.componentOf i, ∀ p, g.pathOf? j = some p → r.isReachable p = false
  closed : ∀ j ∈ g.componentOf i, ∀ k, (k, j) ∈ g.imports → k ∈ g.componentOf i

/-- `IsDeadComponent` nodes are in their components. -/
theorem IsDeadComponent.self_mem {r : Reach} {i : Nat} (h : g.IsDeadComponent r i) :
    i ∈ g.componentOf i :=
  List.mem_of_mem_head? h.least

/-- `Graph.isClosed` says that all importers of members are members. -/
theorem isClosed_iff {members : List Nat} :
    g.isClosed members = true ↔ ∀ j ∈ members, ∀ k, (k, j) ∈ g.imports → k ∈ members := by
  simp only [isClosed, List.all_eq_true, mem_sources_iff, List.contains_iff_mem]

/-- `Reach.isReachable`, as it is asked of a node with a path. -/
private theorem any_not_isReachable_iff {r : Reach} {j : Nat} (hj : j < g.files.length) :
    ((g.pathOf? j).any fun p => !r.isReachable p) = true ↔
      ∀ p, g.pathOf? j = some p → r.isReachable p = false := by
  rw [pathOf?, List.getElem?_eq_getElem hj]
  simp

/-- `Graph.deadCycles` lists the paths of the dead components. -/
theorem mem_deadCycles_iff_component {r : Reach} {cycle : List Path} :
    cycle ∈ g.deadCycles r ↔
      ∃ i, g.IsDeadComponent r i ∧ g.sortedPaths (g.componentOf i) = cycle := by
  simp only [deadCycles, List.mem_mergeSort, List.mem_filterMap, List.mem_range,
    Option.ite_none_right_eq_some, Option.some.injEq, List.all_eq_true, isClosed_iff]
  constructor
  · rintro ⟨i, hi, -, ⟨hleast, hlarge, hdead, hclosed⟩, rfl⟩
    refine ⟨i, ⟨hleast, hlarge, fun j hj => ?_, hclosed⟩, rfl⟩
    exact (any_not_isReachable_iff (lt_of_mem_componentOf hj)).1 (hdead j hj)
  · rintro ⟨i, h, rfl⟩
    -- the node itself is one of its component, so it is dead as well
    have hdead : ∀ j ∈ g.componentOf i,
        ((g.pathOf? j).any fun p => !r.isReachable p) = true := fun j hj =>
      (any_not_isReachable_iff (lt_of_mem_componentOf hj)).2 (h.dead j hj)
    exact ⟨i, lt_of_mem_componentOf h.self_mem, hdead i h.self_mem,
      ⟨h.least, h.large, hdead, h.closed⟩, rfl⟩

/-- `IsDeadComponent` makes an `IsDeadCycle`. -/
theorem WellFormed.isDeadCycle_component (hg : g.WellFormed) {r : Reach} {i : Nat}
    (h : g.IsDeadComponent r i) : g.IsDeadCycle r (g.sortedPaths (g.componentOf i)) where
  sorted := hg.pairwise_component i
  large := by
    rw [length_component]
    exact h.large
  inFiles p hp := by
    obtain ⟨j, -, hj⟩ := mem_sortedPaths_iff.1 hp
    exact List.mem_of_getElem? hj
  connected p hp q := by
    obtain ⟨j, hmem, hj⟩ := mem_sortedPaths_iff.1 hp
    rw [← hg.componentOf_eq (lt_of_mem_componentOf h.self_mem) hmem]
    exact hg.mem_component_iff hj
  dead p hp := by
    obtain ⟨j, hmem, hj⟩ := mem_sortedPaths_iff.1 hp
    exact h.dead j hmem p hj
  -- a file that imports a member is one too, or the component would be reached from outside
  closed p hp q hedge := by
    obtain ⟨j, hmem, hj⟩ := mem_sortedPaths_iff.1 hp
    obtain ⟨k, l, hk, hl, himport⟩ := hedge
    rw [hg.eq_of_same hl hj (Path.same_refl p)] at himport
    exact mem_sortedPaths_iff.2 ⟨k, h.closed j hmem k himport, hk⟩

/-- `Graph.componentOf` of a path has a least node. -/
theorem WellFormed.exists_least (hg : g.WellFormed) {p : Path} (hp : p ∈ g.files) :
    ∃ i, (g.componentOf i).head? = some i ∧
      ∀ q, q ∈ g.sortedPaths (g.componentOf i) ↔ g.Connected p q := by
  obtain ⟨j, hj⟩ := List.getElem?_of_mem hp
  have hlt : j < g.files.length := (List.getElem?_eq_some_iff.1 hj).1
  have hmem : j ∈ g.componentOf j := (hg.mem_componentOf_iff hlt).2 ⟨.refl, .refl⟩
  obtain ⟨i, hi⟩ := Option.isSome_iff_exists.1 (List.isSome_head?.2 (List.ne_nil_of_mem hmem))
  have heq := hg.componentOf_eq hlt (List.mem_of_mem_head? hi)
  refine ⟨i, by rw [heq, hi], fun q => ?_⟩
  rw [heq]
  exact hg.mem_component_iff hj

/-- `Graph.deadCycles` lists exactly the dead cycles. -/
theorem WellFormed.mem_deadCycles_iff (hg : g.WellFormed) {r : Reach} {cycle : List Path} :
    cycle ∈ g.deadCycles r ↔ g.IsDeadCycle r cycle := by
  rw [mem_deadCycles_iff_component]
  constructor
  · rintro ⟨i, h, rfl⟩
    exact hg.isDeadCycle_component h
  · intro h
    -- the cycle is the component of any of its files
    obtain ⟨p, hp⟩ := List.exists_mem_of_length_pos (Nat.lt_of_lt_of_le Nat.two_pos h.large)
    obtain ⟨i, hleast, hmem⟩ := hg.exists_least (h.inFiles p hp)
    have heq : g.sortedPaths (g.componentOf i) = cycle :=
      Path.eq_of_pairwise_lt (hg.pairwise_component i) h.sorted fun q =>
        (hmem q).trans (h.connected p hp q).symm
    refine ⟨i, ⟨hleast, ?_, fun j hj q hq => ?_, fun j hj k himport => ?_⟩, heq⟩
    · rw [← length_component, heq]
      exact h.large
    · refine h.dead q ?_
      rw [← heq]
      exact mem_sortedPaths_iff.2 ⟨j, hj, hq⟩
    · obtain ⟨⟨q, hq⟩, ⟨q', hq'⟩⟩ := hg.exists_pathOf? himport
      have hin : q ∈ g.sortedPaths (g.componentOf i) := by
        rw [heq]
        refine h.closed q' ?_ q ⟨k, j, hq, hq', himport⟩
        rw [← heq]
        exact mem_sortedPaths_iff.2 ⟨j, hj, hq'⟩
      obtain ⟨l, hl, hlq⟩ := mem_sortedPaths_iff.1 hin
      rwa [hg.eq_of_same hq hlq (Path.same_refl q)]

/-- `Graph.componentOf` tells its least node. -/
theorem WellFormed.eq_of_least (hg : g.WellFormed) {i j : Nat}
    (hi : (g.componentOf i).head? = some i) (hj : (g.componentOf j).head? = some j)
    (heq : g.sortedPaths (g.componentOf i) = g.sortedPaths (g.componentOf j)) : i = j := by
  have hmemi := List.mem_of_mem_head? hi
  have hlt := lt_of_mem_componentOf (List.mem_of_mem_head? hj)
  have hp : g.pathOf? i = some _ := List.getElem?_eq_getElem (lt_of_mem_componentOf hmemi)
  -- the path of `i` is found in the other component, where only `i` itself can have it
  obtain ⟨k, hk, hkp⟩ := mem_sortedPaths_iff.1 (heq ▸ mem_sortedPaths_iff.2 ⟨i, hmemi, hp⟩)
  rw [← hg.eq_of_same hp hkp (Path.same_refl _)] at hk
  rw [hg.componentOf_eq hlt hk, hj] at hi
  exact (Option.some.inj hi).symm

/-- `Graph.deadCycles` lists no cycle twice. -/
theorem WellFormed.nodup_deadCycles (hg : g.WellFormed) (r : Reach) : (g.deadCycles r).Nodup := by
  rw [deadCycles, (List.mergeSort_perm _ _).nodup_iff]
  refine List.nodup_range.filterMap fun i j cycle hi hj => ?_
  simp only [Option.mem_def, Option.ite_none_right_eq_some, Option.some.injEq] at hi hj
  obtain ⟨-, ⟨hi, -⟩, heqi⟩ := hi
  obtain ⟨-, ⟨hj, -⟩, heqj⟩ := hj
  exact hg.eq_of_least hi hj (heqi.trans heqj.symm)

/-! ## The order of the list -/

/-- `compareCycles` as a comparison by lengths and then by paths. -/
theorem compareCycles_eq_compareLex :
    compareCycles =
      compareLex (fun a b => Ord.compare b.length a.length) (List.compareLex Path.compare) :=
  rfl

instance : Std.TransCmp compareCycles := by
  rw [compareCycles_eq_compareLex]
  have := @Std.TransCmp.opposite (List Path) (compareOn List.length) _
  exact inferInstanceAs (Std.TransCmp (compareLex (fun a b => compareOn List.length b a) _))

/-- `compareCycles` orders any list. -/
theorem pairwise_mergeSort_compareCycles (cycles : List (List Path)) :
    (cycles.mergeSort fun a b => (compareCycles a b).isLE).Pairwise fun a b =>
      (compareCycles a b).isLE = true :=
  List.pairwise_mergeSort (fun _ _ _ => Std.TransCmp.isLE_trans) (isLE_total compareCycles) _

/-- `Graph.deadCycles` is in the order of `compareCycles`. -/
theorem pairwise_deadCycles (g : Graph) (r : Reach) :
    (g.deadCycles r).Pairwise fun a b => (compareCycles a b).isLE = true :=
  pairwise_mergeSort_compareCycles _

/-- `compareCycles` tells dead cycles apart. -/
theorem WellFormed.eq_of_compareCycles (hg : g.WellFormed) {r : Reach} {a b : List Path}
    (ha : g.IsDeadCycle r a) (hb : g.IsDeadCycle r b) (h : compareCycles a b = .eq) : a = b := by
  exact Path.eq_of_compareLex (Ordering.then_eq_eq.1 h).2 fun p hp q hq =>
    hg.eq_of_mem_files (ha.inFiles p hp) (hb.inFiles q hq)

/-- Two lists of the same dead cycles, each once and in the order of `compareCycles`, are the same.
    -/
theorem WellFormed.eq_of_mem_iff (hg : g.WellFormed) {r : Reach} {cycles cycles' : List (List Path)}
    (hdead : ∀ c ∈ cycles, g.IsDeadCycle r c) (hmem : ∀ c, c ∈ cycles ↔ c ∈ cycles')
    (hnodup : cycles.Nodup) (hnodup' : cycles'.Nodup)
    (hsorted : cycles.Pairwise fun a b => (compareCycles a b).isLE = true)
    (hsorted' : cycles'.Pairwise fun a b => (compareCycles a b).isLE = true) : cycles = cycles' :=
  List.Perm.eq_of_pairwise
    (fun a b ha hb hab hba => hg.eq_of_compareCycles (hdead a ha) (hdead b ((hmem b).2 hb))
      (Std.OrientedCmp.isLE_antisymm hab hba))
    hsorted hsorted' ((List.perm_ext_iff_of_nodup hnodup hnodup').2 hmem)

/-- `IsDeadCycle` depends on the files, the imports between them and what is reachable. -/
theorem IsDeadCycle.congr {g' : Graph} {r r' : Reach} {cycle : List Path}
    (h : g.IsDeadCycle r cycle) (hfiles : ∀ p, p ∈ g.files ↔ p ∈ g'.files)
    (hedges : ∀ p q, g.Edge p q ↔ g'.Edge p q)
    (hreach : ∀ p ∈ g.files, r.isReachable p = r'.isReachable p) : g'.IsDeadCycle r' cycle := by
  have hedge : g.Edge = g'.Edge := funext fun p => funext fun q => propext (hedges p q)
  refine ⟨h.sorted, h.large, fun p hp => (hfiles p).1 (h.inFiles p hp), fun p hp q => ?_,
    fun p hp => ?_, fun p hp q hqp => h.closed p hp q ((hedges q p).2 hqp)⟩
  · rw [h.connected p hp q, Connected, Connected, hedge]
  · rw [← hreach p (h.inFiles p hp)]
    exact h.dead p hp

/-- `Graph.deadCycles` is the same for two graphs with the same files and the same imports between
    them, of which the same files are reachable. -/
theorem WellFormed.deadCycles_congr {g' : Graph} (hg : g.WellFormed) (hg' : g'.WellFormed)
    (hfiles : ∀ p, p ∈ g.files ↔ p ∈ g'.files) (hedges : ∀ p q, g.Edge p q ↔ g'.Edge p q)
    {r r' : Reach} (hreach : ∀ p ∈ g.files, r.isReachable p = r'.isReachable p) :
    g.deadCycles r = g'.deadCycles r' := by
  have hmem : ∀ cycle, cycle ∈ g.deadCycles r ↔ cycle ∈ g'.deadCycles r' := by
    intro cycle
    rw [hg.mem_deadCycles_iff, hg'.mem_deadCycles_iff]
    refine ⟨fun h => h.congr hfiles hedges hreach, fun h => ?_⟩
    refine h.congr (fun p => (hfiles p).symm) (fun p q => (hedges p q).symm) fun p hp => ?_
    exact (hreach p ((hfiles p).2 hp)).symm
  exact hg.eq_of_mem_iff (fun _ => hg.mem_deadCycles_iff.1) hmem (hg.nodup_deadCycles r)
    (hg'.nodup_deadCycles r') (pairwise_deadCycles g r) (pairwise_deadCycles g' r')

end Deadwood.Graph
