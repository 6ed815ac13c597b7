import Mathlib.Logic.Relation
import Deadwood.Graph.Reach
import Deadwood.Proofs.Order

/-!
# What a walk reaches

`Graph.walk` is compared with chains of imports. One visit keeps `Walk.Invariant`: what was seen is
led to by chains, and what follows a node that was visited has been seen. So a walk from a list of
nodes comes to exactly the nodes at the ends of chains that start in the list (`mem_walk_iff`), on
every graph. From this, what `Graph.reach` calls dead are the files of a graph that no chain from an
entry point leads to, in the strict order of paths (`mem_dead_iff`, `pairwise_dead`).
-/

namespace Deadwood

namespace Graph

open Relation

/-! ## Walks -/

/-- One step of a walk: the nodes that follow a node, as far as they are below the bound. -/
def Leads (next : Nat → List Nat) (bound : Nat) (i j : Nat) : Prop := j ∈ next i ∧ j < bound

namespace Walk

/-- Visits the first node of the queue: what follows it is put behind the others. Without a queue
    nothing is done. -/
def step (next : Nat → List Nat) (bound : Nat) (w : Walk) : Walk :=
  match w.queue with
  | [] => w
  | i :: queue => enqueueAll bound ⟨w.seen, queue⟩ (next i)

/-- What a walk from some nodes keeps on its way. -/
structure Invariant (next : Nat → List Nat) (bound : Nat) (start : List Nat) (w : Walk) :
    Prop where
  /-- No node is marked twice. -/
  nodup : w.seen.Nodup
  /-- What is in the queue is marked. -/
  queued : ∀ i ∈ w.queue, i ∈ w.seen
  /-- The nodes that the walk starts from are marked. -/
  started : ∀ i ∈ start, i < bound → i ∈ w.seen
  /-- Chains lead to what is marked. -/
  led : ∀ j ∈ w.seen, ∃ i ∈ start, i < bound ∧ ReflTransGen (Leads next bound) i j
  /-- What follows a node is marked once the node is visited. -/
  followed : ∀ i ∈ w.seen, i ∉ w.queue → ∀ j, Leads next bound i j → j ∈ w.seen

variable {next : Nat → List Nat} {bound : Nat} {start : List Nat}

/-- The nodes that are marked after `Walk.enqueue`. -/
theorem mem_seen_enqueue_iff {w : Walk} {i j : Nat} :
    j ∈ (w.enqueue bound i).seen ↔ j ∈ w.seen ∨ j = i ∧ i < bound := by
  unfold enqueue
  split
  · rename_i h
    simp [h.1, or_comm]
  · rename_i h
    -- the node was marked before, or it is none
    refine ⟨.inl, fun hj => hj.elim id fun ⟨heq, hi⟩ => ?_⟩
    have hseen : w.seen.contains i = true := by simpa [hi] using h
    exact heq ▸ List.contains_iff_mem.1 hseen

/-- What is in the queue after `Walk.enqueue`. -/
theorem mem_queue_enqueue_iff {w : Walk} {i j : Nat} :
    j ∈ (w.enqueue bound i).queue ↔ j ∈ w.queue ∨ j = i ∧ i < bound ∧ i ∉ w.seen := by
  unfold enqueue
  split
  · rename_i h
    have hnew : i ∉ w.seen := by simpa using h.2
    simp [h.1, hnew]
  · rename_i h
    refine ⟨.inl, fun hj => hj.elim id fun ⟨_, hi, hnew⟩ => ?_⟩
    exact absurd ⟨hi, by simpa using hnew⟩ h

/-- `Walk.enqueue` marks no node twice. -/
theorem nodup_enqueue {w : Walk} (h : w.seen.Nodup) (i : Nat) : (w.enqueue bound i).seen.Nodup := by
  unfold enqueue
  split
  · rename_i hnew
    exact List.nodup_cons.2 ⟨by simpa using hnew.2, h⟩
  · exact h

/-- The nodes that are marked after `Walk.enqueueAll`. -/
theorem mem_seen_enqueueAll_iff {w : Walk} {nodes : List Nat} {j : Nat} :
    j ∈ (w.enqueueAll bound nodes).seen ↔ j ∈ w.seen ∨ j ∈ nodes ∧ j < bound := by
  induction nodes generalizing w with
  | nil => simp [enqueueAll]
  | cons i nodes ih =>
    rw [enqueueAll, List.foldl_cons, ← enqueueAll, ih, mem_seen_enqueue_iff, List.mem_cons,
      or_assoc, or_and_right]
    refine or_congr_right (or_congr_left ?_)
    exact and_congr_right fun heq => by rw [heq]

/-- What is in the queue after `Walk.enqueueAll`. -/
theorem mem_queue_enqueueAll_iff {w : Walk} {nodes : List Nat} {j : Nat} :
    j ∈ (w.enqueueAll bound nodes).queue ↔
      j ∈ w.queue ∨ j ∈ nodes ∧ j < bound ∧ j ∉ w.seen := by
  induction nodes generalizing w with
  | nil => simp [enqueueAll]
  | cons i nodes ih =>
    rw [enqueueAll, List.foldl_cons, ← enqueueAll, ih, mem_queue_enqueue_iff, mem_seen_enqueue_iff,
      List.mem_cons]
    -- a repeated node is put into the queue once
    by_cases heq : j = i
    · subst heq
      tauto
    · tauto

/-- `Walk.enqueueAll` marks no node twice. -/
theorem nodup_enqueueAll (w : Walk) (h : w.seen.Nodup) (nodes : List Nat) :
    (w.enqueueAll bound nodes).seen.Nodup := by
  induction nodes generalizing w with
  | nil => exact h
  | cons i nodes ih => exact ih _ (nodup_enqueue h i)

/-- `Walk.start` has only its start to visit. -/
theorem invariant_start (start : List Nat) :
    (Walk.start bound start).Invariant next bound start := by
  have hseen : ∀ j, j ∈ (Walk.start bound start).seen ↔ j ∈ start ∧ j < bound := by
    simp [Walk.start, mem_seen_enqueueAll_iff]
  have hqueue : ∀ j, j ∈ (Walk.start bound start).queue ↔ j ∈ start ∧ j < bound := by
    simp [Walk.start, mem_queue_enqueueAll_iff]
  refine ⟨nodup_enqueueAll ⟨[], []⟩ .nil start, fun i hi => (hseen i).2 ((hqueue i).1 hi),
    fun i hi hbound => (hseen i).2 ⟨hi, hbound⟩, fun j hj => ?_, fun i hi hnot => ?_⟩
  · obtain ⟨hj, hbound⟩ := (hseen j).1 hj
    exact ⟨j, hj, hbound, .refl⟩
  · exact absurd ((hqueue i).2 ((hseen i).1 hi)) hnot

/-- `Walk.step` keeps the invariant. -/
theorem Invariant.step {w : Walk} (h : w.Invariant next bound start) :
    (w.step next bound).Invariant next bound start := by
  unfold Walk.step
  split
  · exact h
  · rename_i i queue hqueue
    have hi : i ∈ w.seen := h.queued i (hqueue ▸ List.mem_cons_self)
    refine ⟨nodup_enqueueAll ⟨w.seen, queue⟩ h.nodup _, fun j hj => ?_, fun j hj hbound => ?_,
      fun j hj => ?_, fun j hj hnot k hk => ?_⟩
    · rcases mem_queue_enqueueAll_iff.1 hj with hj | ⟨hj, hbound, -⟩
      · exact mem_seen_enqueueAll_iff.2
          (.inl (h.queued j (hqueue ▸ List.mem_cons_of_mem i hj)))
      · exact mem_seen_enqueueAll_iff.2 (.inr ⟨hj, hbound⟩)
    · exact mem_seen_enqueueAll_iff.2 (.inl (h.started j hj hbound))
    · rcases mem_seen_enqueueAll_iff.1 hj with hj | hstep
      · exact h.led j hj
      · -- a chain that leads to the visited node leads on to what follows it
        obtain ⟨k, hk, hbound, hchain⟩ := h.led i hi
        exact ⟨k, hk, hbound, hchain.tail hstep⟩
    · rw [mem_queue_enqueueAll_iff, not_or] at hnot
      -- a node that is marked by this visit would still be in the queue
      have hseen : j ∈ w.seen := by
        by_contra hfresh
        rcases mem_seen_enqueueAll_iff.1 hj with hseen | ⟨hnext, hbound⟩
        · exact hfresh hseen
        · exact hnot.2 ⟨hnext, hbound, hfresh⟩
      by_cases heq : j = i
      · exact mem_seen_enqueueAll_iff.2 (.inr (heq ▸ hk))
      · have hout : j ∉ w.queue := by
          rw [hqueue, List.mem_cons, not_or]
          exact ⟨heq, hnot.1⟩
        exact mem_seen_enqueueAll_iff.2 (.inl (h.followed j hseen hout k hk))

/-- `Graph.walk` keeps the invariant up to the end, when its queue is empty. -/
theorem Invariant.walk {w : Walk} (h : w.Invariant next bound start) :
    Invariant next bound start ⟨Graph.walk next bound w, []⟩ := by
  fun_induction Graph.walk next bound w with
  | case1 w hqueue =>
    have hend : (⟨w.seen, []⟩ : Walk) = w := by rw [← hqueue]
    rwa [hend]
  | case2 w i queue hqueue ih =>
    have hstep : w.step next bound = enqueueAll bound ⟨w.seen, queue⟩ (next i) := by
      rw [Walk.step, hqueue]
    exact ih (hstep ▸ h.step)

end Walk

section

variable {next : Nat → List Nat} {bound : Nat}

/-- `Graph.walk` comes to exactly the nodes at the ends of chains that start at one of its nodes. -/
theorem mem_walk_iff {start : List Nat} {j : Nat} :
    j ∈ walk next bound (.start bound start) ↔
      ∃ i ∈ start, i < bound ∧ ReflTransGen (Leads next bound) i j := by
  have hend : Walk.Invariant next bound start ⟨walk next bound (.start bound start), []⟩ :=
    (Walk.invariant_start start).walk
  refine ⟨hend.led j, ?_⟩
  rintro ⟨i, hi, hbound, hchain⟩
  induction hchain with
  | refl => exact hend.started i hi hbound
  | tail _ hstep ih => exact hend.followed _ ih List.not_mem_nil _ hstep

/-- `Graph.walk` comes to no node twice. -/
theorem nodup_walk (start : List Nat) : (walk next bound (.start bound start)).Nodup :=
  (Walk.invariant_start start).walk.nodup

end

end Graph

/-! ## The index of a graph -/

namespace PathIndex

/-- `PathIndex.get?` finds for paths of one place the same number. -/
theorem get?_congr (index : PathIndex) {p q : Path} (h : p.same q = true) :
    index.get? p = index.get? q := by
  have hsame : p.same = q.same := funext (Path.same_congr h)
  rw [get?, get?, hsame]

/-- What `PathIndex.get?` finds after `PathIndex.insert`. -/
theorem get?_insert (index : PathIndex) (p q : Path) (i : Nat) :
    (index.insert p i).get? q = if q.same p = true then some i else index.get? q := by
  rw [get?, insert, List.find?_cons]
  cases q.same p <;> rfl

end PathIndex

namespace Graph

open Relation

/-! ## Reachable and dead files of a graph -/

/-- What every graph of files keeps: the index is in step with the nodes, no place is two nodes, and
    imports are between nodes. -/
structure WellFormed (g : Graph) : Prop where
  /-- The index has for a path the number of the first node at its place, and for no other path a
      number. -/
  inStep : ∀ p, g.nodeIndex? p = g.files.findIdx? p.same
  distinct : g.files.Pairwise fun p q => p.same q = false
  inRange : ∀ i j, (i, j) ∈ g.imports → i < g.files.length ∧ j < g.files.length

/-- A chain of imports leads from an entry point to the node. -/
def Reached (g : Graph) (entries : List Path) (j : Nat) : Prop :=
  ∃ e ∈ entries, ∃ i, g.nodeIndex? e = some i ∧ ReflTransGen (fun a b => (a, b) ∈ g.imports) i j

/-- `Graph.targets` are the ends of the imports from a node. -/
theorem mem_targets_iff {g : Graph} {i j : Nat} : j ∈ g.targets i ↔ (i, j) ∈ g.imports := by
  simp [targets]

/-- `Graph.nodeIndex?` finds the number of the file for a place, in a graph without repeated places.
    -/
theorem WellFormed.nodeIndex?_eq_some_iff {g : Graph} (hg : g.WellFormed) {p : Path} {i : Nat} :
    g.nodeIndex? p = some i ↔ ∃ q, g.files[i]? = some q ∧ p.same q = true := by
  rw [hg.inStep, List.findIdx?_eq_some_iff_getElem]
  constructor
  · rintro ⟨hi, hsame, -⟩
    exact ⟨_, List.getElem?_eq_getElem hi, hsame⟩
  · rintro ⟨q, hq, hsame⟩
    obtain ⟨hi, rfl⟩ := List.getElem?_eq_some_iff.1 hq
    refine ⟨hi, hsame, fun j hj hsame' => ?_⟩
    -- two nodes for the place of `p` would be the same place
    have hdistinct := List.pairwise_iff_getElem.1 hg.distinct j i (by omega) hi hj
    rw [← Path.same_congr hsame', hsame] at hdistinct
    cases hdistinct

/-- `Graph.pathOf?` of two nodes is at different places. -/
theorem WellFormed.eq_of_same {g : Graph} (hg : g.WellFormed) {i j : Nat} {p q : Path}
    (hi : g.pathOf? i = some p) (hj : g.pathOf? j = some q) (hsame : p.same q = true) : i = j := by
  have hpi := hg.nodeIndex?_eq_some_iff.2 ⟨p, hi, Path.same_refl p⟩
  have hpj := hg.nodeIndex?_eq_some_iff.2 ⟨q, hj, hsame⟩
  exact Option.some.inj (hpi.symm.trans hpj)

/-- `Graph.files` has one path of each place. -/
theorem WellFormed.eq_of_mem_files {g : Graph} (hg : g.WellFormed) {p q : Path} (hp : p ∈ g.files)
    (hq : q ∈ g.files) (hsame : p.same q = true) : p = q := by
  obtain ⟨i, hi⟩ := List.getElem?_of_mem hp
  obtain ⟨j, hj⟩ := List.getElem?_of_mem hq
  cases hg.eq_of_same hi hj hsame
  exact Option.some.inj (hi.symm.trans hj)

/-- `Leads` by `Graph.targets` is an import. -/
theorem WellFormed.leads_targets {g : Graph} (hg : g.WellFormed) :
    Leads g.targets g.files.length = fun a b => (a, b) ∈ g.imports := by
  funext a b
  simp only [Leads, mem_targets_iff, eq_iff_iff]
  exact ⟨And.left, fun h => ⟨h, (hg.inRange a b h).2⟩⟩

/-- `Graph.reachedFrom` comes to exactly what is `Reached`. -/
theorem WellFormed.mem_reachedFrom_iff {g : Graph} (hg : g.WellFormed) {entries : List Path}
    {j : Nat} : j ∈ g.reachedFrom (entries.filterMap g.nodeIndex?) ↔ g.Reached entries j := by
  unfold reachedFrom Reached
  rw [mem_walk_iff, hg.leads_targets]
  constructor
  · rintro ⟨i, hi, -, hchain⟩
    obtain ⟨e, he, hei⟩ := List.mem_filterMap.1 hi
    exact ⟨e, he, i, hei, hchain⟩
  · rintro ⟨e, he, i, hei, hchain⟩
    obtain ⟨q, hq, -⟩ := hg.nodeIndex?_eq_some_iff.1 hei
    obtain ⟨hi, -⟩ := List.getElem?_eq_some_iff.1 hq
    exact ⟨i, List.mem_filterMap.2 ⟨e, he, hei⟩, hi, hchain⟩

/-- `Graph.sortedPaths` of distinct nodes stand in the strict order of paths. -/
theorem WellFormed.pairwise_sortedPaths {g : Graph} (hg : g.WellFormed) {nodes : List Nat}
    (hnodup : nodes.Nodup) : (g.sortedPaths nodes).Pairwise fun p q => p.compare q = .lt := by
  unfold sortedPaths
  have hdistinct : (nodes.filterMap g.pathOf?).Pairwise fun p q => p.same q = false := by
    refine List.pairwise_filterMap.2 (hnodup.imp fun {i j} hne p hp q hq => ?_)
    by_contra hsame
    rw [Bool.not_eq_false] at hsame
    exact hne (hg.eq_of_same hp hq hsame)
  exact Path.pairwise_mergeSort_lt hdistinct

/-- `Graph.sortedPaths` are the paths of the nodes. -/
theorem mem_sortedPaths_iff {g : Graph} {nodes : List Nat} {p : Path} :
    p ∈ g.sortedPaths nodes ↔ ∃ i ∈ nodes, g.pathOf? i = some p := by
  rw [sortedPaths, List.mem_mergeSort, List.mem_filterMap]

/-- `Reach.reachable` are the files that are `Reached`. -/
theorem WellFormed.mem_reachable_iff {g : Graph} (hg : g.WellFormed) {entries : List Path}
    {p : Path} :
    p ∈ (g.reach entries).reachable ↔ ∃ i, g.pathOf? i = some p ∧ g.Reached entries i := by
  simp only [reach, mem_sortedPaths_iff, hg.mem_reachedFrom_iff]
  exact exists_congr fun i => and_comm

/-- `Reach.isReachable` holds of the path of a node, however it is spelled, if the node is
    `Reached`. -/
theorem WellFormed.isReachable_iff_reached {g : Graph} (hg : g.WellFormed) {entries : List Path}
    {i : Nat} {p : Path} (hi : g.pathOf? i = some p) :
    (g.reach entries).isReachable p = true ↔ g.Reached entries i := by
  simp only [Reach.isReachable, Path.isIn_iff, hg.mem_reachable_iff]
  constructor
  · rintro ⟨q, ⟨j, hq, hj⟩, hsame⟩
    rwa [hg.eq_of_same hi hq hsame]
  · exact fun h => ⟨p, ⟨i, hi, h⟩, Path.same_refl p⟩

/-- `Reach.dead` are the files of the graph whose paths are not among the reachable ones. -/
theorem mem_dead_iff_isReachable {g : Graph} {entries : List Path} {p : Path} :
    p ∈ (g.reach entries).dead ↔ p ∈ g.files ∧ (g.reach entries).isReachable p = false := by
  simp only [reach, Reach.isReachable, List.mem_mergeSort, List.mem_filter, Bool.not_eq_true']

/-- `Reach.dead` are the files that are not `Reached`. -/
theorem WellFormed.mem_dead_iff {g : Graph} (hg : g.WellFormed) {entries : List Path} {p : Path} :
    p ∈ (g.reach entries).dead ↔ ∃ i, g.pathOf? i = some p ∧ ¬ g.Reached entries i := by
  rw [mem_dead_iff_isReachable, ← Bool.not_eq_true]
  constructor
  · rintro ⟨hp, hnot⟩
    obtain ⟨i, hi⟩ := List.getElem?_of_mem hp
    exact ⟨i, hi, fun h => hnot ((hg.isReachable_iff_reached hi).2 h)⟩
  · rintro ⟨i, hi, hnot⟩
    exact ⟨List.mem_of_getElem? hi, fun h => hnot ((hg.isReachable_iff_reached hi).1 h)⟩

/-- `Reach.isReachable` holds of the files that are not dead. -/
theorem isReachable_iff {g : Graph} {entries : List Path} {p : Path} (hp : p ∈ g.files) :
    (g.reach entries).isReachable p = true ↔ p ∉ (g.reach entries).dead := by
  rw [mem_dead_iff_isReachable]
  simp [hp]

/-- `Reach.dead` stands in the strict order of paths, so each file stands there once. -/
theorem WellFormed.pairwise_dead {g : Graph} (hg : g.WellFormed) (entries : List Path) :
    (g.reach entries).dead.Pairwise fun p q => p.compare q = .lt :=
  Path.pairwise_mergeSort_lt (hg.distinct.filter _)

end Graph
end Deadwood
