import Mathlib.Logic.Function.Iterate
import Deadwood.Proofs.Graph.History

/-!
# What the entry points lead to

A walk over a graph is a loop that takes one node after the other off its queue. Every visit makes
one node less that can still be visited, so the loop ends on every graph, after at most as many
visits as there are files (`exists_iterate_step_reached`). What it has seen by then splits the files
into those that chains of imports lead to from an entry point, and the dead ones
(`reach_splits_files`).
-/

namespace Deadwood.Graph

open Relation

/-! ## The visits of a walk -/

namespace Walk

variable {next : Nat → List Nat} {bound : Nat}

/-- `Walk.step` runs out of its queue within the visits that are left, and has then seen all that
    `Graph.walk` comes to. -/
theorem exists_iterate_step (w : Walk) :
    ∃ n ≤ w.left bound, (step next bound)^[n] w = ⟨walk next bound w, []⟩ := by
  fun_induction walk next bound w with
  | case1 w hqueue => exact ⟨0, Nat.zero_le _, by rw [← hqueue]; rfl⟩
  | case2 w i queue hqueue ih =>
    obtain ⟨n, hn, hend⟩ := ih
    have hstep : step next bound w = enqueueAll bound ⟨w.seen, queue⟩ (next i) := by
      rw [step, hqueue]
    refine ⟨n + 1, Nat.lt_of_le_of_lt hn (left_enqueueAll_lt hqueue _), ?_⟩
    rw [Function.iterate_succ_apply, hstep, hend]

/-- `Walk.left` at the start is at most the number of nodes. -/
theorem left_start_le (bound : Nat) (nodes : List Nat) :
    (Walk.start bound nodes).left bound ≤ bound := by
  refine (left_enqueueAll_le bound ⟨[], []⟩ nodes).trans ?_
  simp only [left, List.length_nil, Nat.zero_add]
  exact (List.length_filter_le _ _).trans (Nat.le_of_eq List.length_range)

end Walk

/-- `Walk.step` from the entry points runs out of its queue within as many visits as there are
    files. -/
theorem exists_iterate_step_reached (g : Graph) (entries : List Path) :
    ∃ n ≤ g.files.length,
      (Walk.step g.targets g.files.length)^[n]
          (.start g.files.length (entries.filterMap g.nodeIndex?)) =
        ⟨g.reachedFrom (entries.filterMap g.nodeIndex?), []⟩ := by
  obtain ⟨n, hn, hend⟩ := @Walk.exists_iterate_step g.targets g.files.length
    (.start g.files.length (entries.filterMap g.nodeIndex?))
  exact ⟨n, hn.trans (Walk.left_start_le _ _), hend⟩

/-! ## Files that are led to -/

/-- A chain of imports leads to the file from an entry point that is a file. -/
def IsLedTo (g : Graph) (entries : List Path) (p : Path) : Prop :=
  ∃ e ∈ entries, ∃ q ∈ g.files, e.same q = true ∧ ReflTransGen g.Edge q p

/-- The files are split into those that the entry points lead to and the dead ones. -/
structure Splits (g : Graph) (entries : List Path) (r : Reach) : Prop where
  /-- The reachable files are those that are led to. -/
  reachable : ∀ p, p ∈ r.reachable ↔ g.IsLedTo entries p
  /-- The dead files are the other ones. -/
  dead : ∀ p, p ∈ r.dead ↔ p ∈ g.files ∧ ¬ g.IsLedTo entries p
  /-- They stand in the strict order of paths. -/
  sorted : r.dead.Pairwise fun p q => p.compare q = .lt
  /-- Which files are reachable does not depend on how their paths are spelled. -/
  isReachable : ∀ p, r.isReachable p = true ↔ ∃ q, p.same q = true ∧ g.IsLedTo entries q
  /-- However it is spelled, a file is either reachable or dead. -/
  either : ∀ p, g.contains p = true → r.isReachable p = !p.isIn r.dead
  /-- No entry point is dead. -/
  entries : ∀ e ∈ entries, e.isIn r.dead = false

variable {g : Graph}

/-- `IsLedTo` holds of files only. -/
theorem IsLedTo.mem_files {entries : List Path} {p : Path} (h : g.IsLedTo entries p) :
    p ∈ g.files := by
  obtain ⟨e, -, q, hq, -, hchain⟩ := h
  -- the chain has no import, or its last one ends at the file
  rcases hchain.cases_tail with rfl | ⟨r, -, -, j, -, hj, -⟩
  · exact hq
  · exact List.mem_of_getElem? hj

/-- `IsLedTo` holds of the file of a node if the node is `Reached`. -/
theorem WellFormed.isLedTo_iff (hg : g.WellFormed) {entries : List Path} {i : Nat} {p : Path}
    (hi : g.pathOf? i = some p) : g.IsLedTo entries p ↔ g.Reached entries i := by
  constructor
  · rintro ⟨e, he, q, hq, hsame, hchain⟩
    obtain ⟨j, hj⟩ := List.getElem?_of_mem hq
    exact ⟨e, he, j, hg.nodeIndex?_eq_some_iff.2 ⟨q, hj, hsame⟩, (hg.chain_iff hj hi).1 hchain⟩
  · rintro ⟨e, he, j, hj, hchain⟩
    obtain ⟨q, hq, hsame⟩ := hg.nodeIndex?_eq_some_iff.1 hj
    exact ⟨e, he, q, List.mem_of_getElem? hq, hsame, (hg.chain_iff hq hi).2 hchain⟩

/-- `Reach.reachable` are the files for which `IsLedTo` holds. -/
theorem WellFormed.mem_reachable_iff_isLedTo (hg : g.WellFormed) {entries : List Path} {p : Path} :
    p ∈ (g.reach entries).reachable ↔ g.IsLedTo entries p := by
  rw [hg.mem_reachable_iff]
  constructor
  · rintro ⟨i, hi, h⟩
    exact (hg.isLedTo_iff hi).2 h
  · intro h
    obtain ⟨i, hi⟩ := List.getElem?_of_mem h.mem_files
    exact ⟨i, hi, (hg.isLedTo_iff hi).1 h⟩

/-- `Reach.dead` are the files for which `IsLedTo` does not hold. -/
theorem WellFormed.mem_dead_iff_not_isLedTo (hg : g.WellFormed) {entries : List Path} {p : Path} :
    p ∈ (g.reach entries).dead ↔ p ∈ g.files ∧ ¬ g.IsLedTo entries p := by
  rw [hg.mem_dead_iff]
  constructor
  · rintro ⟨i, hi, hnot⟩
    exact ⟨List.mem_of_getElem? hi, fun h => hnot ((hg.isLedTo_iff hi).1 h)⟩
  · rintro ⟨hp, hnot⟩
    obtain ⟨i, hi⟩ := List.getElem?_of_mem hp
    exact ⟨i, hi, fun h => hnot ((hg.isLedTo_iff hi).2 h)⟩

/-- `Path.isIn` holds of a path, however it is spelled, if the file that it names is one of them. -/
theorem WellFormed.isIn_iff_mem (hg : g.WellFormed) {files : List Path}
    (hfiles : ∀ q ∈ files, q ∈ g.files) {p q : Path} (hq : q ∈ g.files) (hsame : p.same q = true) :
    p.isIn files = true ↔ q ∈ files := by
  rw [Path.isIn_congr hsame, Path.isIn_iff]
  constructor
  · rintro ⟨r, hr, hqr⟩
    rwa [hg.eq_of_mem_files hq (hfiles r hr) hqr]
  · exact fun h => ⟨q, h, Path.same_refl q⟩

/-- Whatever a graph has been made of, the walk from any entry points ends within as many visits as
    there are files, it comes to no node twice, and what it has come to splits the files into those
    that chains of imports lead to and the dead ones. -/
theorem reach_splits_files (ops : List Operation) (entries : List Path) :
    (∃ n ≤ (after ops).files.length,
      (Walk.step (after ops).targets (after ops).files.length)^[n]
          (.start (after ops).files.length (entries.filterMap (after ops).nodeIndex?)) =
        ⟨(after ops).reachedFrom (entries.filterMap (after ops).nodeIndex?), []⟩) ∧
      ((after ops).reachedFrom (entries.filterMap (after ops).nodeIndex?)).Nodup ∧
      (after ops).Splits entries ((after ops).reach entries) := by
  have hg := wellFormed_after ops
  refine ⟨exists_iterate_step_reached _ entries, nodup_walk _, ?_⟩
  generalize after ops = g at hg
  have hreachable : ∀ q ∈ (g.reach entries).reachable, q ∈ g.files := fun q hq =>
    (hg.mem_reachable_iff_isLedTo.1 hq).mem_files
  have hdead : ∀ q ∈ (g.reach entries).dead, q ∈ g.files := fun q hq =>
    (hg.mem_dead_iff_not_isLedTo.1 hq).1
  refine ⟨fun p => hg.mem_reachable_iff_isLedTo, fun p => hg.mem_dead_iff_not_isLedTo,
    hg.pairwise_dead entries, fun p => ?_, fun p hp => ?_, fun e he => ?_⟩
  · simp only [Reach.isReachable, Path.isIn_iff, hg.mem_reachable_iff_isLedTo]
    exact exists_congr fun q => and_comm
  · rw [hg.contains_eq, Path.isIn_iff] at hp
    obtain ⟨q, hq, hsame⟩ := hp
    rw [Bool.eq_iff_iff, Bool.not_eq_true', ← Bool.not_eq_true, Reach.isReachable,
      hg.isIn_iff_mem hreachable hq hsame, hg.isIn_iff_mem hdead hq hsame,
      hg.mem_reachable_iff_isLedTo, hg.mem_dead_iff_not_isLedTo]
    simp [hq]
  · -- an entry point that is a file is led to by the chain without imports
    rw [← Bool.not_eq_true, Path.isIn_iff]
    rintro ⟨q, hq, hsame⟩
    obtain ⟨hfile, hnot⟩ := hg.mem_dead_iff_not_isLedTo.1 hq
    exact hnot ⟨e, he, q, hfile, hsame, .refl⟩

end Deadwood.Graph
