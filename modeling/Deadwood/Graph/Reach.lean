import Deadwood.Graph.Basic
import Deadwood.Issue.Basic

/-!
# Reachability

What the entry points lead to, breadth first. `Graph.walk` takes the nodes off a queue in the order
in which they were put there. A node is marked as seen when it is put into the queue, so none is
put there twice and the walk ends on every graph, cyclic or not.
-/

namespace Deadwood.Graph

/-- The nodes below the bound that are not in the list. -/
def unseen (bound : Nat) (seen : List Nat) : List Nat :=
  (List.range bound).filter fun i => !seen.contains i

/-- A node that is seen now is unseen no more, so `Graph.unseen` has fewer members. -/
theorem length_unseen_cons_lt {bound i : Nat} {seen : List Nat} (hi : i < bound)
    (hs : seen.contains i = false) :
    (unseen bound (i :: seen)).length < (unseen bound seen).length := by
  have hsub : unseen bound (i :: seen) = (unseen bound seen).filter fun j => !(j == i) := by
    simp only [unseen, List.filter_filter]
    congr 1
    funext j
    simp only [List.contains_cons, Bool.not_or]
  rw [hsub]
  -- the number itself is left out then, and was not before
  have hmem : i ∈ unseen bound seen := by
    simp only [unseen, List.mem_filter, List.mem_range]
    exact ⟨hi, by simpa using hs⟩
  refine Nat.lt_of_le_of_ne (List.length_filter_le _ _) fun heq => ?_
  have := List.length_filter_eq_length_iff.1 heq i hmem
  simp at this

/-- A walk on its way: the nodes that were seen, and those of them that are still to be visited, in
    their order. -/
structure Walk where
  seen : List Nat
  queue : List Nat
  deriving Repr, DecidableEq

namespace Walk

/-- Marks a node as seen and puts it at the end of the queue, unless it was seen before. Numbers at
    or above the bound name no node. -/
def enqueue (bound : Nat) (w : Walk) (i : Nat) : Walk :=
  if i < bound ∧ w.seen.contains i = false then ⟨i :: w.seen, w.queue ++ [i]⟩ else w

/-- Puts one node after the other into the queue. -/
def enqueueAll (bound : Nat) (w : Walk) (nodes : List Nat) : Walk := nodes.foldl (enqueue bound) w

/-- How many nodes can still be visited: those in the queue and those that were not seen. -/
def left (bound : Nat) (w : Walk) : Nat := w.queue.length + (unseen bound w.seen).length

/-- `Walk.enqueue` moves a node from the unseen ones to the queue. -/
theorem left_enqueue_le (bound : Nat) (w : Walk) (i : Nat) :
    (w.enqueue bound i).left bound ≤ w.left bound := by
  unfold enqueue
  split
  · rename_i h
    have hlength := length_unseen_cons_lt h.1 h.2
    simp only [left, List.length_append, List.length_singleton]
    omega
  · exact Nat.le_refl _

/-- `Walk.enqueueAll` makes no more nodes that can still be visited. -/
theorem left_enqueueAll_le (bound : Nat) (w : Walk) (nodes : List Nat) :
    (w.enqueueAll bound nodes).left bound ≤ w.left bound := by
  induction nodes generalizing w with
  | nil => exact Nat.le_refl _
  | cons i nodes ih => exact Nat.le_trans (ih (w.enqueue bound i)) (left_enqueue_le bound w i)

/-- Taking the first node off the queue makes one node less that can still be visited. -/
theorem left_enqueueAll_lt {bound i : Nat} {w : Walk} {queue : List Nat} (h : w.queue = i :: queue)
    (nodes : List Nat) : (enqueueAll bound ⟨w.seen, queue⟩ nodes).left bound < w.left bound := by
  have hle := left_enqueueAll_le bound ⟨w.seen, queue⟩ nodes
  simp only [left] at hle
  simp only [left, h, List.length_cons]
  omega

end Walk

/-- All nodes that a walk comes to. It visits the first node of the queue and puts those that follow
    it behind the others, until the queue is empty. -/
def walk (next : Nat → List Nat) (bound : Nat) (w : Walk) : List Nat :=
  match _ : w.queue with
  | [] => w.seen
  | i :: queue => walk next bound (Walk.enqueueAll bound ⟨w.seen, queue⟩ (next i))
termination_by w.left bound
decreasing_by
  rename_i hqueue
  exact Walk.left_enqueueAll_lt hqueue _

/-- The walk that has the given nodes to visit and has seen nothing else. -/
def Walk.start (bound : Nat) (nodes : List Nat) : Walk := Walk.enqueueAll bound ⟨[], []⟩ nodes

/-- The nodes that can be reached from the given ones over imports. -/
def reachedFrom (g : Graph) (start : List Nat) : List Nat :=
  walk g.targets g.files.length (.start g.files.length start)

/-- What a set of entry points reaches. -/
structure Reach where
  /-- The files that are reached, in the order of paths. -/
  reachable : List Path
  /-- The other files, in the order of paths. -/
  dead : List Path
  deriving Repr, DecidableEq, Inhabited

/-- What the entry points reach. Those that are no files of the graph do not count. A file is dead
    if its path is not among the reachable ones. -/
def reach (g : Graph) (entries : List Path) : Reach :=
  let reachable := g.sortedPaths (g.reachedFrom (entries.filterMap g.nodeIndex?))
  { reachable, dead := (g.files.filter fun p => !p.isIn reachable).mergeSort Path.le }

namespace Reach

/-- What is said of a dead file. -/
def deadMessage : String := "file is never imported by any other file"

/-- Is the file reached? -/
def isReachable (r : Reach) (p : Path) : Bool := p.isIn r.reachable

/-- One issue per dead file. -/
def issues (r : Reach) : List Issue := r.dead.map fun p => Issue.ofKind .deadFile p deadMessage

end Reach
end Deadwood.Graph
