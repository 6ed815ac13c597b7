import Mathlib.Data.List.Basic
import Deadwood.Report.Basic

/-!
# The orders of paths, issues and warnings

Paths, issues and warnings are put into order by comparators. Each of them is a chain of simpler
comparators, so that the laws of an order pass from the parts to the whole: `Path.compare` orders
places (paths that are compared equal name the same place), and `Issue.compare` orders issues up
to what it does not look at.

The last part is about merge sort: sorting keeps the order of what compares equal, so it commutes
with leaving members out (`List.filter_mergeSort`).
-/

namespace Deadwood

/-! ## Comparators -/

/-- A comparator of a part of a value keeps the laws of an order. -/
theorem transCmp_on {α β : Type} (cmp : β → β → Ordering) [Std.TransCmp cmp] (f : α → β) :
    Std.TransCmp fun a b => cmp (f a) (f b) where
  eq_swap {_ _} := Std.OrientedCmp.eq_swap
  isLE_trans {_ _ _} := Std.TransCmp.isLE_trans

/-- A comparator of values that may be left out, those left out first, keeps the laws of an
    order. -/
private theorem transCmp_of_option {α : Type} (cmp : α → α → Ordering) [Std.TransCmp cmp]
    {ocmp : Option α → Option α → Ordering} (hnone : ocmp none none = .eq)
    (hlt : ∀ b, ocmp none (some b) = .lt) (hgt : ∀ a, ocmp (some a) none = .gt)
    (hsome : ∀ a b, ocmp (some a) (some b) = cmp a b) : Std.TransCmp ocmp where
  eq_swap {a b} := by
    cases a <;> cases b <;> simp only [hnone, hlt, hgt, hsome, Ordering.swap]
    exact Std.OrientedCmp.eq_swap
  isLE_trans {a b c} hab hbc := by
    -- only where all three are there, the given comparator is asked
    cases a <;> cases b <;> cases c <;> simp_all only [] <;>
      first | rfl | contradiction | exact Std.TransCmp.isLE_trans hab hbc

/-- A comparator puts of two values one first. -/
theorem isLE_total {α : Type} (cmp : α → α → Ordering) [Std.OrientedCmp cmp] (a b : α) :
    ((cmp a b).isLE || (cmp b a).isLE) = true := by
  rw [@Std.OrientedCmp.eq_swap _ cmp _ b a]
  cases cmp a b <;> rfl

/-! ## Components and paths -/

namespace Component

/-- `Component.compare` compares by rank, and names by their texts. -/
theorem compare_eq_compareLex :
    Component.compare = compareLex (compareOn rank) (compareOn text) := by
  funext a b
  cases a <;> cases b <;> simp [Component.compare, compareLex, compareOn, rank, text] <;> rfl

instance : Std.TransCmp Component.compare := by
  rw [compare_eq_compareLex]
  infer_instance

/-- `rank` and `text` tell components apart. -/
private theorem eq_of_rank_text {a b : Component} (hr : a.rank = b.rank) (ht : a.text = b.text) :
    a = b := by
  cases a <;> cases b <;> simp_all [rank, text]

instance : Std.LawfulEqCmp Component.compare where
  eq_of_compare {a b} h := by
    rw [compare_eq_compareLex, compareLex_eq_eq] at h
    exact eq_of_rank_text (Std.LawfulEqOrd.eq_of_compare h.1) (Std.LawfulEqOrd.eq_of_compare h.2)

end Component

namespace Path

instance : Std.TransCmp Path.compare :=
  transCmp_on (List.compareLex Component.compare) components

/-- `Path.same` holds of paths with the same components. -/
theorem same_iff {p q : Path} : p.same q = true ↔ p.components = q.components := by
  simp [same]

/-- `Path.same` holds of a path and itself. -/
@[simp] theorem same_refl (p : Path) : p.same p = true := same_iff.2 rfl

/-- `Path.same` does not depend on the direction. -/
theorem same_comm (p q : Path) : p.same q = q.same p := by
  rw [Bool.eq_iff_iff, same_iff, same_iff, eq_comm]

/-- `Path.same` does not depend on how a place is spelled. -/
theorem same_congr {p q : Path} (h : p.same q = true) (r : Path) : p.same r = q.same r := by
  rw [Bool.eq_iff_iff, same_iff, same_iff, same_iff.1 h]

/-- `Path.same` holds of no two paths of a list, in whichever order they are. -/
theorem pairwise_not_same_perm {ps qs : List Path} (hperm : ps.Perm qs)
    (h : ps.Pairwise fun p q => p.same q = false) : qs.Pairwise fun p q => p.same q = false :=
  (hperm.pairwise_iff fun hpq => by rwa [same_comm]).1 h

/-- `Path.compare` finds paths equal where they name the same place. -/
theorem compare_eq_iff {p q : Path} : p.compare q = .eq ↔ p.same q = true := by
  rw [same_iff]
  exact @Std.LawfulEqCmp.compare_eq_iff_eq _ (List.compareLex Component.compare) _ _ _

/-- `Path.compare` does not depend on how places are spelled. -/
theorem compare_congr {p p' q q' : Path} (hp : p.same p' = true) (hq : q.same q' = true) :
    p.compare q = p'.compare q' := by
  rw [compare, compare, same_iff.1 hp, same_iff.1 hq]

/-- `Path.compare` puts the first of two paths in their order strictly first if they name different
    places. -/
theorem compare_eq_lt {p q : Path} (hle : p.le q = true) (hne : p.same q = false) :
    p.compare q = .lt := by
  have hneq : p.compare q ≠ .eq := fun h => by
    rw [compare_eq_iff, hne] at h
    cases h
  unfold le at hle
  cases hc : p.compare q <;> simp_all

/-- `Path.le` is transitive. -/
theorem le_trans {p q r : Path} (hpq : p.le q = true) (hqr : q.le r = true) : p.le r = true :=
  @Std.TransCmp.isLE_trans _ Path.compare _ _ _ _ hpq hqr

/-- `Path.le` is total. -/
theorem le_total (p q : Path) : (p.le q || q.le p) = true := isLE_total Path.compare p q

/-- `Path.le` orders a list by `List.mergeSort`. -/
theorem pairwise_mergeSort_le (paths : List Path) :
    (paths.mergeSort Path.le).Pairwise fun p q => p.le q = true :=
  @List.pairwise_mergeSort _ Path.le (fun _ _ _ => le_trans) le_total paths

/-- `List.mergeSort` keeps places distinct. -/
theorem distinct_mergeSort {paths : List Path} (h : paths.Pairwise fun p q => p.same q = false) :
    (paths.mergeSort Path.le).Pairwise fun p q => p.same q = false :=
  pairwise_not_same_perm (List.mergeSort_perm paths Path.le).symm h

/-- `List.mergeSort` puts paths for distinct places into strict order. -/
theorem pairwise_mergeSort_lt {paths : List Path}
    (h : paths.Pairwise fun p q => p.same q = false) :
    (paths.mergeSort Path.le).Pairwise fun p q => p.compare q = .lt :=
  (pairwise_mergeSort_le paths).imp₂ (fun _ _ => compare_eq_lt) (distinct_mergeSort h)

/-- Lists of paths in strict order are the same if they have the same members. -/
theorem eq_of_pairwise_lt {ps qs : List Path} (hps : ps.Pairwise fun p q => p.compare q = .lt)
    (hqs : qs.Pairwise fun p q => p.compare q = .lt) (hmem : ∀ p, p ∈ ps ↔ p ∈ qs) : ps = qs := by
  have hne : ∀ p q : Path, p.compare q = .lt → p ≠ q := fun p q h heq => by
    rw [heq, @Std.ReflCmp.compare_self _ Path.compare] at h
    cases h
  -- neither list repeats a path, so equal members make them permutations of each other
  refine List.Perm.eq_of_pairwise (fun p q _ _ hpq hqp => ?_) hps hqs
    ((List.perm_ext_iff_of_nodup (hps.imp (hne _ _)) (hqs.imp (hne _ _))).2 hmem)
  rw [@Std.OrientedCmp.gt_of_lt _ Path.compare _ _ _ hqp] at hpq
  cases hpq

/-- `List.compareLex` finds lists of paths equal that are the same, if in them the place tells the
    path. -/
theorem eq_of_compareLex {ps qs : List Path} (h : List.compareLex Path.compare ps qs = .eq)
    (hplace : ∀ p ∈ ps, ∀ q ∈ qs, p.same q = true → p = q) : ps = qs := by
  -- lists of different lengths do not compare equal
  induction ps generalizing qs with
  | nil =>
    cases qs with
    | nil => rfl
    | cons q qs => simp [List.compareLex] at h
  | cons p ps ih =>
    cases qs with
    | nil => simp [List.compareLex] at h
    | cons q qs =>
      rw [List.compareLex_cons_cons, Ordering.then_eq_eq, compare_eq_iff] at h
      have hrest := ih h.2 fun p' hp q' hq =>
        hplace p' (List.mem_cons_of_mem p hp) q' (List.mem_cons_of_mem q hq)
      rw [hplace p List.mem_cons_self q List.mem_cons_self h.1, hrest]

/-- `Path.same` holds of one at most of paths for distinct places. -/
theorem filter_same_eq {paths : List Path} (h : paths.Pairwise fun p q => p.same q = false)
    (p : Path) : paths.filter p.same = (paths.find? p.same).toList := by
  induction paths with
  | nil => rfl
  | cons q paths ih =>
    obtain ⟨hq, hrest⟩ := List.pairwise_cons.1 h
    by_cases hsame : p.same q = true
    · -- another one in the same place would be in the place of the first one
      have hnone : paths.filter p.same = [] := by
        rw [List.filter_eq_nil_iff]
        intro r hr
        rw [same_congr hsame, hq r hr]
        exact Bool.false_ne_true
      rw [List.filter_cons_of_pos hsame, List.find?_cons_of_pos hsame, hnone, Option.toList_some]
    · rw [List.filter_cons_of_neg hsame, List.find?_cons_of_neg hsame, ih hrest]

/-- `Path.isIn` holds if a path of the same place is listed. -/
theorem isIn_iff {p : Path} {paths : List Path} :
    p.isIn paths = true ↔ ∃ q ∈ paths, p.same q = true := by
  simp [isIn]

/-- `Path.isIn` holds of a longer list as well. -/
theorem isIn_of_subset {p : Path} {ps qs : List Path} (hsub : ps ⊆ qs) (h : p.isIn ps = true) :
    p.isIn qs = true := by
  obtain ⟨q, hq, hsame⟩ := isIn_iff.1 h
  exact isIn_iff.2 ⟨q, hsub hq, hsame⟩

/-- `Path.isIn` does not depend on how a place is spelled. -/
theorem isIn_congr {p q : Path} (h : p.same q = true) (paths : List Path) :
    p.isIn paths = q.isIn paths := by
  unfold isIn
  exact congrArg paths.any (funext fun r => same_congr h r)

end Path

/-! ## Issues -/

namespace IssueKind

/-- `IssueKind.compare` compares by rank, and other kinds by their names. -/
theorem compare_eq_compareLex :
    IssueKind.compare = compareLex (compareOn rank) (compareOn name) := by
  funext a b
  cases a <;> cases b <;> simp [IssueKind.compare, compareLex, compareOn, rank, name] <;> rfl

instance : Std.TransCmp IssueKind.compare := by
  rw [compare_eq_compareLex]
  infer_instance

instance : Std.LawfulEqCmp IssueKind.compare where
  eq_of_compare {a b} h := by
    rw [compare_eq_compareLex, compareLex_eq_eq] at h
    have hr : a.rank = b.rank := Std.LawfulEqOrd.eq_of_compare h.1
    have hn : a.name = b.name := Std.LawfulEqOrd.eq_of_compare h.2
    cases a <;> cases b <;> simp_all [rank, name]

end IssueKind

namespace Issue

instance : Std.TransCmp compareSymbol :=
  transCmp_of_option (@Ord.compare String _) rfl (fun _ => rfl) (fun _ => rfl) fun _ _ => rfl

/-- `Issue.compare` compares by file, kind, line, symbol and message. -/
theorem compare_eq_compareLex :
    Issue.compare =
      compareLex (fun a b => a.file.compare b.file)
        (compareLex (fun a b => a.kind.compare b.kind)
          (compareLex (compareOn fun i : Issue => i.line.getD 0)
            (compareLex (fun a b => compareSymbol a.symbol b.symbol) (compareOn Issue.message)))) :=
  rfl

instance : Std.TransCmp Issue.compare := by
  rw [compare_eq_compareLex]
  -- instances for the links of the chain that are not found by themselves
  have := transCmp_on Path.compare Issue.file
  have := transCmp_on IssueKind.compare Issue.kind
  have := transCmp_on compareSymbol Issue.symbol
  infer_instance

/-- `Issue.compare` finds issues equal that are about the same place. -/
theorem same_file_of_compare {a b : Issue} (h : a.compare b = .eq) : a.file.same b.file = true := by
  rw [compare_eq_compareLex, compareLex_eq_eq] at h
  exact Path.compare_eq_iff.1 h.1

/-- `Issue.compare` finds issues equal that are of the same kind. -/
theorem kind_eq_of_compare {a b : Issue} (h : a.compare b = .eq) : a.kind = b.kind := by
  rw [compare_eq_compareLex, compareLex_eq_eq, compareLex_eq_eq] at h
  exact Std.LawfulEqCmp.eq_of_compare h.2.1

/-- `Issue.compare` finds the same issues equal. -/
theorem compare_eq_of_same {a b : Issue} (h : a.same b = true) : a.compare b = .eq := by
  simp only [same, Bool.and_eq_true, beq_iff_eq] at h
  obtain ⟨⟨⟨⟨⟨⟨hfile, hkind⟩, hline⟩, hsymbol⟩, hmessage⟩, -⟩, -⟩ := h
  have hsym : compareSymbol a.symbol b.symbol = .eq := by
    rw [hsymbol]
    exact @Std.ReflCmp.compare_self _ compareSymbol _ _
  simp only [compare, Path.compare_eq_iff.2 hfile, hkind, hline, hmessage, hsym,
    @Std.ReflCmp.compare_self _ IssueKind.compare, Std.ReflOrd.compare_self, Ordering.then]

/-- `Issue.le` is an order of files first. -/
theorem file_le {a b : Issue} (h : a.le b = true) : a.file.le b.file = true := by
  rw [le, compare_eq_compareLex] at h
  exact Ordering.isLE_left_of_isLE_then h

/-- `Issue.le` is transitive. -/
theorem le_trans {a b c : Issue} (hab : a.le b = true) (hbc : b.le c = true) : a.le c = true :=
  @Std.TransCmp.isLE_trans _ Issue.compare _ _ _ _ hab hbc

/-- `Issue.le` is total. -/
theorem le_total (a b : Issue) : (a.le b || b.le a) = true := isLE_total Issue.compare a b

/-- `Issue.le` orders a list by `List.mergeSort`. -/
theorem pairwise_mergeSort_le (issues : List Issue) :
    (issues.mergeSort Issue.le).Pairwise fun a b => a.le b = true :=
  @List.pairwise_mergeSort _ Issue.le (fun _ _ _ => le_trans) le_total issues

end Issue

/-! ## Warnings -/

namespace Warning

instance : Std.TransCmp compareFile :=
  transCmp_of_option Path.compare rfl (fun _ => rfl) (fun _ => rfl) fun _ _ => rfl

/-- `Warning.compare` compares by file, kind and message. -/
theorem compare_eq_compareLex :
    Warning.compare =
      compareLex (fun a b => compareFile a.file b.file)
        (compareLex (compareOn fun w : Warning => w.kind.rank) (compareOn Warning.message)) :=
  rfl

instance : Std.TransCmp Warning.compare := by
  rw [compare_eq_compareLex]
  have := transCmp_on compareFile Warning.file
  infer_instance

/-- `Warning.le` is transitive. -/
theorem le_trans {a b c : Warning} (hab : a.le b = true) (hbc : b.le c = true) : a.le c = true :=
  @Std.TransCmp.isLE_trans _ Warning.compare _ _ _ _ hab hbc

/-- `Warning.le` is total. -/
theorem le_total (a b : Warning) : (a.le b || b.le a) = true := isLE_total Warning.compare a b

end Warning
end Deadwood

/-! ## Sorting and leaving out -/

namespace List

/-- The members up to the first one that fails a test, where a list is put together from two at
    that place. -/
private theorem takeWhile_append_of_all {α : Type} {test : α → Bool} {xs ys : List α}
    (hxs : ∀ x ∈ xs, test x = true) (hys : ∀ y ∈ ys, test y = false) :
    (xs ++ ys).takeWhile test = xs := by
  rw [takeWhile_append_of_pos hxs]
  cases ys with
  | nil => simp
  | cons y ys => simp [hys y mem_cons_self]

/-- `List.mergeSort` keeps the order of members that compare equal, so a list may be sorted before
    or after members are left out. -/
theorem filter_mergeSort {α : Type} {le : α → α → Bool}
    (trans : ∀ a b c, le a b = true → le b c = true → le a c = true)
    (total : ∀ a b, (le a b || le b a) = true) (keep : α → Bool) (l : List α) :
    (l.mergeSort le).filter keep = (l.filter keep).mergeSort le := by
  -- with one more member at the front, only its own place has to be found
  induction l with
  | nil => simp
  | cons a l ih =>
    obtain ⟨l₁, l₂, hal, hl, hl₁⟩ := mergeSort_cons trans total a l
    cases hk : keep a with
    | false =>
      -- without `a`, the two sorted lists are the same
      rw [filter_cons_of_neg (by simp [hk]), ← ih, hal, hl]
      simp [hk]
    | true =>
      obtain ⟨m₁, m₂, ham, hm, hm₁⟩ := mergeSort_cons trans total a (l.filter keep)
      -- both results are split where the members begin that `a` does not come behind
      have hsorted := pairwise_mergeSort trans total (a :: l)
      have hsorted' := pairwise_mergeSort trans total (a :: l.filter keep)
      rw [hal] at hsorted
      rw [ham] at hsorted'
      have hl₂ : ∀ b ∈ l₂, (!le a b) = false := by
        have := (pairwise_cons.1 (pairwise_append.1 hsorted).2.1).1
        simpa using this
      have hm₂ : ∀ b ∈ m₂, (!le a b) = false := by
        have := (pairwise_cons.1 (pairwise_append.1 hsorted').2.1).1
        simpa using this
      have heq : l₁.filter keep ++ l₂.filter keep = m₁ ++ m₂ := by
        rw [← filter_append, ← hl, ih, hm]
      have hfirst : l₁.filter keep = m₁ := by
        rw [← takeWhile_append_of_all hm₁ hm₂, ← heq]
        refine (takeWhile_append_of_all ?_ ?_).symm
        · exact fun b hb => hl₁ b (mem_filter.1 hb).1
        · exact fun b hb => hl₂ b (mem_filter.1 hb).1
      have hsecond : l₂.filter keep = m₂ := by
        rw [hfirst] at heq
        exact append_cancel_left heq
      rw [filter_cons_of_pos hk, hal, ham, filter_append, filter_cons_of_pos hk, hfirst, hsecond]

section

variable {α β : Type} {cmp : α → α → Ordering} [Std.TransCmp cmp]

/-- A member of a list is found in another one if the members that compare equal to any given one
    are the same in both. -/
private theorem mem_of_filter_eq {l m : List α}
    (h : ∀ a, l.filter (fun b => cmp a b == .eq) = m.filter fun b => cmp a b == .eq) {a : α}
    (ha : a ∈ l) : a ∈ m := by
  have hself : a ∈ l.filter fun b => cmp a b == .eq :=
    mem_filter.2 ⟨ha, beq_iff_eq.2 Std.ReflCmp.compare_self⟩
  rw [h a] at hself
  exact (mem_filter.1 hself).1

/-- Sorted lists are the same if the members that compare equal to any given one are the same in
    both, in their order. -/
theorem eq_of_filter_eq {l m : List α} (hl : l.Pairwise fun a b => (cmp a b).isLE = true)
    (hm : m.Pairwise fun a b => (cmp a b).isLE = true)
    (h : ∀ a, l.filter (fun b => cmp a b == .eq) = m.filter fun b => cmp a b == .eq) : l = m := by
  induction l generalizing m with
  | nil =>
    cases m with
    | nil => rfl
    | cons b m => cases mem_of_filter_eq (fun a => (h a).symm) mem_cons_self
  | cons a l ih =>
    cases m with
    | nil => cases mem_of_filter_eq h mem_cons_self
    | cons b m =>
      obtain ⟨hal, hl'⟩ := pairwise_cons.1 hl
      obtain ⟨hbm, hm'⟩ := pairwise_cons.1 hm
      -- each of the first members is found in the other list, and so comes behind its first one
      have hab : (cmp a b).isLE = true := by
        rcases mem_cons.1 (mem_of_filter_eq (fun a => (h a).symm) mem_cons_self) with rfl | hb
        · exact Std.ReflCmp.isLE_rfl
        · exact hal b hb
      have hba : (cmp b a).isLE = true := by
        rcases mem_cons.1 (mem_of_filter_eq h mem_cons_self) with rfl | ha
        · exact Std.ReflCmp.isLE_rfl
        · exact hbm a ha
      have hfirst := h a
      simp only [filter_cons, Std.ReflCmp.compare_self, Std.OrientedCmp.isLE_antisymm hab hba,
        beq_self_eq_true, if_true] at hfirst
      obtain ⟨rfl, -⟩ := cons.inj hfirst
      have hrest : l = m := ih hl' hm' fun c => by
        have hc := h c
        rw [filter_cons, filter_cons] at hc
        split at hc
        · exact (cons.inj hc).2
        · exact hc
      rw [hrest]

/-- `List.mergeSort` comes to the same for lists in which the members that compare equal to any
    given one stand in the same order. -/
theorem mergeSort_eq_of_filter_eq {l m : List α}
    (h : ∀ a, l.filter (fun b => cmp a b == .eq) = m.filter fun b => cmp a b == .eq) :
    l.mergeSort (fun a b => (cmp a b).isLE) = m.mergeSort fun a b => (cmp a b).isLE := by
  have htrans : ∀ a b c, (cmp a b).isLE = true → (cmp b c).isLE = true → (cmp a c).isLE = true :=
    fun _ _ _ => Std.TransCmp.isLE_trans
  have htotal := Deadwood.isLE_total cmp
  refine @eq_of_filter_eq _ cmp _ _ _ (pairwise_mergeSort htrans htotal l)
    (pairwise_mergeSort htrans htotal m) fun a => ?_
  rw [filter_mergeSort htrans htotal, filter_mergeSort htrans htotal, h a]

/-- `List.flatMap` does not depend on the order of the members if what is collected comes from one
    of them only. -/
theorem Perm.flatMap_eq {l m : List β} (hp : l.Perm m) (hnodup : l.Nodup) {f : β → List α}
    (hone : ∀ x ∈ l, ∀ y ∈ l, f x ≠ [] → f y ≠ [] → x = y) : l.flatMap f = m.flatMap f := by
  induction hp with
  | nil => rfl
  | cons x _ ih =>
    rw [flatMap_cons, flatMap_cons, ih (nodup_cons.1 hnodup).2 fun y hy z hz =>
      hone y (mem_cons_of_mem x hy) z (mem_cons_of_mem x hz)]
  | swap x y l =>
    have hne : y ≠ x := fun heq => (nodup_cons.1 hnodup).1 (heq ▸ mem_cons_self)
    rw [flatMap_cons, flatMap_cons, flatMap_cons, flatMap_cons]
    -- of two neighbours, one at most has something, so they may be swapped
    by_cases hx : f x = []
    · rw [hx, nil_append, nil_append]
    · have hy : f y = [] := by
        by_contra hy
        exact hne (hone y mem_cons_self x (mem_cons_of_mem y mem_cons_self) hy hx)
      rw [hy, nil_append, nil_append]
  | trans hp _ ih ih' =>
    rw [ih hnodup hone, ih' (hp.nodup_iff.1 hnodup) fun x hx y hy =>
      hone x (hp.mem_iff.2 hx) y (hp.mem_iff.2 hy)]

/-- `List.mergeSort` of what is collected from the members of a list, and more, does not depend on
    their order if nothing from one member compares equal to anything from another. -/
theorem Perm.mergeSort_flatMap_append_eq {l m : List β} (hp : l.Perm m) (hnodup : l.Nodup)
    {f : β → List α}
    (hown : ∀ x ∈ l, ∀ y ∈ l, ∀ a ∈ f x, ∀ b ∈ f y, cmp a b = .eq → x = y) (more : List α) :
    (l.flatMap f ++ more).mergeSort (fun a b => (cmp a b).isLE) =
      (m.flatMap f ++ more).mergeSort fun a b => (cmp a b).isLE := by
  -- a stable sort keeps members in order that compare equal, so these are compared
  refine mergeSort_eq_of_filter_eq fun c => ?_
  rw [filter_append, filter_append, filter_flatMap, filter_flatMap,
    hp.flatMap_eq hnodup fun x hx y hy hfx hfy => ?_]
  obtain ⟨a, ha⟩ := exists_mem_of_ne_nil _ hfx
  obtain ⟨b, hb⟩ := exists_mem_of_ne_nil _ hfy
  simp only [mem_filter, beq_iff_eq] at ha hb
  exact hown x hx y hy a ha.1 b hb.1
    (Std.TransCmp.eq_trans (Std.OrientedCmp.eq_symm ha.2) hb.2)

end

/-- `List.find?` finds related members in lists that agree place by place. -/
theorem Forall₂.rel_find? {α β : Type} {R : α → β → Prop} {p : α → Bool} {q : β → Bool}
    (hpq : ∀ a b, R a b → p a = q b) {l : List α} {l' : List β} (h : Forall₂ R l l') :
    Option.Rel R (l.find? p) (l'.find? q) := by
  induction h with
  | nil => exact .none
  | cons hab _ ih =>
    rw [find?_cons, find?_cons, hpq _ _ hab]
    split
    · exact .some hab
    · exact ih

end List
