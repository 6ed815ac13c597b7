import Deadwood.Proofs.Report

/-!
# Merged issues

The order of issues looks at the file, the kind, the line, the symbol and the message, and not at
the severity and the flavor; a line 0 counts like no line. Issues that differ in nothing else stay
in the order in which they came, and repeated ones among them are not all next to each other.

So `Report.finish` brings issues into one list, whichever way they came, exactly where the order
tells all of them apart (`finish_order_independent_iff`), and then nothing is repeated in it.
-/

namespace Deadwood

namespace Issue

/-- `Issue.same` holds of an issue and itself. -/
theorem same_refl (a : Issue) : a.same a = true := by
  simp [same]

/-- `Issue.same` does not depend on how files are spelled. -/
theorem same_congr {a b : Issue} (h : a.same b = true) (c : Issue) : a.same c = b.same c := by
  simp only [same, Bool.and_eq_true, beq_iff_eq] at h
  obtain ⟨⟨⟨⟨⟨⟨hfile, hkind⟩, hline⟩, hsymbol⟩, hmessage⟩, hseverity⟩, hflavor⟩ := h
  simp only [same, Path.same_congr hfile, hkind, hline, hsymbol, hmessage, hseverity, hflavor]

/-- `Issue.same` holds in both directions. -/
theorem same_symm {a b : Issue} (h : a.same b = true) : b.same a = true := by
  rw [← same_congr h, same_refl]

/-- `Issue.same` is passed on. -/
theorem same_trans {a b c : Issue} (hab : a.same b = true) (hbc : b.same c = true) :
    a.same c = true := by
  rw [same_congr hab, hbc]

/-- `Issue.compare` does not tell the same issues apart. -/
theorem compare_congr_right {b c : Issue} (h : b.same c = true) (a : Issue) :
    a.compare b = a.compare c :=
  @Std.TransCmp.congr_right _ Issue.compare _ _ _ _ (compare_eq_of_same h)

/-- `Issue.same` does not hold of issues in strict order. -/
theorem same_eq_false_of_lt {a b : Issue} (h : a.compare b = .lt) : a.same b = false := by
  by_contra hsame
  rw [Bool.not_eq_false] at hsame
  rw [compare_eq_of_same hsame] at h
  cases h

end Issue

namespace Report

/-- Of the issues, those that come at the same place in the order are the same. -/
def ToldApart (issues : List Issue) : Prop :=
  ∀ a ∈ issues, ∀ b ∈ issues, a.compare b = .eq → a.same b = true

instance (issues : List Issue) : Decidable (ToldApart issues) :=
  inferInstanceAs (Decidable (∀ a ∈ issues, ∀ b ∈ issues, a.compare b = .eq → a.same b = true))

/-- The lists have the same issues at the same places, whichever way their files are spelled. -/
def SameList (l m : List Issue) : Prop := l.Forall₂ (fun a b => a.same b = true) m

/-! ## What is left of sorted issues -/

/-- `dropRepeats` keeps every issue, or it is the same as one that is kept or as the last one
    before. -/
theorem exists_same_of_mem {last : Option Issue} {issues : List Issue} {a : Issue}
    (ha : a ∈ issues) :
    (∃ b ∈ dropRepeats last issues, a.same b = true) ∨ ∃ c ∈ last, a.same c = true := by
  induction issues generalizing last with
  | nil => cases ha
  | cons i rest ih =>
    rw [dropRepeats]
    split
    · rename_i hlast
      rcases List.mem_cons.1 ha with rfl | ha
      · rw [Option.any_eq_true] at hlast
        exact .inr hlast
      · exact ih ha
    · rcases List.mem_cons.1 ha with rfl | ha
      · exact .inl ⟨a, List.mem_cons_self, a.same_refl⟩
      · -- what comes behind `i` is the same as `i` or as something behind it
        rcases @ih (some i) ha with ⟨b, hb, hsame⟩ | ⟨c, hc, hsame⟩
        · exact .inl ⟨b, List.mem_cons_of_mem i hb, hsame⟩
        · cases hc
          exact .inl ⟨i, List.mem_cons_self, hsame⟩

/-- `dropRepeats` leaves sorted issues that are told apart in strict order, behind the last issue
    before them. -/
theorem pairwise_dropRepeats {last : Option Issue} {issues : List Issue}
    (hsorted : (last.toList ++ issues).Pairwise fun a b => a.le b = true)
    (htold : ToldApart (last.toList ++ issues)) :
    (last.toList ++ dropRepeats last issues).Pairwise fun a b => a.compare b = .lt := by
  induction issues generalizing last with
  | nil =>
    cases last with
    | none => exact .nil
    | some c => exact List.pairwise_singleton _ _
  | cons i rest ih =>
    have hkept := @ih (some i) (hsorted.sublist (List.sublist_append_right _ _))
      fun a ha b hb => htold a (List.mem_append_right _ ha) b (List.mem_append_right _ hb)
    rw [dropRepeats]
    cases last with
    | none => exact hkept
    | some c =>
      have hdropped := @ih (some c) (hsorted.sublist (by simp))
        fun a ha b hb => htold a (by grind) b (by grind)
      split
      · exact hdropped
      · rename_i hnew
        -- `i` is told apart from the issue before it, so it comes strictly behind that one
        have hne : c.compare i ≠ .eq := fun heq =>
          hnew (Issue.same_symm (htold c (by simp) i (by simp) heq))
        have hle : (c.compare i).isLE = true := (List.pairwise_cons.1 hsorted).1 i (by simp)
        have hlt : c.compare i = .lt := by
          cases hc : c.compare i <;> simp_all
        refine List.pairwise_cons.2 ⟨fun j hj => ?_, hkept⟩
        rcases List.mem_cons.1 hj with rfl | hj
        · exact hlt
        · exact @Std.TransCmp.lt_trans _ Issue.compare _ _ _ _ hlt
            ((List.pairwise_cons.1 hkept).1 j hj)

/-- The first issues of lists in strict order are the same, where each is in the other list, too. -/
theorem same_of_first {a b : Issue} {l m : List Issue} (hal : ∀ x ∈ l, a.compare x = .lt)
    (hbm : ∀ y ∈ m, b.compare y = .lt) (ha : ∃ y ∈ b :: m, a.same y = true)
    (hb : ∃ x ∈ a :: l, b.same x = true) : a.same b = true := by
  obtain ⟨y, hy, hay⟩ := ha
  obtain ⟨x, hx, hbx⟩ := hb
  by_cases hyb : y = b
  · rw [← hyb]
    exact hay
  by_cases hxa : x = a
  · rw [← hxa]
    exact Issue.same_symm hbx
  · -- each of the two would come before the other one
    have hba : b.compare a = .lt := by
      rw [Issue.compare_congr_right hay]
      exact hbm y (List.mem_of_ne_of_mem hyb hy)
    have hab : a.compare b = .lt := by
      rw [Issue.compare_congr_right hbx]
      exact hal x (List.mem_of_ne_of_mem hxa hx)
    rw [@Std.OrientedCmp.gt_of_lt _ Issue.compare _ _ _ hab] at hba
    cases hba

/-- Behind first issues that are the same, the others have their partners. -/
theorem exists_same_behind {a b : Issue} {l m : List Issue} (hab : a.same b = true)
    (hal : ∀ x ∈ l, a.compare x = .lt) (hlm : ∀ x ∈ a :: l, ∃ y ∈ b :: m, x.same y = true)
    {x : Issue} (hx : x ∈ l) : ∃ y ∈ m, x.same y = true := by
  obtain ⟨y, hy, hxy⟩ := hlm x (List.mem_cons_of_mem a hx)
  by_cases hyb : y = b
  · have hax : a.same x = true := Issue.same_trans hab (Issue.same_symm (hyb ▸ hxy))
    rw [Issue.same_eq_false_of_lt (hal x hx)] at hax
    cases hax
  · exact ⟨y, List.mem_of_ne_of_mem hyb hy, hxy⟩

/-- `SameList` holds of lists in strict order that have the same issues. -/
theorem sameList_of_pairwise_lt {l m : List Issue} (hl : l.Pairwise fun a b => a.compare b = .lt)
    (hm : m.Pairwise fun a b => a.compare b = .lt)
    (hlm : ∀ a ∈ l, ∃ b ∈ m, a.same b = true) (hml : ∀ b ∈ m, ∃ a ∈ l, b.same a = true) :
    SameList l m := by
  -- the first issues are the same, so they can be taken off both lists
  induction l generalizing m with
  | nil =>
    cases m with
    | nil => exact .nil
    | cons b m =>
      obtain ⟨a, ha, -⟩ := hml b List.mem_cons_self
      cases ha
  | cons a l ih =>
    cases m with
    | nil =>
      obtain ⟨b, hb, -⟩ := hlm a List.mem_cons_self
      cases hb
    | cons b m =>
      obtain ⟨hal, hl⟩ := List.pairwise_cons.1 hl
      obtain ⟨hbm, hm⟩ := List.pairwise_cons.1 hm
      have hab := same_of_first hal hbm (hlm a List.mem_cons_self) (hml b List.mem_cons_self)
      exact .cons hab (ih hl hm (fun x hx => exists_same_behind hab hal hlm hx)
        fun y hy => exists_same_behind (Issue.same_symm hab) hbm hml hy)

/-! ## The first issue at a place of the order -/

/-- `dropRepeats` does not drop the first of the issues at one place of the order. -/
theorem find?_dropRepeats (a : Issue) {last : Option Issue} {issues : List Issue}
    (hlast : ∀ c ∈ last, a.compare c ≠ .eq) :
    (dropRepeats last issues).find? (fun i => a.compare i == .eq) =
      issues.find? fun i => a.compare i == .eq := by
  induction issues generalizing last with
  | nil => rfl
  | cons i rest ih =>
    by_cases hi : a.compare i = .eq
    · -- if `i` repeated the last issue, that one would come at the place of `a` as well
      have hnew : last.any i.same = false := by
        rw [Option.any_eq_false]
        intro c hc
        rw [← Bool.not_eq_true]
        intro hsame
        refine hlast c hc ?_
        rw [← Issue.compare_congr_right hsame, hi]
      rw [dropRepeats, hnew, if_neg (by simp), List.find?_cons_of_pos (by simp [hi]),
        List.find?_cons_of_pos (by simp [hi])]
    · rw [List.find?_cons_of_neg (by simp [hi]), dropRepeats]
      split
      · exact ih hlast
      · rw [List.find?_cons_of_neg (by simp [hi])]
        exact ih fun c hc => by
          cases hc
          exact hi

/-- `List.mergeSort` leaves the issues at one place of the order as they came. -/
theorem find?_mergeSort (a : Issue) (issues : List Issue) :
    (issues.mergeSort Issue.le).find? (fun i => a.compare i == .eq) =
      issues.find? fun i => a.compare i == .eq := by
  -- issues at one place are in order already, so sorting leaves them alone
  have hle : (issues.filter fun i => a.compare i == .eq).Pairwise fun x y => x.le y = true := by
    refine List.pairwise_iff_forall_sublist.2 fun {x y} hxy => ?_
    have hmem : ∀ z ∈ [x, y], a.compare z = .eq := fun z hz => by
      simpa using (List.mem_filter.1 (hxy.subset hz)).2
    have hx := hmem x (by simp)
    have hy := hmem y (by simp)
    rw [Issue.le, ← @Std.TransCmp.congr_left _ Issue.compare _ _ _ _ hx, hy]
    rfl
  rw [← List.head?_filter, ← List.head?_filter,
    @List.filter_mergeSort _ Issue.le (fun _ _ _ => Issue.le_trans) Issue.le_total,
    List.mergeSort_of_pairwise hle]

/-- `Report.finish` keeps the first of the issues at one place of the order. -/
theorem find?_issues_finish (a : Issue) (r : Report) :
    r.finish.issues.find? (fun i => a.compare i == .eq) =
      r.issues.find? fun i => a.compare i == .eq := by
  show (dropRepeats none (r.issues.mergeSort Issue.le)).find? _ = _
  rw [find?_dropRepeats a (by simp), find?_mergeSort]

/-! ## Finished reports -/

/-- `ToldApart` does not depend on the order. -/
theorem ToldApart.perm {l m : List Issue} (h : ToldApart l) (hperm : m.Perm l) : ToldApart m :=
  fun a ha b hb => h a (hperm.mem_iff.1 ha) b (hperm.mem_iff.1 hb)

/-- `Report.finish` puts issues that are told apart into strict order. -/
theorem ToldApart.pairwise_finish {r : Report} (h : ToldApart r.issues) :
    r.finish.issues.Pairwise fun a b => a.compare b = .lt :=
  @pairwise_dropRepeats none _ (Issue.pairwise_mergeSort_le r.issues)
    (h.perm (List.mergeSort_perm _ _))

/-- `Report.finish` has every issue, under one of its spellings. -/
theorem exists_same_finish {r : Report} {a : Issue} (ha : a ∈ r.issues) :
    ∃ b ∈ r.finish.issues, a.same b = true := by
  rcases @exists_same_of_mem none _ a (List.mem_mergeSort.2 ha) with h | ⟨c, hc, -⟩
  · exact h
  · cases hc

/-- `Report.finish` makes one list of issues that are told apart, whichever way they came. -/
theorem ToldApart.sameList_finish {r r' : Report} (h : ToldApart r.issues)
    (hperm : r'.issues.Perm r.issues) : SameList r'.finish.issues r.finish.issues := by
  refine sameList_of_pairwise_lt (h.perm hperm).pairwise_finish h.pairwise_finish
    (fun a ha => ?_) fun b hb => ?_
  · exact exists_same_finish (hperm.mem_iff.1 (mem_issues_of_mem_finish ha))
  · exact exists_same_finish (hperm.mem_iff.2 (mem_issues_of_mem_finish hb))

/-- `ToldApart` holds of issues of which `Report.finish` makes one list, whichever way they came. -/
theorem toldApart_of_sameList {r : Report}
    (h : ∀ r' : Report, r'.issues.Perm r.issues → SameList r'.finish.issues r.finish.issues) :
    ToldApart r.issues := by
  intro a ha b hb hab
  by_cases heq : a = b
  · rw [heq]
    exact b.same_refl
  · have hrest : (a :: b :: (r.issues.erase a).erase b).Perm r.issues := by
      have hb' : b ∈ r.issues.erase a := (List.mem_erase_of_ne (Ne.symm heq)).2 hb
      exact (((List.perm_cons_erase hb').cons a).symm).trans (List.perm_cons_erase ha).symm
    have hagree : ∀ x y : Issue, x.same y = true →
        (a.compare x == .eq) = (a.compare y == .eq) := fun x y hxy => by
      rw [Issue.compare_congr_right hxy]
    -- with `a` in front, it is the first issue at its place, and with `b` in front, that one is
    have hfirst := (h { r with issues := a :: b :: (r.issues.erase a).erase b } hrest).rel_find?
      hagree
    have hsecond := (h { r with issues := b :: a :: (r.issues.erase a).erase b }
      ((List.Perm.swap a b _).trans hrest)).rel_find? hagree
    rw [find?_issues_finish, List.find?_cons_of_pos
      (by simp [@Std.ReflCmp.compare_self _ Issue.compare])] at hfirst
    rw [find?_issues_finish, List.find?_cons_of_pos (by simp [hab])] at hsecond
    generalize r.finish.issues.find? _ = found at hfirst hsecond
    cases hfirst with
    | some hac =>
      cases hsecond with
      | some hbc => exact Issue.same_trans hac (Issue.same_symm hbc)

/-- The finished list of issues does not depend on the way they came exactly where the order tells
    all of them apart. Then the list is in strict order, and no two issues of it are the same. -/
theorem finish_order_independent_iff (r : Report) :
    ((∀ r' : Report, r'.issues.Perm r.issues → SameList r'.finish.issues r.finish.issues) ↔
      ToldApart r.issues) ∧
    (ToldApart r.issues →
      r.finish.issues.Pairwise fun a b => a.compare b = .lt ∧ a.same b = false) := by
  refine ⟨⟨toldApart_of_sameList, fun h r' hperm => h.sameList_finish hperm⟩, fun h => ?_⟩
  exact h.pairwise_finish.imp fun hlt => ⟨hlt, Issue.same_eq_false_of_lt hlt⟩

/-- An issue of another origin about the file, with the given severity. -/
def lintIssue (file : String) (severity : Severity) : Issue :=
  { Issue.ofKind (.external "lint") ⟨file⟩ "found" with severity }

/-- Issues of two files, one of them twice and under two spellings. -/
def respelledIssues : Report :=
  { issues := [lintIssue "/p/b.js" .error, lintIssue "/p/a.js" .warning,
      lintIssue "/p//a.js" .warning] }

/-- Two spellings of one issue are told apart from all others, so the finished list is in strict
    order. -/
theorem finish_order_independent_respelledIssues :
    ToldApart respelledIssues.issues ∧
      respelledIssues.finish.issues.Pairwise fun a b => a.compare b = .lt ∧ a.same b = false := by
  have htold : ToldApart respelledIssues.issues := by decide
  exact ⟨htold, (finish_order_independent_iff respelledIssues).2 htold⟩

/-- Issues that differ in their severity only stay as they came, and so does an issue that is
    repeated behind another one. In another order, the repeated issue is dropped. -/
theorem finish_severities :
    (Report.finish { issues := [lintIssue "/p/a.js" .warning, lintIssue "/p/a.js" .error,
        lintIssue "/p/a.js" .warning] }).issues =
      [lintIssue "/p/a.js" .warning, lintIssue "/p/a.js" .error, lintIssue "/p/a.js" .warning] ∧
    (Report.finish { issues := [lintIssue "/p/a.js" .warning, lintIssue "/p/a.js" .warning,
        lintIssue "/p/a.js" .error] }).issues =
      [lintIssue "/p/a.js" .warning, lintIssue "/p/a.js" .error] := by
  constructor
  · show dropRepeats none (List.mergeSort _ Issue.le) = _
    -- the issues are sorted already, as the severity is not compared
    rw [List.mergeSort_of_pairwise (by decide)]
    decide
  · show dropRepeats none (List.mergeSort _ Issue.le) = _
    rw [List.mergeSort_of_pairwise (by decide)]
    decide

end Report
end Deadwood
