import Deadwood.Proofs.Order

/-!
# Finished reports

`Report.finish` sorts issues and drops those that repeat the one before them. Issues of one file
and one kind end up next to each other, so a choice that only looks at the file and the kind may
be made before or after (`filter_issues_finish`).
-/

namespace Deadwood.Report

/-! ## Dropping repeated issues -/

/-- `dropRepeats` drops nothing where no issue repeats an earlier one, and none the last one before
    them. -/
private theorem dropRepeats_eq_self_aux (last : Option Issue) (issues : List Issue)
    (hlast : ∀ a, last = some a → ∀ i ∈ issues, i.same a = false)
    (hd : issues.Pairwise fun a b => b.same a = false) : dropRepeats last issues = issues := by
  induction issues generalizing last with
  | nil => rfl
  | cons i rest ih =>
    -- the last issue is one from before, and no issue is the same as it
    have hany : last.any i.same = false := by
      cases last with
      | none => rfl
      | some a => exact hlast a rfl i List.mem_cons_self
    rw [dropRepeats, hany, if_neg (by simp), ih]
    · intro a ha j hj
      cases ha
      exact (List.pairwise_cons.1 hd).1 j hj
    · exact (List.pairwise_cons.1 hd).2

/-- `dropRepeats` drops nothing where no issue repeats an earlier one. -/
theorem dropRepeats_eq_self {issues : List Issue}
    (hd : issues.Pairwise fun a b => b.same a = false) : dropRepeats none issues = issues :=
  dropRepeats_eq_self_aux none issues (fun _ h => nomatch h) hd

/-- `dropRepeats` adds no issue. -/
theorem dropRepeats_sublist (last : Option Issue) (issues : List Issue) :
    (dropRepeats last issues).Sublist issues := by
  induction issues generalizing last with
  | nil => exact .slnil
  | cons i rest ih =>
    unfold dropRepeats
    split
    · exact (ih last).cons i
    · exact (ih (some i)).cons_cons i

/-- `Report.finish` adds no issue. -/
theorem mem_issues_of_mem_finish {r : Report} {i : Issue} (hi : i ∈ r.finish.issues) :
    i ∈ r.issues :=
  List.mem_mergeSort.1 ((dropRepeats_sublist none _).subset hi)

/-- `Report.finish` has its issues in order. -/
theorem pairwise_issues_finish (r : Report) :
    r.finish.issues.Pairwise fun a b => a.le b = true :=
  (Issue.pairwise_mergeSort_le r.issues).sublist (dropRepeats_sublist none _)

/-- `Report.finish` keeps all warnings. -/
theorem warnings_finish_perm (r : Report) : r.finish.warnings.Perm r.warnings :=
  List.mergeSort_perm r.warnings Warning.le

/-- `Report.finish` gives the same for reports that say the same up to the order of issues and
    warnings, if sorting brings these into the same order. -/
theorem finish_congr {r r' : Report} (hstats : r.stats = r'.stats)
    (hissues : r.issues.mergeSort Issue.le = r'.issues.mergeSort Issue.le)
    (hwarnings : r.warnings.mergeSort Warning.le = r'.warnings.mergeSort Warning.le)
    (hcycles : r.deadCycles = r'.deadCycles) (hincomplete : r.incomplete = r'.incomplete)
    (hfallback : r.entryPointFallback = r'.entryPointFallback) : r.finish = r'.finish := by
  simp only [finish, hstats, hissues, hwarnings, hcycles, hincomplete, hfallback]

/-- What sorted issues leave behind for those that come after them: the last of them that was kept,
    and the last kept one among those that are chosen. -/
private structure Trail (keep : Issue → Bool) (last chosen : Option Issue) (rest : List Issue) :
    Prop where
  before : ∀ a, last = some a → ∀ i ∈ rest, a.le i = true
  behind : ∀ b, chosen = some b → keep b = true ∧ ∃ a, last = some a ∧ b.le a = true
  agree : ∀ a, last = some a → keep a = true → chosen = some a

/-- `Trail` when an issue is dropped. -/
private theorem Trail.tail {keep : Issue → Bool} {last chosen : Option Issue} {i : Issue}
    {rest : List Issue} (ht : Trail keep last chosen (i :: rest)) : Trail keep last chosen rest :=
  ⟨fun a ha j hj => ht.before a ha j (List.mem_cons_of_mem i hj), ht.behind, ht.agree⟩

/-- `Trail`: chosen issues repeat the last one where they repeat the last chosen one. -/
private theorem Trail.any_same {keep : Issue → Bool} {last chosen : Option Issue}
    {i : Issue} {rest : List Issue} (ht : Trail keep last chosen (i :: rest))
    (hkeep : ∀ a b : Issue, a.compare b = .eq → keep a = keep b) (hi : keep i = true) :
    last.any i.same = chosen.any i.same := by
  cases last with
  | none =>
    cases chosen with
    | none => rfl
    | some b =>
      obtain ⟨-, a, ha, -⟩ := ht.behind b rfl
      cases ha
  | some a =>
    cases ha : keep a with
    | true => rw [ht.agree a rfl ha]
    | false =>
      have hnot : i.same a = false := by
        by_contra h
        rw [Bool.not_eq_false] at h
        rw [hkeep i a (Issue.compare_eq_of_same h), ha] at hi
        cases hi
      rw [Option.any_some, hnot]
      cases chosen with
      | none => rfl
      | some b =>
        obtain ⟨hb, a', ha', hba⟩ := ht.behind b rfl
        cases ha'
        by_contra h
        have hsame : i.same b = true := by simpa using h
        -- `a` stands between `b` and `i`, which are compared equal
        have hib : (i.compare b).isLE = true := by rw [Issue.compare_eq_of_same hsame]; rfl
        have hai : a.compare i = .eq :=
          @Std.OrientedCmp.isLE_antisymm _ Issue.compare _ _ _
            (ht.before a rfl i List.mem_cons_self) (Issue.le_trans hib hba)
        rw [hkeep a i hai, hi] at ha
        cases ha

/-- `Trail` when an issue is kept: it is the last one. If it is not chosen, the last chosen one
    stays. -/
private theorem Trail.step {keep : Issue → Bool} {last chosen : Option Issue} {i : Issue}
    {rest : List Issue} (ht : Trail keep last chosen (i :: rest))
    (hrest : ∀ j ∈ rest, i.le j = true) :
    Trail keep (some i) (if keep i then some i else chosen) rest := by
  refine ⟨fun a ha j hj => ?_, fun b hb => ?_, fun a ha hka => ?_⟩
  · cases ha
    exact hrest j hj
  · -- an issue that is kept becomes the chosen one
    cases hi : keep i with
    | true =>
      rw [if_pos hi] at hb
      cases hb
      exact ⟨hi, i, rfl, @Std.ReflCmp.isLE_rfl _ Issue.compare _ _⟩
    | false =>
      rw [if_neg (by simp [hi])] at hb
      obtain ⟨hkb, a, ha, hba⟩ := ht.behind b hb
      exact ⟨hkb, i, rfl, Issue.le_trans hba (ht.before a ha i List.mem_cons_self)⟩
  · cases ha
    rw [if_pos hka]

/-- `dropRepeats` before or after a choice, behind the issues of a `Trail`. -/
private theorem filter_dropRepeats_aux {keep : Issue → Bool}
    (hkeep : ∀ a b : Issue, a.compare b = .eq → keep a = keep b) (last chosen : Option Issue)
    (issues : List Issue) (hsorted : issues.Pairwise fun a b => a.le b = true)
    (ht : Trail keep last chosen issues) :
    (dropRepeats last issues).filter keep = dropRepeats chosen (issues.filter keep) := by
  -- an issue that is not chosen is no longer seen if the choice is made first
  induction issues generalizing last chosen with
  | nil => rfl
  | cons i rest ih =>
    obtain ⟨hrest, hsorted⟩ := List.pairwise_cons.1 hsorted
    have hstep := ht.step hrest
    cases hi : keep i with
    | true =>
      rw [if_pos hi] at hstep
      rw [List.filter_cons_of_pos hi, dropRepeats, dropRepeats, ht.any_same hkeep hi]
      split
      · exact ih last chosen hsorted ht.tail
      · rw [List.filter_cons_of_pos hi, ih (some i) (some i) hsorted hstep]
    | false =>
      rw [if_neg (by simp [hi])] at hstep
      rw [List.filter_cons_of_neg (by simp [hi]), dropRepeats]
      split
      · exact ih last chosen hsorted ht.tail
      · rw [List.filter_cons_of_neg (by simp [hi]), ih (some i) chosen hsorted hstep]

/-! ## Choosing issues of a finished report -/

/-- `Report.finish` before or after a choice of issues by file and kind. -/
theorem filter_issues_finish (r : Report) {keep : Issue → Bool}
    (hkeep : ∀ a b : Issue, a.file.same b.file = true → a.kind = b.kind → keep a = keep b) :
    r.finish.issues.filter keep =
      dropRepeats none ((r.issues.filter keep).mergeSort Issue.le) := by
  have hkeep' : ∀ a b : Issue, a.compare b = .eq → keep a = keep b := fun a b h =>
    hkeep a b (Issue.same_file_of_compare h) (Issue.kind_eq_of_compare h)
  have hsorted := Issue.pairwise_mergeSort_le r.issues
  show (dropRepeats none (r.issues.mergeSort Issue.le)).filter keep = _
  have hstart : Trail keep none none (r.issues.mergeSort Issue.le) :=
    ⟨fun _ h => (nomatch h), fun _ h => (nomatch h), fun _ h => (nomatch h)⟩
  rw [filter_dropRepeats_aux hkeep' none none _ hsorted hstart,
    @List.filter_mergeSort _ Issue.le (fun _ _ _ => Issue.le_trans) Issue.le_total]

end Deadwood.Report
