import Deadwood.Proofs.Graph.Build
import Deadwood.Proofs.Graph.Resolution

/-!
# Taking files away

If fewer files are known, a specifier still stands for the same file as long as that one is known.
Live files import live files only, so all their imports stay as they are when others are taken
away, and with them what is live (`live_without_iff`).
-/

namespace Deadwood

/-- The files without those at the given paths. -/
def without (files : List SourceFile) (gone : List Path) : List SourceFile :=
  files.filter fun f => !f.path.isIn gone

/-- `without` leaves the files at other paths. -/
theorem mem_without_iff {files : List SourceFile} {gone : List Path} {f : SourceFile} :
    f ∈ without files gone ↔ f ∈ files ∧ f.path.isIn gone = false := by
  rw [without, List.mem_filter, Bool.not_eq_true']

/-- `without` repeats no place. -/
theorem DistinctPaths.without {files : List SourceFile} (hd : DistinctPaths files)
    (gone : List Path) : DistinctPaths (without files gone) :=
  hd.filter _

section

variable {rules : EntryRules} {files : List SourceFile} {gone : List Path}

/-- `Imports` of a live file stay the same when no live file is taken away. -/
theorem imports_without_iff (hgone : ∀ f ∈ files, f.path.isIn gone = true → ¬ Live rules files f)
    {f g : SourceFile} (hf : Live rules files f) :
    Imports (without files gone) f g ↔ Imports files f g := by
  unfold Imports
  refine exists_congr fun text => and_congr_right fun htext => exists_congr fun r =>
    and_congr_right fun hr => and_congr_right fun hlocal => ?_
  rw [Resolution.resolve?_eq_of_subset]
  · exact fun p => Path.isIn_of_subset (List.map_subset _ fun h hh => (mem_without_iff.1 hh).1)
  · -- what the reference stands for is live, so it is not taken away
    intro target htarget
    obtain ⟨q, hq, hsame⟩ := Path.isIn_iff.1 (Resolution.isIn_of_resolve? htarget)
    obtain ⟨h, hh, rfl⟩ := List.mem_map.1 hq
    have hlive : Live rules files h :=
      .imported hf hh ⟨text, htext, r, hr, hlocal, target, htarget, hsame⟩
    have hkept : h.path.isIn gone = false := by
      by_contra hin
      exact hgone h hh (Bool.not_eq_false _ ▸ hin) hlive
    exact Path.isIn_iff.2 ⟨h.path, List.mem_map_of_mem (mem_without_iff.2 ⟨hh, hkept⟩), hsame⟩

/-- `Live` stays the same when no live file is taken away. -/
theorem live_without_iff (hgone : ∀ f ∈ files, f.path.isIn gone = true → ¬ Live rules files f)
    {f : SourceFile} : Live rules (without files gone) f ↔ Live rules files f := by
  constructor
  · intro h
    induction h with
    | entry hf hentry => exact .entry (mem_without_iff.1 hf).1 hentry
    | imported _ hg himports ih =>
      exact .imported ih (mem_without_iff.1 hg).1 ((imports_without_iff hgone ih).1 himports)
  · intro h
    -- a live file is not among those taken away
    have hkept : ∀ {g}, Live rules files g → g ∈ without files gone := fun {g} hg => by
      refine mem_without_iff.2 ⟨hg.mem, ?_⟩
      by_contra hin
      exact hgone g hg.mem (Bool.not_eq_false _ ▸ hin) hg
    induction h with
    | entry hf hentry => exact .entry (hkept (.entry hf hentry)) hentry
    | imported hf hg himports ih =>
      exact .imported ih (hkept (.imported hf hg himports))
        ((imports_without_iff hgone hf).2 himports)

end
end Deadwood
