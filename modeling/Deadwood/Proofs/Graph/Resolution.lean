import Deadwood.Graph.Resolve
import Deadwood.Proofs.Order

/-!
# Resolution and the files that are known

What a specifier may stand for does not depend on the files that are known. These only decide which
of its candidates is taken, the first known one (`resolve?_eq_find?`). When files are taken away, a
specifier still stands for its file if that one is left, since the candidates before it were not
known in the first place. When files are added, only a new file can take the place of the old one
(`resolve?_stable`).
-/

namespace Deadwood.Resolution

/-- The files that a specifier may stand for in the importing file, best first. -/
def candidatesIn (importer : Path) (specifier : String) : List Path :=
  if Import.isLocal specifier then
    importer.parentComponents?.elim [] fun folder => candidates (target folder specifier)
  else []

section

variable {known : List Path} {importer : Path} {specifier : String} {t : Path}

/-- A specifier stands for the first of its candidates that is known. -/
theorem resolve?_eq_find? (known : List Path) (importer : Path) (specifier : String) :
    resolve? known importer specifier =
      (candidatesIn importer specifier).find? fun p => p.isIn known := by
  unfold resolve? candidatesIn
  split
  · cases importer.parentComponents? with
    | none => rfl
    | some folder => rw [Option.bind_some, Option.elim_some]
  · rfl

/-- What a specifier stands for is known. -/
theorem isIn_of_resolve? (h : resolve? known importer specifier = some t) :
    t.isIn known = true := by
  rw [resolve?_eq_find?] at h
  exact (List.find?_eq_some_iff_append.1 h).1

/-- Only a specifier that names a file stands for one. -/
theorem isLocal_of_resolve? (h : resolve? known importer specifier = some t) :
    Import.isLocal specifier = true := by
  unfold resolve? at h
  split at h
  · assumption
  · cases h

end

section

variable {known more : List Path} (hsub : ∀ p : Path, p.isIn known = true → p.isIn more = true)
  {importer : Path} {specifier : String} {t : Path}

include hsub

/-- With fewer files known, a specifier stands for its file if that one is left. -/
theorem resolve?_of_isIn (h : resolve? more importer specifier = some t)
    (hknown : t.isIn known = true) : resolve? known importer specifier = some t := by
  rw [resolve?_eq_find?] at h ⊢
  obtain ⟨-, earlier, later, hcandidates, hearlier⟩ := List.find?_eq_some_iff_append.1 h
  refine List.find?_eq_some_iff_append.2 ⟨hknown, earlier, later, hcandidates, fun p hp => ?_⟩
  -- a better candidate is not known now, as it was not known before
  have hmore : p.isIn more = false := by simpa using hearlier p hp
  cases hp : p.isIn known with
  | false => rfl
  | true =>
    rw [hsub p hp] at hmore
    cases hmore

/-- With more files known, a specifier that stood for a file still stands for one, and if that is
    another one, it was not known before. -/
theorem exists_resolve?_of_more (h : resolve? known importer specifier = some t) :
    ∃ t', resolve? more importer specifier = some t' ∧
      (t' = t ∨ t'.isIn more = true ∧ t'.isIn known = false) := by
  -- the candidate from before is still known, so one is found
  have hsome : (resolve? more importer specifier).isSome = true := by
    have hknown := isIn_of_resolve? h
    rw [resolve?_eq_find?] at h
    rw [resolve?_eq_find?, List.find?_isSome]
    exact ⟨t, List.mem_of_find?_eq_some h, hsub t hknown⟩
  obtain ⟨t', ht'⟩ := Option.isSome_iff_exists.1 hsome
  refine ⟨t', ht', ?_⟩
  -- if the first one was known before, it is the same
  cases hknown : t'.isIn known with
  | true =>
    rw [resolve?_of_isIn hsub ht' hknown] at h
    exact .inl (Option.some.inj h)
  | false => exact .inr ⟨isIn_of_resolve? ht', rfl⟩

/-- A specifier stands for the same file, or for none as before, if the file is one of those that
    are still known. -/
theorem resolve?_eq_of_subset
    (hkept : ∀ target, resolve? more importer specifier = some target →
      target.isIn known = true) :
    resolve? known importer specifier = resolve? more importer specifier := by
  cases hmore : resolve? more importer specifier with
  | some t => exact resolve?_of_isIn hsub hmore (hkept t hmore)
  | none =>
    rw [Option.eq_none_iff_forall_not_mem]
    intro t ht
    obtain ⟨t', ht', -⟩ := exists_resolve?_of_more hsub ht
    rw [hmore] at ht'
    cases ht'

end

/-- What a specifier stands for among some files and among these and others. It is known, and the
    specifier names a file. If it was there before the others came, it is what the specifier stood
    for then. And if there was one before, there is one now, the same or one of the others. -/
theorem resolve?_stable {known more : List Path}
    (hsub : ∀ p : Path, p.isIn known = true → p.isIn more = true) (importer : Path)
    (specifier : String) :
    (∀ t, resolve? known importer specifier = some t →
      t.isIn known = true ∧ Import.isLocal specifier = true) ∧
    (∀ t, resolve? more importer specifier = some t → t.isIn known = true →
      resolve? known importer specifier = some t) ∧
    ∀ t, resolve? known importer specifier = some t →
      ∃ t', resolve? more importer specifier = some t' ∧
        (t' = t ∨ t'.isIn more = true ∧ t'.isIn known = false) :=
  ⟨fun _ h => ⟨isIn_of_resolve? h, isLocal_of_resolve? h⟩, fun _ => resolve?_of_isIn hsub,
    fun _ => exists_resolve?_of_more hsub⟩

/-- A folder with an index file. -/
def sampleKnown : List Path := [⟨"/p//lib.d/index.ts"⟩]

/-- The same and a module that is named like the folder. -/
def sampleMore : List Path := ⟨"/p/lib.d.tsx"⟩ :: sampleKnown

/-- The module takes the place of the index file where the folder is named, and does not where the
    index file is named itself. -/
theorem resolve?_stable_sampleMore :
    (∀ p : Path, p.isIn sampleKnown = true → p.isIn sampleMore = true) ∧
    resolve? sampleKnown ⟨"/p/src/main.js"⟩ "../lib.d/index" = some ⟨"/p/lib.d/index.ts"⟩ ∧
    ∃ t', resolve? sampleMore ⟨"/p/src/main.js"⟩ "../lib.d/" = some t' ∧
      (t' = ⟨"/p/lib.d/index.ts"⟩ ∨ t'.isIn sampleMore = true ∧ t'.isIn sampleKnown = false) := by
  have hsub : ∀ p : Path, p.isIn sampleKnown = true → p.isIn sampleMore = true := fun p =>
    Path.isIn_of_subset (List.subset_cons_self _ _)
  have hindex : resolve? sampleMore ⟨"/p/src/main.js"⟩ "../lib.d/index" =
      some ⟨"/p/lib.d/index.ts"⟩ := by decide +kernel
  have hfolder : resolve? sampleKnown ⟨"/p/src/main.js"⟩ "../lib.d/" =
      some ⟨"/p/lib.d/index.ts"⟩ := by decide +kernel
  exact ⟨hsub, (resolve?_stable hsub _ _).2.1 _ hindex (by decide +kernel),
    (resolve?_stable hsub _ _).2.2 _ hfolder⟩

end Deadwood.Resolution
