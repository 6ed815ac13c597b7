import Mathlib.Data.Fintype.Basic
import Deadwood.Proofs.Scan.Calls

/-!
# Accesses to the gate

The gate has two flags, and a caller accesses them one at a time. Asking to be let in is a `claim`
and, when that fails, a `note` later on; ending a scan is a `release` and then a look for a note,
`collect`. Between two accesses of one caller others may do any number of theirs.

Then a request can be missed: a caller whose claim has failed may note its request only after the
scan that was in its way has ended and looked for notes (`note_left_behind`). That is the only way
in which a note is left without a scan (`pending_eq_false_of_inTime`).
-/

namespace Deadwood.Scan

namespace Gate

/-- Sets the flag of a running scan, and says whether it was clear. -/
def claim (g : Gate) : Bool × Gate := (!g.scanning, { g with scanning := true })

/-- Notes that a scan is asked for. -/
def note (g : Gate) : Gate := { g with pending := true }

/-- Clears the flag of a running scan. -/
def release (g : Gate) : Gate := { g with scanning := false }

/-- Takes the note away, and says whether there was one. -/
def collect (g : Gate) : Bool × Gate := (g.pending, { g with pending := false })

/-- `Gate.tryBegin` is a `claim`, and a `note` if the claim fails. -/
theorem tryBegin_eq (g : Gate) :
    g.tryBegin = if g.claim.1 then (true, g.claim.2) else (false, g.claim.2.note) := by
  cases hscanning : g.scanning <;> simp [tryBegin, claim, note, hscanning]

/-- `Gate.finish` is a `release`, and then a look for a note by `collect`. -/
theorem finish_eq (g : Gate) : g.finish = g.release.collect := rfl

end Gate

namespace Accesses

/-- What a caller is doing. -/
inductive Stage where
  | away
  /-- It could not claim the gate, and is about to note its request. -/
  | noting
  | scanning
  /-- It has released the gate, and is about to look for a note. -/
  | collecting
  /-- It has found a note, and is to ask again. -/
  | owing
  deriving DecidableEq

/-- Does a scan run, or one come to its end, whose caller will still look for a note? -/
def Stage.holds : Stage → Bool
  | scanning | collecting => true
  | _ => false

/-- Is it in the middle of a call, or of a scan? -/
def Stage.isBusy : Stage → Bool
  | away | owing => false
  | _ => true

variable {ι : Type}

/-- A caller looks for a note while another one is about to leave one, and no other scan is there
    at whose end it would be found. -/
def Misses (c : Crowd Stage ι) (i : ι) : Prop :=
  c.stage i = .collecting ∧ (∃ j, c.stage j = .noting) ∧ ∀ k, k ≠ i → (c.stage k).holds = false

/-- Whatever is noted, or about to be, will be found at the end of a scan. -/
structure Heard (c : Crowd Stage ι) : Prop where
  claimed : c.gate.scanning = true → ∃ i, c.stage i = .scanning
  noted : (c.gate.pending = true ∨ ∃ i, c.stage i = .noting) → ∃ i, (c.stage i).holds = true

/-- `Heard` at the start, when nothing is noted. -/
theorem heard_start : Heard (.start .away : Crowd Stage ι) where
  claimed h := by simp [Crowd.start, Gate.idle] at h
  noted h := by simp [Crowd.start, Gate.idle] at h

/-- `Heard` while a scan runs, at whose end everything is found. -/
theorem Heard.of_scanning {c : Crowd Stage ι} {k : ι} (hk : c.stage k = .scanning) : Heard c :=
  ⟨fun _ => ⟨k, hk⟩, fun _ => ⟨k, by rw [hk]; rfl⟩⟩

variable [DecidableEq ι]

instance [Fintype ι] (c : Crowd Stage ι) (i : ι) : Decidable (Misses c i) :=
  inferInstanceAs (Decidable (_ ∧ _ ∧ _))

/-- A caller makes its next access. -/
def next (c : Crowd Stage ι) (i : ι) : Crowd Stage ι :=
  match c.stage i with
  | .away | .owing =>
    let (claimed, gate) := c.gate.claim
    c.goTo i (if claimed then .scanning else .noting) gate
  | .noting => c.goTo i .away c.gate.note
  | .scanning => c.goTo i .collecting c.gate.release
  | .collecting =>
    let (noted, gate) := c.gate.collect
    c.goTo i (if noted then .owing else .away) gate

/-- The callers make their accesses in this order. -/
def run (c : Crowd Stage ι) (schedule : List ι) : Crowd Stage ι := schedule.foldl next c

/-- No access in this order misses a note. -/
def InTime (c : Crowd Stage ι) : List ι → Prop
  | [] => True
  | i :: rest => ¬ Misses c i ∧ InTime (next c i) rest

instance decidableInTime [Fintype ι] (c : Crowd Stage ι) : (schedule : List ι) →
    Decidable (InTime c schedule)
  | [] => .isTrue trivial
  | i :: rest =>
    haveI := decidableInTime (next c i) rest
    inferInstanceAs (Decidable (¬ Misses c i ∧ InTime (next c i) rest))

/-! ## What every access keeps -/

namespace Heard

variable {c : Crowd Stage ι} {i : ι}

/-- `Heard.claimed` is kept by a caller that does not scan, which leaves a scan that runs alone. -/
theorem claimed_goTo (h : Heard c) (hi : c.stage i ≠ .scanning) {there : Stage} {gate : Gate}
    (hgate : gate.scanning = true → c.gate.scanning = true)
    (hset : (c.goTo i there gate).gate.scanning = true) :
    ∃ k, (c.goTo i there gate).stage k = .scanning := by
  obtain ⟨k, hk⟩ := h.claimed (hgate hset)
  have hne : k ≠ i := fun heq => hi (heq ▸ hk)
  exact ⟨k, (Crowd.stage_goTo_of_ne hne).trans hk⟩

/-- `Gate.claim` keeps everything heard, as it fails only while another caller scans. -/
theorem claim (h : Heard c) (hi : c.stage i ≠ .scanning) :
    Heard (c.goTo i (if c.gate.claim.1 then .scanning else .noting) c.gate.claim.2) := by
  -- the claim fails, or the caller is let in and scans itself
  by_cases hgate : c.gate.scanning = true
  · obtain ⟨k, hk⟩ := h.claimed hgate
    have hne : k ≠ i := fun heq => hi (heq ▸ hk)
    exact of_scanning ((Crowd.stage_goTo_of_ne hne).trans hk)
  · refine of_scanning (k := i) (Crowd.stage_goTo_self.trans ?_)
    simp [Gate.claim, hgate]

/-- `Gate.note` keeps everything heard, as the request was about to be noted before. -/
theorem note (h : Heard c) (hi : c.stage i = .noting) : Heard (c.goTo i .away c.gate.note) where
  claimed := h.claimed_goTo (by simp [hi]) id
  noted _ := by
    obtain ⟨k, hk⟩ := h.noted (.inr ⟨i, hi⟩)
    have hne : k ≠ i := by
      intro heq
      rw [heq, hi] at hk
      cases hk
    exact ⟨k, by rwa [Crowd.stage_goTo_of_ne hne]⟩

/-- `Gate.release` keeps everything heard, as the caller is about to look for a note. -/
theorem release (c : Crowd Stage ι) (i : ι) : Heard (c.goTo i .collecting c.gate.release) where
  claimed hgate := absurd hgate Bool.false_ne_true
  noted _ := ⟨i, by rw [Crowd.stage_goTo_self]; rfl⟩

/-- `Gate.collect` keeps everything heard if it does not come too early. -/
theorem collect (h : Heard c) (hi : c.stage i = .collecting) (hmiss : ¬ Misses c i) :
    Heard (c.goTo i (if c.gate.collect.1 then .owing else .away) c.gate.collect.2) where
  claimed := h.claimed_goTo (by simp [hi]) id
  noted hnoted := by
    rcases hnoted with hpending | ⟨j, hj⟩
    · exact absurd hpending Bool.false_ne_true
    · -- someone else is about to leave a note, so another scan has to be there
      have hnoting : c.stage j = .noting := by
        have hthere : (if c.gate.collect.1 then Stage.owing else .away) ≠ .noting := by
          split <;> decide
        exact ((Crowd.stage_goTo_eq_iff hthere).1 hj).2
      have hother : ∃ k, k ≠ i ∧ (c.stage k).holds = true := by
        by_contra hnone
        refine hmiss ⟨hi, ⟨j, hnoting⟩, fun k hne => ?_⟩
        rw [Bool.eq_false_iff]
        exact fun hk => hnone ⟨k, hne, hk⟩
      obtain ⟨k, hne, hk⟩ := hother
      exact ⟨k, by rwa [Crowd.stage_goTo_of_ne hne]⟩

/-- `Accesses.next` keeps everything heard, unless it misses a note. -/
theorem next (h : Heard c) (i : ι) (hmiss : ¬ Misses c i) : Heard (next c i) := by
  unfold Accesses.next
  cases hi : c.stage i with
  | away => exact h.claim (by simp [hi])
  | owing => exact h.claim (by simp [hi])
  | noting => exact h.note hi
  | scanning => exact release c i
  | collecting => exact h.collect hi hmiss

/-- `Accesses.run` keeps everything heard, unless one of its accesses misses a note. -/
theorem run (h : Heard c) {schedule : List ι} (htime : InTime c schedule) :
    Heard (run c schedule) := by
  induction schedule generalizing c with
  | nil => exact h
  | cons i rest ih => exact ih (h.next i htime.1) htime.2

end Heard

/-- As long as no look for a note comes too early, nothing is noted when nobody is in the middle of
    a call and no scan runs. -/
theorem pending_eq_false_of_inTime (schedule : List ι) (htime : InTime (.start .away) schedule)
    (hquiet : ∀ i, ((run (.start .away) schedule).stage i).isBusy = false) :
    (run (.start .away) schedule).gate.pending = false := by
  have h : Heard (run (.start .away) schedule) := heard_start.run htime
  rw [Bool.eq_false_iff]
  intro hpending
  -- a note stands for a caller that scans or looks for notes, so for one that is busy
  obtain ⟨i, hi⟩ := h.noted (.inl hpending)
  have hbusy := hquiet i
  cases hstage : (run (.start .away) schedule).stage i <;>
    simp [hstage, Stage.holds, Stage.isBusy] at hi hbusy

/-- One caller notes its request while the other one scans, which asks again then. -/
theorem pending_eq_false_noteTakenUp :
    InTime (.start .away : Crowd Stage (Fin 2)) [0, 1, 1, 0, 0, 0, 0, 0] ∧
      (run (.start .away : Crowd Stage (Fin 2)) [0, 1, 1, 0, 0, 0, 0, 0]).gate.pending = false :=
  ⟨by decide, pending_eq_false_of_inTime _ (by decide) (by decide)⟩

/-- A request is noted after the scan that was in its way has ended and looked for notes. Nobody
    scans, nobody is in the middle of a call or about to ask again, and the note stays. -/
theorem note_left_behind :
    let crowd := run (.start .away : Crowd Stage (Fin 2)) [0, 1, 0, 0, 1]
    (∀ i, crowd.stage i = .away) ∧ crowd.gate = { scanning := false, pending := true } := by
  decide

end Accesses
end Deadwood.Scan
