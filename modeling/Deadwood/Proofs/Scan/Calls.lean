import Mathlib.Data.Finset.Card
import Mathlib.Logic.Function.Basic
import Deadwood.Scan.Gate

/-!
# Callers of the gate

Any number of callers ask for scans, each at any time. A caller that is let in runs a scan and ends
it; when it is told then that another scan was asked for, it asks again. In between other callers
may have been let in, so that it is turned away itself and leaves its request behind at the gate.

A run is the list of the callers in the order in which they take their steps, since what a caller
does next is told by the stage it is at. `Orderly` is what every step keeps: it tracks who owes the
scan for a request that no scan has followed yet. `requests_folded` says what follows for whole
runs: scans do not overlap, none is lost, and there are no more of them than requests.
-/

namespace Deadwood.Scan

/-! ## Crowds -/

/-- The gate and its callers, each at a stage of what it does. -/
structure Crowd (σ ι : Type) where
  gate : Gate
  stage : ι → σ

namespace Crowd

variable {σ ι : Type}

/-- Nobody has asked for anything yet. -/
def start (away : σ) : Crowd σ ι := { gate := .idle, stage := fun _ => away }

variable [DecidableEq ι]

/-- A caller goes on to a stage, and leaves the gate like this. -/
def goTo (c : Crowd σ ι) (i : ι) (there : σ) (gate : Gate) : Crowd σ ι :=
  { gate, stage := Function.update c.stage i there }

variable {c : Crowd σ ι} {i k : ι} {there s : σ} {gate : Gate}

/-- `Crowd.goTo` leaves the gate as given. -/
@[simp] theorem gate_goTo : (c.goTo i there gate).gate = gate := rfl

/-- `Crowd.goTo` brings the caller to the stage. -/
@[simp] theorem stage_goTo_self : (c.goTo i there gate).stage i = there := Function.update_self ..

/-- `Crowd.goTo` leaves the other callers where they are. -/
theorem stage_goTo_of_ne (hne : k ≠ i) : (c.goTo i there gate).stage k = c.stage k :=
  Function.update_of_ne hne ..

/-- `Crowd.goTo`: who is at another stage than the caller that went on is another one, and was there
    before. -/
theorem stage_goTo_eq_iff (hne : there ≠ s) :
    (c.goTo i there gate).stage k = s ↔ k ≠ i ∧ c.stage k = s := by
  by_cases hk : k = i
  · simp [hk, hne]
  · simp [hk, stage_goTo_of_ne]

end Crowd

namespace Calls

/-- What a caller is doing. -/
inductive Stage where
  /-- It has nothing to do with the gate, and may ask for a scan at any time. -/
  | away
  /-- It was let in, and runs a scan. -/
  | scanning
  /-- It has ended a scan and was told that another one was asked for meanwhile, and has not asked
      for it yet. -/
  | owing
  deriving DecidableEq

/-- What a caller does at the gate. -/
inductive Move where
  /-- Asks for a scan of its own accord. -/
  | request
  /-- Asks for the scan that it was told of when it ended the last one. -/
  | followUp
  | finish
  deriving DecidableEq

/-- A step of a caller, and what the gate answered. -/
structure Moment where
  move : Move
  answer : Bool
  deriving DecidableEq

namespace Moment

/-- Does the caller ask for a scan of its own accord? -/
def isRequest (m : Moment) : Bool := m.move == .request

/-- Does the caller ask to be let in? -/
def asks (m : Moment) : Bool := m.move != .finish

/-- Does a scan start? -/
def starts (m : Moment) : Bool := m.asks && m.answer

/-- `Moment.isRequest` does not hold of the end of a scan. -/
@[simp] theorem isRequest_finish (answer : Bool) : isRequest ⟨.finish, answer⟩ = false := rfl

/-- `Moment.starts` does not hold of the end of a scan. -/
@[simp] theorem starts_finish (answer : Bool) : starts ⟨.finish, answer⟩ = false := rfl

end Moment

/-- Every caller that asked was followed by a scan, which started then or later. -/
def Served (past : List Moment) : Prop :=
  ∀ m after, m :: after <:+ past → m.asks = true → ∃ m' ∈ m :: after, m'.starts = true

/-- `Served` by a scan that starts now, which follows all that was asked so far. -/
theorem Served.of_starts (past : List Moment) {m : Moment} (hm : m.starts = true) :
    Served (past ++ [m]) := by
  intro m' after hsuffix _
  rcases List.suffix_concat_iff.1 hsuffix with hnil | ⟨t, ht, -⟩
  · cases hnil
  · exact ⟨m, by simp [ht], hm⟩

/-- `Served` when a scan ends, which asks for nothing. -/
theorem Served.concat {past : List Moment} (h : Served past) {m : Moment}
    (hm : m.asks = false) : Served (past ++ [m]) := by
  intro m' after hsuffix hasks
  rcases List.suffix_concat_iff.1 hsuffix with hnil | ⟨t, ht, hpast⟩
  · cases hnil
  · cases t with
    | nil =>
      -- the moment that asks would be the one that does not
      cases ht
      rw [hm] at hasks
      cases hasks
    | cons m'' t =>
      cases ht
      obtain ⟨m', hmem, hstarts⟩ := h _ _ hpast hasks
      exact ⟨m', List.mem_append_left _ hmem, hstarts⟩

variable {ι : Type} [DecidableEq ι]

/-- A caller asks to be let in. -/
def ask (c : Crowd Stage ι) (i : ι) (move : Move) : Moment × Crowd Stage ι :=
  let (answer, gate) := c.gate.tryBegin
  ({ move, answer }, c.goTo i (if answer then .scanning else .away) gate)

/-- A caller takes its next step. -/
def next (c : Crowd Stage ι) (i : ι) : Moment × Crowd Stage ι :=
  match c.stage i with
  | .away => ask c i .request
  | .owing => ask c i .followUp
  | .scanning =>
    let (answer, gate) := c.gate.finish
    ({ move := .finish, answer }, c.goTo i (if answer then .owing else .away) gate)

/-- The callers take their steps in this order. -/
def run (c : Crowd Stage ι) : List ι → List Moment × Crowd Stage ι
  | [] => ([], c)
  | i :: rest =>
    let (moment, c) := next c i
    let (moments, c) := run c rest
    (moment :: moments, c)

/-! ## What a step does -/

/-- `Calls.next` is one of four steps: a caller is let in, it is turned away, or it ends its scan,
    and then either hears of a request that came meanwhile or does not. -/
theorem next_cases (c : Crowd Stage ι) (i : ι) :
    (∃ m, m.starts = true ∧ (m.isRequest = true ↔ c.stage i = .away) ∧
      c.stage i ≠ .scanning ∧ c.gate.scanning = false ∧
      next c i = (m, c.goTo i .scanning { c.gate with scanning := true })) ∨
    (∃ m, m.starts = false ∧ (m.isRequest = true ↔ c.stage i = .away) ∧
      c.stage i ≠ .scanning ∧ c.gate.scanning = true ∧
      next c i = (m, c.goTo i .away { c.gate with pending := true })) ∨
    (c.stage i = .scanning ∧ c.gate.pending = true ∧
      next c i = ({ move := .finish, answer := true }, c.goTo i .owing .idle)) ∨
    (c.stage i = .scanning ∧ c.gate.pending = false ∧
      next c i = ({ move := .finish, answer := false }, c.goTo i .away .idle)) := by
  -- what a caller does depends on its stage, and the answer on the gate
  unfold next ask Gate.tryBegin Gate.finish
  cases hstage : c.stage i with
  | away =>
    cases hscanning : c.gate.scanning with
    | false => exact .inl ⟨⟨.request, true⟩, rfl, by decide, by decide, rfl, by simp⟩
    | true =>
      exact .inr (.inl ⟨⟨.request, false⟩, rfl, by decide, by decide, rfl, by simp [hscanning]⟩)
  | owing =>
    cases hscanning : c.gate.scanning with
    | false => exact .inl ⟨⟨.followUp, true⟩, rfl, by decide, by decide, rfl, by simp⟩
    | true =>
      exact .inr (.inl ⟨⟨.followUp, false⟩, rfl, by decide, by decide, rfl, by simp [hscanning]⟩)
  | scanning =>
    cases hpending : c.gate.pending with
    | true => exact .inr (.inr (.inl ⟨rfl, rfl, rfl⟩))
    | false => exact .inr (.inr (.inr ⟨rfl, rfl, rfl⟩))

/-! ## What every step keeps -/

/-- How things stand after the moments of a run. -/
structure Orderly (past : List Moment) (c : Crowd Stage ι) : Prop where
  /-- The gate knows whether a scan runs. -/
  scanning_iff : c.gate.scanning = true ↔ ∃ i, c.stage i = .scanning
  single : ∀ i j, c.stage i = .scanning → c.stage j = .scanning → i = j
  /-- A request is noted only while a scan runs. -/
  noted : c.gate.pending = true → c.gate.scanning = true
  /-- While a request is not followed by a scan, it is noted at the gate or a caller owes it. -/
  served : Served past ∨ c.gate.pending = true ∨ ∃ i, c.stage i = .owing
  /-- Each scan that started, the note at the gate and each caller that owes a scan stand for
      requests of their own. -/
  counted : ∃ owing : Finset ι, (∀ i, c.stage i = .owing → i ∈ owing) ∧
    past.countP (·.starts) + (if c.gate.pending then 1 else 0) + owing.card ≤
      past.countP (·.isRequest)

omit [DecidableEq ι] in
/-- `Orderly` at the start, when nobody has asked. -/
theorem orderly_start : Orderly [] (.start .away : Crowd Stage ι) where
  scanning_iff := by simp [Crowd.start, Gate.idle]
  single i j hi := by simp [Crowd.start] at hi
  noted h := by simp [Crowd.start, Gate.idle] at h
  served := .inl fun m after hsuffix => by simp at hsuffix
  counted := ⟨∅, by simp [Crowd.start], by simp [Crowd.start, Gate.idle]⟩

namespace Orderly

variable {past : List Moment} {c : Crowd Stage ι} {i : ι}

/-- `Orderly.counted` for a caller that asks: it brings one request with it, a new one or the one
    that it owes. -/
theorem counted_ask (h : Orderly past c) (hi : c.stage i ≠ .scanning) {m : Moment}
    (hm : m.isRequest = true ↔ c.stage i = .away) :
    ∃ owing : Finset ι, (∀ j, j ≠ i → c.stage j = .owing → j ∈ owing) ∧
      past.countP (·.starts) + (if c.gate.pending then 1 else 0) + owing.card + 1 ≤
        (past ++ [m]).countP (·.isRequest) := by
  obtain ⟨owing, howing, hcount⟩ := h.counted
  cases hstage : c.stage i with
  | scanning => exact absurd hstage hi
  | away =>
    refine ⟨owing, fun j _ hj => howing j hj, ?_⟩
    simp only [List.countP_append, List.countP_singleton, hm.2 hstage, if_true]
    omega
  | owing =>
    -- the request is an old one, but the caller does not owe it any more
    refine ⟨owing.erase i, fun j hne hj => Finset.mem_erase.2 ⟨hne, howing j hj⟩, ?_⟩
    have hcard := Finset.card_erase_add_one (howing i hstage)
    rw [List.countP_append]
    omega

/-- `Orderly` is kept when a caller is let in. -/
theorem letIn (h : Orderly past c) (hi : c.stage i ≠ .scanning) (hfree : c.gate.scanning = false)
    {m : Moment} (hm : m.isRequest = true ↔ c.stage i = .away) (hstarts : m.starts = true) :
    Orderly (past ++ [m]) (c.goTo i .scanning { c.gate with scanning := true }) := by
  -- nobody scanned, so the one that was let in is the only one
  have honly : ∀ j, (c.goTo i .scanning { c.gate with scanning := true }).stage j = .scanning →
      j = i := by
    intro j hj
    by_contra hne
    rw [Crowd.stage_goTo_of_ne hne] at hj
    rw [h.scanning_iff.2 ⟨j, hj⟩] at hfree
    cases hfree
  refine ⟨⟨fun _ => ⟨i, Crowd.stage_goTo_self⟩, fun _ => rfl⟩, fun j k hj hk => ?_, fun _ => rfl,
    .inl (Served.of_starts past hstarts), ?_⟩
  · rw [honly j hj, honly k hk]
  · obtain ⟨owing, howing, hcount⟩ := h.counted_ask hi hm
    refine ⟨owing, fun j hj => ?_, ?_⟩
    · obtain ⟨hne, hj⟩ := (Crowd.stage_goTo_eq_iff (by decide)).1 hj
      exact howing j hne hj
    · rw [Crowd.gate_goTo, List.countP_append, List.countP_singleton, if_pos hstarts]
      dsimp only
      omega

/-- `Orderly` is kept when a caller is turned away, and its request noted. -/
theorem turnedAway (h : Orderly past c) (hi : c.stage i ≠ .scanning)
    (htaken : c.gate.scanning = true) {m : Moment} (hm : m.isRequest = true ↔ c.stage i = .away)
    (hstarts : m.starts = false) :
    Orderly (past ++ [m]) (c.goTo i .away { c.gate with pending := true }) := by
  -- the caller did not scan and does not, so who scans is not changed
  have hstage : ∀ j, (c.goTo i .away { c.gate with pending := true }).stage j = .scanning ↔
      c.stage j = .scanning := by
    intro j
    rw [Crowd.stage_goTo_eq_iff (by decide)]
    exact and_iff_right_of_imp fun hj heq => hi (heq ▸ hj)
  refine ⟨?_, fun j k hj hk => ?_, fun _ => htaken, .inr (.inl rfl), ?_⟩
  · simp only [hstage, Crowd.gate_goTo]
    exact h.scanning_iff
  · exact h.single j k ((hstage j).1 hj) ((hstage k).1 hk)
  · obtain ⟨owing, howing, hcount⟩ := h.counted_ask hi hm
    refine ⟨owing, fun j hj => ?_, ?_⟩
    · obtain ⟨hne, hj⟩ := (Crowd.stage_goTo_eq_iff (by decide)).1 hj
      exact howing j hne hj
    · -- the note stands for the request, also where there is one already
      rw [Crowd.gate_goTo, List.countP_append, List.countP_singleton, hstarts]
      simp only [Bool.false_eq_true, if_false, if_true]
      omega

/-- `Orderly` when a scan ends: nobody scans and the gate is idle, so that only what is owed has to
    be told. -/
theorem of_finish (h : Orderly past c) (hi : c.stage i = .scanning) {there : Stage}
    (hthere : there ≠ .scanning) (answer : Bool)
    (hserved : Served past ∨ ∃ j, (c.goTo i there .idle).stage j = .owing)
    (hcounted : ∃ owing : Finset ι, (∀ j, (c.goTo i there .idle).stage j = .owing → j ∈ owing) ∧
      past.countP (·.starts) + owing.card ≤ past.countP (·.isRequest)) :
    Orderly (past ++ [{ move := .finish, answer }]) (c.goTo i there .idle) := by
  -- the caller was the only one that scanned
  have hnobody : ∀ j, (c.goTo i there .idle).stage j ≠ .scanning := by
    intro j hj
    obtain ⟨hne, hj⟩ := (Crowd.stage_goTo_eq_iff hthere).1 hj
    exact hne (h.single j i hj hi)
  refine ⟨⟨fun hgate => ?_, fun ⟨j, hj⟩ => absurd hj (hnobody j)⟩,
    fun j k hj => absurd hj (hnobody j), fun hgate => ?_, ?_, ?_⟩
  · exact absurd hgate Bool.false_ne_true
  · exact absurd hgate Bool.false_ne_true
  · exact hserved.imp (fun hserved => hserved.concat rfl) .inr
  · obtain ⟨owing, howing, hcount⟩ := hcounted
    refine ⟨owing, howing, ?_⟩
    simpa [List.countP_append, Gate.idle] using hcount

/-- `Orderly` is kept when the note goes from the gate to the caller that ends its scan. -/
theorem handedOver (h : Orderly past c) (hi : c.stage i = .scanning)
    (hpending : c.gate.pending = true) :
    Orderly (past ++ [{ move := .finish, answer := true }]) (c.goTo i .owing .idle) := by
  refine h.of_finish hi (by decide) true (.inr ⟨i, Crowd.stage_goTo_self⟩) ?_
  obtain ⟨owing, howing, hcount⟩ := h.counted
  refine ⟨insert i owing, fun j hj => ?_, ?_⟩
  · by_cases heq : j = i
    · exact heq ▸ Finset.mem_insert_self i owing
    · rw [Crowd.stage_goTo_of_ne heq] at hj
      exact Finset.mem_insert_of_mem (howing j hj)
  · -- the caller owes now what the note stood for
    have hcard := Finset.card_insert_le i owing
    rw [hpending, if_pos rfl] at hcount
    omega

/-- `Orderly` is kept when a scan ends without a note. -/
theorem ended (h : Orderly past c) (hi : c.stage i = .scanning)
    (hpending : c.gate.pending = false) :
    Orderly (past ++ [{ move := .finish, answer := false }]) (c.goTo i .away .idle) := by
  refine h.of_finish hi (by decide) false ?_ ?_
  · rcases h.served with hserved | hnoted | ⟨j, hj⟩
    · exact .inl hserved
    · rw [hpending] at hnoted
      cases hnoted
    · -- the caller that owes a scan is another one
      refine .inr ⟨j, (Crowd.stage_goTo_eq_iff (by decide)).2 ⟨fun heq => ?_, hj⟩⟩
      rw [heq, hi] at hj
      cases hj
  · obtain ⟨owing, howing, hcount⟩ := h.counted
    refine ⟨owing, fun j hj => howing j ((Crowd.stage_goTo_eq_iff (by decide)).1 hj).2, ?_⟩
    omega

/-- `Calls.next` keeps things `Orderly`. -/
theorem next (h : Orderly past c) (i : ι) :
    Orderly (past ++ [(next c i).1]) (next c i).2 := by
  rcases next_cases c i with ⟨m, hstarts, hm, hi, hfree, hnext⟩ |
    ⟨m, hstarts, hm, hi, htaken, hnext⟩ | ⟨hi, hpending, hnext⟩ | ⟨hi, hpending, hnext⟩
  · rw [hnext]
    exact h.letIn hi hfree hm hstarts
  · rw [hnext]
    exact h.turnedAway hi htaken hm hstarts
  · rw [hnext]
    exact h.handedOver hi hpending
  · rw [hnext]
    exact h.ended hi hpending

/-- `Calls.run` keeps things `Orderly`. -/
theorem run (h : Orderly past c) (schedule : List ι) :
    Orderly (past ++ (run c schedule).1) (run c schedule).2 := by
  induction schedule generalizing past c with
  | nil => simpa [Calls.run] using h
  | cons i rest ih =>
    have hrest := ih (h.next i)
    rwa [List.append_assoc] at hrest

end Orderly

/-- Callers ask for scans, and end them, in any order. At any moment at most one of them runs a
    scan, and a request is noted only while one runs. When nobody runs or owes a scan, nothing is
    noted, and everyone who asked was followed by a scan that started then or later. Never have
    more scans started than were requested. -/
theorem requests_folded (schedule : List ι) :
    let moments := (run (.start .away) schedule).1
    let crowd := (run (.start .away) schedule).2
    (∀ i j, crowd.stage i = .scanning → crowd.stage j = .scanning → i = j) ∧
    (crowd.gate.pending = true → crowd.gate.scanning = true) ∧
    ((∀ i, crowd.stage i = .away) → crowd.gate = .idle ∧ Served moments) ∧
    moments.countP (·.starts) ≤ moments.countP (·.isRequest) := by
  intro moments crowd
  have h : Orderly moments crowd := orderly_start.run schedule
  refine ⟨h.single, h.noted, fun haway => ?_, ?_⟩
  · have hscanning : crowd.gate.scanning = false := by
      rw [Bool.eq_false_iff]
      intro hgate
      obtain ⟨i, hi⟩ := h.scanning_iff.1 hgate
      rw [haway i] at hi
      cases hi
    -- nothing is noted while no scan runs
    have hpending : crowd.gate.pending = false := by
      rw [Bool.eq_false_iff]
      intro hgate
      rw [h.noted hgate] at hscanning
      cases hscanning
    refine ⟨?_, ?_⟩
    · cases hgate : crowd.gate with
      | mk scanning pending =>
        rw [hgate] at hscanning hpending
        cases hscanning
        cases hpending
        rfl
    · rcases h.served with hserved | hnoted | ⟨i, hi⟩
      · exact hserved
      · rw [hpending] at hnoted
        cases hnoted
      · rw [haway i] at hi
        cases hi
  · obtain ⟨owing, -, hcount⟩ := h.counted
    omega

/-- A caller that is to ask again finds another one let in before it, and leaves its request at the
    gate. So there are three scans for the three requests. -/
example : (run (.start .away : Crowd Stage (Fin 2)) [0, 1, 0, 1, 0, 1, 1, 1]).1 =
    [⟨.request, true⟩, ⟨.request, false⟩, ⟨.finish, true⟩, ⟨.request, true⟩, ⟨.followUp, false⟩,
      ⟨.finish, true⟩, ⟨.followUp, true⟩, ⟨.finish, false⟩] := by
  decide

end Calls
end Deadwood.Scan
