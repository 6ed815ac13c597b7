import Deadwood.Scan.Analyzer

/-!
# Attempts at a file

What an analyzer comes to may depend on all calls before, so two passes over the same file may go
different ways. To tell which calls are made, every analyzer is let write down its own ones:
`recording` does so and changes nothing else (`runAttempts_recording`).

A pass calls the analyzers in their order, up to one that does not return. The calls of a pass say
how it ends (`runPass_fst_eq_ofCalls`), and attempts end like their last pass. So a file is left
with the findings of one whole pass, and with nothing of the passes that crashed:
`attempts_all_or_nothing`.
-/

namespace Deadwood.Scan

/-! ## Calls -/

/-- A call of an analyzer: the place of the analyzer in their order, its name, and what it came
    to. -/
structure Call where
  place : Nat
  name : String
  verdict : Verdict
  deriving Repr, DecidableEq, Inhabited

namespace Call

/-- Did the analyzer return, with issues or with the reasons for which it gave up? -/
def returned (c : Call) : Bool :=
  match c.verdict with
  | .issues _ | .failure _ => true
  | .crash | .hang => false

/-- The issues that the call returned. -/
def issues (c : Call) : List Issue :=
  match c.verdict with
  | .issues found => found
  | _ => []

/-- What is said about the file if the analyzer gave up. -/
def warning? (file : Path) (c : Call) : Option Warning :=
  match c.verdict with
  | .failure reasons => some (failureWarning c.name file reasons)
  | _ => none

/-- The analyzer that is called and its place. -/
def caller (c : Call) : String × Nat := (c.name, c.place)

end Call

/-- Has one of the calls come to this? -/
def cameTo (verdict : Verdict) (calls : List Call) : Bool := calls.any fun c => c.verdict == verdict

/-- What the calls have found: the issues of those that returned some, and a warning for each that
    gave up, in their order. -/
def Findings.ofCalls (file : Path) (calls : List Call) : Findings where
  issues := calls.flatMap Call.issues
  warnings := calls.filterMap (Call.warning? file)

/-- How a pass with these calls ends. -/
def Pass.ofCalls (file : Path) (calls : List Call) : Pass :=
  if cameTo .crash calls then .crashed
  else if cameTo .hang calls then .hung
  else .finished (.ofCalls file calls)

variable {σ : Type}

/-- The calls are those of one pass. -/
structure IsPass (analyzers : List (Analyzer σ)) (calls : List Call) : Prop where
  /-- The analyzers are called in their order, from the first one on. -/
  order : calls.map Call.caller <+: (analyzers.map (·.name)).zipIdx
  /-- A call that another one follows has returned. -/
  returned : calls.Pairwise fun c _ => c.returned = true
  /-- Calls that all return are those of all analyzers. -/
  whole : (∀ c ∈ calls, c.returned = true) → calls.length = analyzers.length

/-- The calls are those of a pass that came to its end: every analyzer was called once, in their
    order, and returned. -/
structure IsWholePass (analyzers : List (Analyzer σ)) (calls : List Call) : Prop where
  order : calls.map Call.caller = (analyzers.map (·.name)).zipIdx
  returned : ∀ c ∈ calls, c.returned = true

/-! ## Writing down calls -/

/-- The analyzer that also writes down its calls. -/
def Analyzer.recording (place : Nat) (a : Analyzer σ) : Analyzer (σ × List Call) where
  name := a.name
  analyze state text file :=
    let (verdict, next) := a.analyze state.1 text file
    (verdict, next, state.2 ++ [⟨place, a.name, verdict⟩])

/-- `Analyzer.recording` comes to the same, and adds its call to those written down. -/
theorem Analyzer.analyze_recording (place : Nat) (a : Analyzer σ) (state : σ) (calls : List Call)
    (text : String) (file : Path) :
    (a.recording place).analyze (state, calls) text file =
      ((a.analyze state text file).1, (a.analyze state text file).2,
        calls ++ [⟨place, a.name, (a.analyze state text file).1⟩]) := rfl

/-- The analyzers that write down their calls, the first of them at the given place. -/
def recordingFrom : Nat → List (Analyzer σ) → List (Analyzer (σ × List Call))
  | _, [] => []
  | place, a :: rest => a.recording place :: recordingFrom (place + 1) rest

/-- The analyzers that write down their calls. -/
def recording (analyzers : List (Analyzer σ)) : List (Analyzer (σ × List Call)) :=
  recordingFrom 0 analyzers

section

variable (text : String) (file : Path)

/-- The calls of a pass over analyzers, the first of them at the given place. -/
def callsFrom : Nat → List (Analyzer σ) → σ → List Call
  | _, [], _ => []
  | place, a :: rest, state =>
    let call : Call := ⟨place, a.name, (a.analyze state text file).1⟩
    call :: if call.returned then callsFrom (place + 1) rest (a.analyze state text file).2 else []

/-- The calls of a pass. -/
def passCalls (analyzers : List (Analyzer σ)) (state : σ) : List Call :=
  callsFrom text file 0 analyzers state

/-- The passes that are tried, by their calls: one more behind each that crashed, as many as
    allowed. -/
def passesOf (analyzers : List (Analyzer σ)) : Nat → σ → List (List Call)
  | 0, _ => []
  | n + 1, state =>
    let calls := passCalls text file analyzers state
    calls :: if cameTo .crash calls then
      passesOf analyzers n (runPass text file analyzers state).2
    else []

variable {text file}

/-- `runPass` is not changed by writing down its calls. -/
theorem runPass_recordingFrom (place : Nat) (analyzers : List (Analyzer σ)) (state : σ)
    (calls : List Call) :
    runPass text file (recordingFrom place analyzers) (state, calls) =
      ((runPass text file analyzers state).1, (runPass text file analyzers state).2,
        calls ++ callsFrom text file place analyzers state) := by
  induction analyzers generalizing place state calls with
  | nil => simp [recordingFrom, runPass, callsFrom]
  | cons a rest ih =>
    rw [recordingFrom, runPass, runPass, callsFrom, Analyzer.analyze_recording]
    generalize a.analyze state text file = r
    obtain ⟨verdict, next⟩ := r
    -- behind a call that returned the pass goes on with the other analyzers
    cases verdict with
    | issues found => simp [ih, Call.returned]
    | failure reasons => simp [ih, Call.returned, Analyzer.recording]
    | crash => simp [Call.returned]
    | hang => simp [Call.returned]

/-! ## The calls of a pass -/

/-- `callsFrom` calls the analyzers in their order. -/
theorem callsFrom_order (place : Nat) (analyzers : List (Analyzer σ)) (state : σ) :
    (callsFrom text file place analyzers state).map Call.caller <+:
      (analyzers.map (·.name)).zipIdx place := by
  induction analyzers generalizing place state with
  | nil => exact List.prefix_refl _
  | cons a rest ih =>
    rw [callsFrom, List.map_cons, List.map_cons, List.zipIdx_cons]
    refine (List.prefix_cons_inj _).2 ?_
    split
    · exact ih _ _
    · exact List.nil_prefix

/-- `callsFrom` goes on behind a call that returned only. -/
theorem callsFrom_returned (place : Nat) (analyzers : List (Analyzer σ)) (state : σ) :
    (callsFrom text file place analyzers state).Pairwise fun c _ => c.returned = true := by
  induction analyzers generalizing place state with
  | nil => exact .nil
  | cons a rest ih =>
    rw [callsFrom]
    split
    · rename_i hreturned
      exact .cons (fun _ _ => hreturned) (ih _ _)
    · exact List.pairwise_singleton _ _

/-- `callsFrom` calls all analyzers if all of them return. -/
theorem callsFrom_whole {place : Nat} {analyzers : List (Analyzer σ)} {state : σ}
    (h : ∀ c ∈ callsFrom text file place analyzers state, c.returned = true) :
    (callsFrom text file place analyzers state).length = analyzers.length := by
  induction analyzers generalizing place state with
  | nil => rfl
  | cons a rest ih =>
    rw [callsFrom] at h ⊢
    obtain ⟨hreturned, hrest⟩ := List.forall_mem_cons.1 h
    rw [if_pos hreturned] at hrest ⊢
    rw [List.length_cons, List.length_cons, ih hrest]

/-- `passCalls` are those of one pass. -/
theorem isPass_passCalls (analyzers : List (Analyzer σ)) (state : σ) :
    IsPass analyzers (passCalls text file analyzers state) where
  order := callsFrom_order 0 analyzers state
  returned := callsFrom_returned 0 analyzers state
  whole := callsFrom_whole

/-- `IsPass` with calls that all returned came to its end. -/
theorem IsPass.isWholePass {analyzers : List (Analyzer σ)} {calls : List Call}
    (h : IsPass analyzers calls) (hreturned : ∀ c ∈ calls, c.returned = true) :
    IsWholePass analyzers calls where
  order := h.order.eq_of_length (by simp [h.whole hreturned])
  returned := hreturned

/-- `IsPass` calls no analyzer twice. -/
theorem IsPass.countP_place_le {analyzers : List (Analyzer σ)} {calls : List Call}
    (h : IsPass analyzers calls) (place : Nat) :
    calls.countP (fun c => c.place == place) ≤ 1 := by
  -- the places that are called are the first ones, each once
  have hplaces : calls.map Call.place <+: List.range analyzers.length := by
    have hsnd := h.order.map Prod.snd
    simpa [Call.caller, Function.comp_def, List.range_eq_range'] using hsnd
  have hnodup := hplaces.sublist.nodup List.nodup_range
  have hcount := List.nodup_iff_count.1 hnodup place
  rwa [List.count, List.countP_map] at hcount

/-- `cameTo` is not changed by a call that came to something else. -/
theorem cameTo_cons_of_ne {verdict : Verdict} {c : Call} (h : c.verdict ≠ verdict)
    (calls : List Call) : cameTo verdict (c :: calls) = cameTo verdict calls := by
  simp [cameTo, h]

/-- `Pass.ofCalls` with one more call in front, which returned and adds what it found. -/
theorem Pass.ofCalls_cons {c : Call} {calls : List Call} {add : Findings → Findings}
    (hc : c.returned = true) (hadd : add (.ofCalls file calls) = .ofCalls file (c :: calls)) :
    Pass.ofCalls file (c :: calls) = (Pass.ofCalls file calls).map add := by
  -- a call that returned is no reason to end the pass
  have hcrash : c.verdict ≠ .crash := fun h => by simp [Call.returned, h] at hc
  have hhang : c.verdict ≠ .hang := fun h => by simp [Call.returned, h] at hc
  rw [Pass.ofCalls, cameTo_cons_of_ne hcrash, cameTo_cons_of_ne hhang, ← hadd, Pass.ofCalls]
  split
  · rfl
  · split <;> rfl

/-- `runPass` ends as its calls say. -/
theorem runPass_fst_eq_ofCalls (place : Nat) (analyzers : List (Analyzer σ)) (state : σ) :
    (runPass text file analyzers state).1 =
      .ofCalls file (callsFrom text file place analyzers state) := by
  -- the calls of the rest start one place later, in the state that the first analyzer leaves
  induction analyzers generalizing place state with
  | nil => rfl
  | cons a rest ih =>
    rw [runPass, callsFrom]
    generalize a.analyze state text file = r
    obtain ⟨verdict, next⟩ := r
    cases verdict with
    | issues found =>
      show ((runPass text file rest next).1).map (Findings.addIssues found) = _
      rw [ih (place + 1) next]
      exact (Pass.ofCalls_cons rfl rfl).symm
    | failure reasons =>
      show ((runPass text file rest next).1).map
        (Findings.addWarning (failureWarning a.name file reasons)) = _
      rw [ih (place + 1) next]
      exact (Pass.ofCalls_cons rfl rfl).symm
    | crash => rfl
    | hang => rfl

/-! ## Attempts -/

/-- `runPass` crashes if one of its calls does. -/
theorem runPass_fst_eq_crashed_iff {analyzers : List (Analyzer σ)} {state : σ} :
    (runPass text file analyzers state).1 = .crashed ↔
      cameTo .crash (passCalls text file analyzers state) = true := by
  rw [runPass_fst_eq_ofCalls 0, Pass.ofCalls]
  show _ ↔ cameTo .crash (callsFrom text file 0 analyzers state) = true
  split
  · simp [*]
  · split <;> simp [*]

/-- `runAttempts` goes on behind a pass that crashed; any other pass is the last one. -/
theorem runAttempts_succ (analyzers : List (Analyzer σ)) (n : Nat) (state : σ) :
    runAttempts text file analyzers (n + 1) state =
      if (runPass text file analyzers state).1 = .crashed then
        runAttempts text file analyzers n (runPass text file analyzers state).2
      else runPass text file analyzers state := by
  rw [runAttempts]
  generalize runPass text file analyzers state = r
  obtain ⟨pass, next⟩ := r
  cases pass <;> rfl

/-- `passesOf` goes on behind a pass that crashed. -/
theorem passesOf_of_crashed {analyzers : List (Analyzer σ)} {state : σ}
    (h : (runPass text file analyzers state).1 = .crashed) (n : Nat) :
    passesOf text file analyzers (n + 1) state = passCalls text file analyzers state ::
      passesOf text file analyzers n (runPass text file analyzers state).2 := by
  rw [passesOf, if_pos (runPass_fst_eq_crashed_iff.1 h)]

/-- `passesOf` ends with a pass that did not crash. -/
theorem passesOf_of_not_crashed {analyzers : List (Analyzer σ)} {state : σ}
    (h : (runPass text file analyzers state).1 ≠ .crashed) (n : Nat) :
    passesOf text file analyzers (n + 1) state = [passCalls text file analyzers state] := by
  rw [passesOf, if_neg (mt runPass_fst_eq_crashed_iff.2 h)]

/-- `runAttempts` is not changed by writing down its calls. -/
theorem runAttempts_recording (analyzers : List (Analyzer σ)) (n : Nat) (state : σ)
    (calls : List Call) :
    runAttempts text file (recording analyzers) n (state, calls) =
      ((runAttempts text file analyzers n state).1, (runAttempts text file analyzers n state).2,
        calls ++ (passesOf text file analyzers n state).flatten) := by
  -- one attempt less is left behind a pass that crashed
  induction n generalizing state calls with
  | zero => simp [runAttempts, passesOf]
  | succ n ih =>
    have hpass : runPass text file (recording analyzers) (state, calls) =
        ((runPass text file analyzers state).1, (runPass text file analyzers state).2,
          calls ++ passCalls text file analyzers state) :=
      runPass_recordingFrom 0 analyzers state calls
    rw [runAttempts_succ, runAttempts_succ, hpass]
    by_cases hcrash : (runPass text file analyzers state).1 = .crashed
    · rw [if_pos hcrash, if_pos hcrash, ih, passesOf_of_crashed hcrash, List.flatten_cons,
        List.append_assoc]
    · rw [if_neg hcrash, if_neg hcrash, passesOf_of_not_crashed hcrash, List.flatten_singleton]

/-- `runAttempts` ends like the last pass. -/
theorem runAttempts_fst_eq_ofCalls (analyzers : List (Analyzer σ)) (n : Nat) (state : σ) :
    (runAttempts text file analyzers n state).1 =
      (passesOf text file analyzers n state).getLast?.elim .crashed (Pass.ofCalls file) := by
  induction n generalizing state with
  | zero => rfl
  | succ n ih =>
    have hpass : (runPass text file analyzers state).1 =
        .ofCalls file (passCalls text file analyzers state) :=
          runPass_fst_eq_ofCalls 0 analyzers state
    rw [runAttempts_succ]
    by_cases hcrash : (runPass text file analyzers state).1 = .crashed
    · rw [if_pos hcrash, ih, passesOf_of_crashed hcrash, List.getLast?_cons]
      -- without another attempt the crash is the end
      cases (passesOf text file analyzers n (runPass text file analyzers state).2).getLast? with
      | none => exact hcrash.symm.trans hpass
      | some last => rfl
    · rw [if_neg hcrash, passesOf_of_not_crashed hcrash]
      exact hpass

/-- The passes are those of so many attempts at most. -/
structure AreAttempts (analyzers : List (Analyzer σ)) (n : Nat) (passes : List (List Call)) :
    Prop where
  length : passes.length ≤ n
  isPass : ∀ calls ∈ passes, IsPass analyzers calls
  /-- A pass that another one follows has crashed. -/
  crashed : passes.Pairwise fun calls _ => cameTo .crash calls = true

/-- `passesOf` are those of so many attempts at most. -/
theorem areAttempts_passesOf (analyzers : List (Analyzer σ)) (n : Nat) (state : σ) :
    AreAttempts analyzers n (passesOf text file analyzers n state) := by
  induction n generalizing state with
  | zero => exact ⟨Nat.le_refl 0, List.forall_mem_nil _, .nil⟩
  | succ n ih =>
    have hfirst : IsPass analyzers (passCalls text file analyzers state) :=
      isPass_passCalls analyzers state
    -- there is another attempt exactly if the first one crashes
    by_cases hcrash : (runPass text file analyzers state).1 = .crashed
    · have hrest := ih (runPass text file analyzers state).2
      rw [passesOf_of_crashed hcrash]
      exact ⟨Nat.succ_le_succ hrest.length, List.forall_mem_cons.2 ⟨hfirst, hrest.isPass⟩,
        .cons (fun _ _ => runPass_fst_eq_crashed_iff.1 hcrash) hrest.crashed⟩
    · rw [passesOf_of_not_crashed hcrash]
      exact ⟨Nat.succ_le_succ (Nat.zero_le n), List.forall_mem_singleton.2 hfirst,
        List.pairwise_singleton _ _⟩

/-- `runAttempts` comes to nothing if all attempts are made and crash. -/
theorem runAttempts_fst_eq_crashed_iff {analyzers : List (Analyzer σ)} {n : Nat} {state : σ} :
    (runAttempts text file analyzers n state).1 = .crashed ↔
      (passesOf text file analyzers n state).length = n ∧
        ∀ calls ∈ passesOf text file analyzers n state, cameTo .crash calls = true := by
  induction n generalizing state with
  | zero => simp [runAttempts, passesOf]
  | succ n ih =>
    rw [runAttempts_succ]
    -- all attempts are used up by crashes
    by_cases hcrash : (runPass text file analyzers state).1 = .crashed
    · rw [if_pos hcrash, ih, passesOf_of_crashed hcrash, List.forall_mem_cons]
      simp [runPass_fst_eq_crashed_iff.1 hcrash]
    · rw [if_neg hcrash, passesOf_of_not_crashed hcrash, List.forall_mem_singleton,
        ← runPass_fst_eq_crashed_iff]
      simp [hcrash]

/-- `AreAttempts` call no analyzer more often than there are attempts. -/
theorem AreAttempts.countP_place_le {analyzers : List (Analyzer σ)} {n : Nat}
    {passes : List (List Call)} (h : AreAttempts analyzers n passes) (place : Nat) :
    passes.flatten.countP (fun c => c.place == place) ≤ n := by
  -- an analyzer is called once in a pass at most
  have hcount : passes.flatten.countP (fun c => c.place == place) ≤ passes.length := by
    have hpass := fun calls hcalls => (h.isPass calls hcalls).countP_place_le place
    clear h
    induction passes with
    | nil => exact Nat.le_refl 0
    | cons calls passes ih =>
      have hfirst := hpass calls List.mem_cons_self
      have hrest := ih fun other hother => hpass other (List.mem_cons_of_mem calls hother)
      rw [List.flatten_cons, List.countP_append, List.length_cons]
      omega
  exact Nat.le_trans hcount h.length

/-- `IsPass` without crash and without hang came to its end, with what its calls have found. -/
theorem IsPass.finished {analyzers : List (Analyzer σ)} {calls : List Call}
    (h : IsPass analyzers calls) (hcrash : cameTo .crash calls = false)
    (hhang : cameTo .hang calls = false) :
    IsWholePass analyzers calls ∧ Pass.ofCalls file calls = .finished (.ofCalls file calls) := by
  refine ⟨h.isWholePass fun c hc => ?_, by rw [Pass.ofCalls, hcrash, hhang]; rfl⟩
  simp only [cameTo, List.any_eq_false, beq_iff_eq] at hcrash hhang
  unfold Call.returned
  cases hverdict : c.verdict with
  | issues found => rfl
  | failure reasons => rfl
  | crash => exact absurd hverdict (hcrash c hc)
  | hang => exact absurd hverdict (hhang c hc)

/-- `runAttempts` that do not come to nothing leave what the last pass has found, unless an analyzer
    hangs. -/
theorem exists_kept {analyzers : List (Analyzer σ)} {n : Nat} {state : σ}
    (hne : (runAttempts text file analyzers n state).1 ≠ .crashed)
    (hhang : ∀ c ∈ (passesOf text file analyzers n state).flatten, c.verdict ≠ .hang) :
    ∃ kept, (passesOf text file analyzers n state).getLast? = some kept ∧
      IsWholePass analyzers kept ∧
      (runAttempts text file analyzers n state).1 = .finished (.ofCalls file kept) := by
  have hpasses : AreAttempts analyzers n (passesOf text file analyzers n state) :=
    areAttempts_passesOf analyzers n state
  rw [runAttempts_fst_eq_ofCalls] at hne ⊢
  cases hlast : (passesOf text file analyzers n state).getLast? with
  | none =>
    rw [hlast] at hne
    exact absurd rfl hne
  | some kept =>
    rw [hlast] at hne
    have hmem := List.mem_of_getLast? hlast
    -- attempts end like their last pass, which then did not crash
    have hnocrash : cameTo .crash kept = false := by
      refine Bool.eq_false_iff.2 fun hcrash => hne ?_
      show Pass.ofCalls file kept = .crashed
      rw [Pass.ofCalls, if_pos hcrash]
    have hnohang : cameTo .hang kept = false := by
      simp only [cameTo, List.any_eq_false, beq_iff_eq]
      exact fun c hc => hhang c (List.mem_flatten_of_mem hmem hc)
    exact ⟨kept, rfl, (hpasses.isPass kept hmem).finished hnocrash hnohang⟩

end

/-- A file is tried in two passes at most, the second one only if the first crashed, and no analyzer
    is called more than twice. Nothing comes of it exactly if both passes crash. Otherwise, unless
    an analyzer hangs, what is left are the issues and the warnings of the last pass, in which every
    analyzer was called in their order and returned, and nothing of a pass that crashed. -/
theorem attempts_all_or_nothing (text : String) (file : Path) (analyzers : List (Analyzer σ))
    (state : σ) :
    let passes := passesOf text file analyzers maxAttempts state
    let run := runAttempts text file (recording analyzers) maxAttempts (state, [])
    (run.1, run.2.1) = runAttempts text file analyzers maxAttempts state ∧
    run.2.2 = passes.flatten ∧
    AreAttempts analyzers 2 passes ∧
    (run.1 = .crashed ↔ passes.length = 2 ∧ ∀ calls ∈ passes, cameTo .crash calls = true) ∧
    (run.1 ≠ .crashed → (∀ c ∈ run.2.2, c.verdict ≠ .hang) →
      ∃ kept, passes.getLast? = some kept ∧ IsWholePass analyzers kept ∧
        run.1 = .finished (.ofCalls file kept)) ∧
    ∀ place, run.2.2.countP (fun c => c.place == place) ≤ 2 := by
  intro passes run
  -- the recorded calls are those of the passes, and recording changes nothing else
  have hrun : run = ((runAttempts text file analyzers maxAttempts state).1,
      (runAttempts text file analyzers maxAttempts state).2, passes.flatten) :=
    runAttempts_recording analyzers maxAttempts state []
  have hpasses : AreAttempts analyzers 2 passes := areAttempts_passesOf analyzers maxAttempts state
  rw [hrun]
  exact ⟨rfl, rfl, hpasses, runAttempts_fst_eq_crashed_iff, exists_kept, hpasses.countP_place_le⟩

/-- An analyzer that counts the calls, and comes to what the count says. -/
def countingAnalyzer (name : String) (verdict : Nat → Verdict) : Analyzer Nat where
  name
  analyze count _ _ := (verdict count, count + 1)

/-- An issue that says at which count it was found. -/
def countedIssue (count : Nat) : Issue :=
  { Issue.ofKind (.external "lint") ⟨"/p/a.js"⟩ "found" with line := some count }

/-- Two analyzers that return in each pass, each time with something else, and one that crashes in
    the first pass. -/
def flakyAnalyzers : List (Analyzer Nat) :=
  [countingAnalyzer "lint" fun count => .issues [countedIssue count],
    countingAnalyzer "types" fun count => .failure [if count < 3 then "first" else "second"],
    countingAnalyzer "flaky" fun count =>
      if count < 3 then .crash else .issues [countedIssue count]]

/-- Of the two passes, the first one crashes behind an issue and a warning, and only the issues and
    the warning of the second one are left. -/
theorem attempts_all_or_nothing_flakyAnalyzers :
    let passes := passesOf "" ⟨"/p/a.js"⟩ flakyAnalyzers maxAttempts 0
    let run := runAttempts "" ⟨"/p/a.js"⟩ (recording flakyAnalyzers) maxAttempts (0, [])
    run.1 ≠ .crashed ∧ (∀ c ∈ run.2.2, c.verdict ≠ .hang) ∧
      passes.map (cameTo .crash) = [true, false] ∧
      ∃ kept, passes.getLast? = some kept ∧ IsWholePass flakyAnalyzers kept ∧
        Findings.ofCalls ⟨"/p/a.js"⟩ kept =
          ⟨[countedIssue 3, countedIssue 5], [failureWarning "types" ⟨"/p/a.js"⟩ ["second"]]⟩ := by
  intro passes run
  have hne : run.1 ≠ .crashed := by decide
  have hhang : ∀ c ∈ run.2.2, c.verdict ≠ .hang := by decide
  -- the two passes are carried out
  have hfound : run.1 = .finished
      ⟨[countedIssue 3, countedIssue 5], [failureWarning "types" ⟨"/p/a.js"⟩ ["second"]]⟩ := rfl
  obtain ⟨-, -, -, -, hkept, -⟩ := attempts_all_or_nothing "" ⟨"/p/a.js"⟩ flakyAnalyzers 0
  obtain ⟨kept, hlast, hwhole, hend⟩ := hkept hne hhang
  exact ⟨hne, hhang, by decide, kept, hlast, hwhole, Pass.finished.inj (hend.symm.trans hfound)⟩

end Deadwood.Scan
