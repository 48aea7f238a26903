import Runbook.Proofs.StepCalls

/-! Batches are single calls in a row: the batch loop, with its room of steps and its private copy,
leaves what a driver leaves that calls `process` again and again and looks at the clock in between. -/
namespace Runbook.Runner
variable {κ τ : Type} [Moment τ] [Clock κ τ] {rn : Runner} {now : Instant} {r r' : Run} {a : Value}

/-- How many more calls can change a run that no checkpoint holds up. -/
def callsLeft (g : Guard) (r : Run) : Nat := if r.isFinal then 0 else room g r + 1

def answerHere (rn : Runner) (r : Run) : Value :=
  match rn.currentStep? r with
  | some s => answerFor r s
  | none => .null

def waits (rn : Runner) (r : Run) : Bool := (rn.currentStep? r).any (·.isCheckpoint)

theorem room_pos_iff {g : Guard} : 0 < room g r ↔ g.hasRoom r = true := by
  simp only [room, Guard.hasRoom, decide_eq_true_eq]
  omega

theorem room_stepped {g : Guard} {w : Workflow} {results inputs : Store} {e : Entry} {p : Position} :
    room g (r.stepped w results inputs e p) = room g r - 1 := by
  simp only [room, Run.stepped_iterations]
  omega

theorem callsLeft_lt {b : Bool} (hr : ¬r.isFinal = true) (hw : ¬rn.waits r = true)
    (h : rn.process now r a = (r', .ok b)) : callsLeft rn.guard r' < callsLeft rn.guard r := by
  have hr : r.isFinal = false := by simpa using hr
  have hleft : callsLeft rn.guard r = room rn.guard r + 1 := by simp [callsLeft, hr]
  cases processed hr h with
  | ended _ => rw [hleft]; exact Nat.succ_pos _
  | waiting hs hc => exact absurd (by simp [waits, hs, hc]) hw
  | overrun _ _ _ => rw [hleft]; exact Nat.succ_pos _
  | advanced _ _ hg _ =>
    have hroom := room_pos_iff.2 hg
    rw [hleft, callsLeft, room_stepped]
    split <;> omega

/-- Why a driver of single calls leaves off. -/
inductive Halt where
  | final
  | late
  | waiting
  deriving DecidableEq

/-- Calls `process` with the answers that the inputs hold, at the times that the clock shows, until
the run is final, or the reading taken before a call has reached the deadline, or the run stands at a
checkpoint. -/
def drive (rn : Runner) (deadline : τ) (r : Run) (clock : κ) : Run × Except Failure Halt × κ :=
  if r.isFinal then (r, .ok .final, clock)
  else
    let (moment, clock) := Clock.read clock
    if Moment.reached deadline moment then (r, .ok .late, clock)
    else if rn.waits r then (r, .ok .waiting, clock)
    else match _ : rn.process (Clock.now clock) r (rn.answerHere r) with
      | (r', .ok _) => rn.drive deadline r' clock
      | (r', .error e) => (r', .error e, clock)
termination_by callsLeft rn.guard r
decreasing_by exact callsLeft_lt ‹_› ‹_› ‹_›

variable {deadline : τ} {clock : κ}

theorem drive_final (hr : r.isFinal = true) :
    rn.drive deadline r clock = (r, .ok .final, clock) := by
  rw [drive]; simp [hr]

theorem drive_late (hr : r.isFinal = false)
    (hd : Moment.reached deadline (Clock.read clock).1 = true) :
    rn.drive deadline r clock = (r, .ok .late, (Clock.read clock).2) := by
  rw [drive]; simp [hr, hd]

theorem drive_waiting (hr : r.isFinal = false)
    (hd : Moment.reached deadline (Clock.read clock).1 = false) (hw : rn.waits r = true) :
    rn.drive deadline r clock = (r, .ok .waiting, (Clock.read clock).2) := by
  rw [drive]; simp [hr, hd, hw]

theorem drive_process (hr : r.isFinal = false)
    (hd : Moment.reached deadline (Clock.read clock).1 = false) (hw : rn.waits r = false) :
    rn.drive deadline r clock =
      match rn.process (Clock.now (Clock.read clock).2) r (rn.answerHere r) with
      | (r', .ok _) => rn.drive deadline r' (Clock.read clock).2
      | (r', .error e) => (r', .error e, (Clock.read clock).2) := by
  rw [drive]
  simp only [hr, hd, hw, Bool.false_eq_true, if_false]
  split <;> simp_all

theorem batch_final {n : Nat} (hr : r.isFinal = true) :
    rn.batch deadline n r clock = (r, .ok .ended, clock) := by
  cases n <;> simp [batch, hr]

theorem batch_late {n : Nat} (hr : r.isFinal = false)
    (hd : Moment.reached deadline (Clock.read clock).1 = true) :
    rn.batch deadline n r clock =
      (r.fail .timeout rn.guard.timeoutMessage, .ok .timedOut, (Clock.read clock).2) := by
  cases n <;> simp [batch, hr, hd]

theorem batch_ended {n : Nat} (hr : r.isFinal = false)
    (hd : Moment.reached deadline (Clock.read clock).1 = false) (hs : rn.currentStep? r = none) :
    rn.batch deadline n r clock = (r.finish rn.workflow, .ok .ended, (Clock.read clock).2) := by
  cases n <;> simp [batch, hr, hd, hs]

theorem batch_waiting {n : Nat} {s : Step} (hr : r.isFinal = false)
    (hd : Moment.reached deadline (Clock.read clock).1 = false)
    (hs : rn.currentStep? r = some s) (hc : s.isCheckpoint = true) :
    rn.batch deadline n r clock = (r, .ok .ended, (Clock.read clock).2) := by
  cases n <;> simp [batch, hr, hd, hs, hc]

theorem batch_overrun {s : Step} (hr : r.isFinal = false)
    (hd : Moment.reached deadline (Clock.read clock).1 = false)
    (hs : rn.currentStep? r = some s) (hc : s.isCheckpoint = false) :
    rn.batch deadline 0 r clock =
      (r.fail .error rn.guard.overrunMessage, .ok .overrun, (Clock.read clock).2) := by
  simp [batch, hr, hd, hs, hc]

theorem batch_process {n : Nat} {s : Step} (hr : r.isFinal = false)
    (hd : Moment.reached deadline (Clock.read clock).1 = false)
    (hs : rn.currentStep? r = some s) (hc : s.isCheckpoint = false)
    (hg : rn.guard.hasRoom r = true) :
    rn.batch deadline (n + 1) r clock =
      match rn.process (Clock.now (Clock.read clock).2) r (rn.answerHere r) with
      | (r', .ok _) => rn.batch deadline n r' (Clock.read clock).2
      | (r', .error e) => (r', .error e, (Clock.read clock).2) := by
  have ha : answerFor { r with iterations := r.iterations + 1 } s = answerFor r s := rfl
  have hcount : rn.guard.count r = ({ r with iterations := r.iterations + 1 }, true) := by
    simp [Guard.count, hg]
  rw [batch]
  simp only [process, answerHere, hr, hd, hs, hc, hcount, ha, Bool.false_eq_true, if_false]
  cases rn.workflow.process (Clock.now (Clock.read clock).2) { r with iterations := r.iterations + 1 }
      s (answerFor r s) with
  | mk r' x => cases x <;> rfl

/-- What a batch makes of the end of a driven run: it ends by the guard, or else as it should. -/
def settle (g : Guard) : Run × Except Failure Halt × κ → Run × Except Failure BatchEnd × κ
  | (r, .ok .late, clock) => (r.fail .timeout g.timeoutMessage, .ok .timedOut, clock)
  | (r, .ok .final, clock) => (r, .ok (if r.status = .error then .overrun else .ended), clock)
  | (r, .ok .waiting, clock) => (r, .ok .ended, clock)
  | (r, .error e, clock) => (r, .error e, clock)

theorem drive_ended (hr : r.isFinal = false)
    (hd : Moment.reached deadline (Clock.read clock).1 = false) (hs : rn.currentStep? r = none) :
    rn.drive deadline r clock =
      (r.finish rn.workflow, .ok .final, (Clock.read clock).2) := by
  rw [drive_process hr hd (by simp [waits, hs]), process_ended hr hs]
  exact drive_final rfl

theorem drive_overrun {s : Step} (hr : r.isFinal = false)
    (hd : Moment.reached deadline (Clock.read clock).1 = false)
    (hs : rn.currentStep? r = some s) (hc : s.isCheckpoint = false)
    (hg : rn.guard.hasRoom r = false) :
    rn.drive deadline r clock =
      (r.fail .error rn.guard.overrunMessage, .ok .final, (Clock.read clock).2) := by
  rw [drive_process hr hd (by simp [waits, hs, hc]), process_overrun hr hs hc hg]
  exact drive_final rfl

/-- The loop is a driver of single calls, from any run that no guard has ended before. -/
theorem batch_eq_drive (he : r.status ≠ .error) :
    rn.batch deadline (room rn.guard r) r clock =
      settle rn.guard (rn.drive deadline r clock) := by
  generalize hn : room rn.guard r = n
  induction n using Nat.strongRecOn generalizing r clock with
  | ind n ih =>
    cases hr : r.isFinal with
    | true =>
      rw [batch_final hr, drive_final hr]
      simp [settle, he]
    | false =>
      cases hd : Moment.reached deadline (Clock.read clock).1 with
      | true => rw [batch_late hr hd, drive_late hr hd]; rfl
      | false =>
        cases hs : rn.currentStep? r with
        | none => rw [batch_ended hr hd hs, drive_ended hr hd hs]; rfl
        | some s =>
          cases hc : s.isCheckpoint with
          | true =>
            rw [batch_waiting hr hd hs hc, drive_waiting hr hd (by simp [waits, hs, hc])]
            rfl
          | false =>
            cases hg : rn.guard.hasRoom r with
            | false =>
              have hzero : n = 0 := by
                have hroom := mt room_pos_iff.1 (by simp [hg] : ¬rn.guard.hasRoom r = true)
                omega
              rw [hzero, batch_overrun hr hd hs hc, drive_overrun hr hd hs hc hg]
              rfl
            | true =>
              have hroom := room_pos_iff.2 hg
              obtain ⟨m, rfl⟩ : ∃ m, n = m + 1 := ⟨n - 1, by omega⟩
              rw [batch_process hr hd hs hc hg, drive_process hr hd (by simp [waits, hs, hc]),
                process_eq hr hs hc hg]
              cases rn.workflow.way s (Workflow.writes s r (rn.answerHere r)).results with
              | error e => rfl
              | ok route =>
                -- The step used up one place, and no step ends a run in error.
                refine ih m (Nat.lt_succ_self m) ?_ (by rw [room_stepped]; omega)
                rw [Run.stepped_status]
                split <;> simp [he]

/-- What the calls of a driver keep true, each with the answer that the inputs hold. -/
theorem drive_keeps {P : Run → Prop} {s : Run} {halt : Halt} {clock' : κ}
    (hstep : ∀ now r r' b, P r → r.isFinal = false →
      rn.process now r (rn.answerHere r) = (r', .ok b) → P r')
    (hr : P r) (h : rn.drive deadline r clock = (s, .ok halt, clock')) : P s := by
  fun_induction rn.drive deadline r clock with
  | case1 => cases h; exact hr
  | case2 => cases h; exact hr
  | case3 => cases h; exact hr
  | case4 r clock hf moment next _ _ _ r' b hp ih =>
    exact ih (hstep _ r r' b hr (by simpa using hf) hp) h
  | case5 => cases h

theorem drive_invariant {P : Run → Prop} {s : Run} {halt : Halt} {clock' : κ}
    (hstep : ∀ now r a r' b, P r → r.isFinal = false → rn.process now r a = (r', .ok b) → P r')
    (hr : P r) (h : rn.drive deadline r clock = (s, .ok halt, clock')) : P s :=
  drive_keeps (fun now r => hstep now r _) hr h

theorem drive_status {s : Run} {halt : Halt} {clock' : κ} (hr : r.isFinal = false)
    (h : rn.drive deadline r clock = (s, .ok halt, clock')) :
    s.status ≠ .timeout ∧ (s.status = .error → rn.guard.hasRoom s = false) := by
  refine drive_invariant
    (P := fun s => s.status ≠ .timeout ∧ (s.status = .error → rn.guard.hasRoom s = false))
    (fun now r a r' b hkeep hr hp => ?_) ?_ h
  · cases processed hr hp with
    | ended _ => exact ⟨nofun, nofun⟩
    | waiting _ _ => exact hkeep
    | overrun _ _ hg => exact ⟨nofun, fun _ => hg⟩
    | advanced _ _ _ _ =>
      rw [Run.stepped_status, Run.isFinal_eq_false.1 hr]
      split <;> exact ⟨nofun, nofun⟩
  · rw [Run.isFinal_eq_false.1 hr]
    exact ⟨nofun, nofun⟩

theorem drive_halt {s : Run} {halt : Halt} {clock' : κ}
    (h : rn.drive deadline r clock = (s, .ok halt, clock')) :
    halt = .final ↔ s.isFinal = true := by
  fun_induction rn.drive deadline r clock with
  | case1 r clock hf => cases h; simp [hf]
  | case2 r clock hf => cases h; simp [hf]
  | case3 r clock hf => cases h; simp [hf]
  | case4 r clock hf moment next _ _ _ r' b hp ih => exact ih h
  | case5 => cases h

/-- What a batch leaves of a run, from what the driver leaves of its copy. -/
def commit (g : Guard) (r : Run) :
    Run × Except Failure Halt × κ → Run × Except Failure Bool × κ
  | (s, .ok .late, clock) => (s.fail .timeout g.timeoutMessage, .ok false, clock)
  | (s, .ok .final, clock) => (s, .ok (s.status != .error), clock)
  | (s, .ok .waiting, clock) => (s, .ok true, clock)
  | (_, .error e, clock) => (r, .error e, clock)

theorem execute_final {inputs : Store} (hr : r.isFinal = true) :
    rn.execute r inputs clock = (r, .ok false, clock) := by
  simp [execute, hr]

theorem execute_eq {inputs : Store} (hr : r.isFinal = false) :
    rn.execute r inputs clock =
      match rn.guard.deadline (Clock.read clock).1 with
      | .error e => (r, .error e, (Clock.read clock).2)
      | .ok deadline => commit rn.guard r
          (rn.drive deadline { r with inputs := r.inputs.merge inputs } (Clock.read clock).2) := by
  have hactive := Run.isFinal_eq_false.1 hr
  have he : ({ r with inputs := r.inputs.merge inputs } : Run).status ≠ .error := by simp [hactive]
  simp only [execute, hr, Bool.false_eq_true, if_false]
  cases rn.guard.deadline (Clock.read clock).1 with
  | error e => rfl
  | ok deadline =>
    simp only [batch_eq_drive he]
    generalize rn.drive deadline { r with inputs := r.inputs.merge inputs } (Clock.read clock).2 = x
    obtain ⟨s, halt, c⟩ := x
    cases halt with
    | error e => rfl
    | ok halt =>
      cases halt with
      | final => by_cases hs : s.status = .error <;> simp [settle, commit, hs]
      | late => rfl
      | waiting => rfl

theorem execute_driven {inputs : Store} {clock' : κ} {b : Bool} (hr : r.isFinal = false)
    (h : rn.execute r inputs clock = (r', .ok b, clock')) :
    ∃ deadline s halt clock'',
      rn.drive deadline { r with inputs := r.inputs.merge inputs } (Clock.read clock).2 =
        (s, .ok halt, clock'') ∧
      commit rn.guard r (s, .ok halt, clock'') = (r', .ok b, clock') := by
  rw [execute_eq hr] at h
  cases hd : rn.guard.deadline (Clock.read clock).1 with
  | error e => simp [hd] at h
  | ok deadline =>
    simp only [hd] at h
    cases hx : rn.drive deadline { r with inputs := r.inputs.merge inputs } (Clock.read clock).2 with
    | mk s rest =>
      obtain ⟨halt, c⟩ := rest
      rw [hx] at h
      cases halt with
      | error e => simp [commit] at h
      | ok halt => exact ⟨deadline, s, halt, c, hx, h⟩

theorem execute_failed {inputs : Store} {e : Failure}
    (h : (rn.execute r inputs clock).2.1 = .error e) : (rn.execute r inputs clock).1 = r := by
  cases hf : r.isFinal with
  | true => rw [execute_final hf]
  | false =>
    rw [execute_eq hf] at h ⊢
    cases hd : rn.guard.deadline (Clock.read clock).1 with
    | error e => rfl
    | ok deadline =>
      simp only [hd] at h ⊢
      generalize rn.drive deadline { r with inputs := r.inputs.merge inputs }
        (Clock.read clock).2 = x at h ⊢
      obtain ⟨s, halt, c⟩ := x
      cases halt with
      | error e => rfl
      | ok halt => cases halt <;> cases h

theorem commit_run {o s : Run} {halt : Halt} {b : Bool} {c clock' : κ}
    (h : commit rn.guard o (s, .ok halt, c) = (r', .ok b, clock')) :
    r' = s ∨ r' = s.fail .timeout rn.guard.timeoutMessage := by
  cases halt with
  | final => exact .inl (congrArg Prod.fst h).symm
  | late => exact .inr (congrArg Prod.fst h).symm
  | waiting => exact .inl (congrArg Prod.fst h).symm

theorem commit_flag {s : Run} {halt : Halt} {clock' : κ} (hr : r.isFinal = false)
    (h : rn.drive deadline r clock = (s, .ok halt, clock')) {b : Bool} {c : κ} {o : Run}
    (hc : commit rn.guard o (s, .ok halt, clock') = (r', .ok b, c)) :
    b = false ↔ r'.status = .timeout ∨ (r'.status = .error ∧ rn.guard.hasRoom r' = false) := by
  obtain ⟨htime, hroom⟩ := drive_status hr h
  cases halt with
  | late =>
    cases hc
    simp [Run.fail]
  | waiting =>
    cases hc
    have hopen : r'.isFinal = false := by
      cases hf : r'.isFinal with
      | false => rfl
      | true => cases (drive_halt h).2 hf
    simp [Run.isFinal_eq_false.1 hopen]
  | final =>
    cases hc
    by_cases he : r'.status = .error
    · simp [he, hroom he]
    · simp [he, htime]

/-- A batch on an active run is single calls in a row on the run with the inputs added: what it
leaves is what they leave, with the timeout on top if the deadline came first. If a call fails, the
run stays as it was; if none does, the flag is false just if the deadline or the ceiling on steps
ended the run. -/
theorem execute_refines_process (rn : Runner) (inputs : Store) (clock : κ)
    (hr : r.isFinal = false) :
    (rn.execute r inputs clock =
      match rn.guard.deadline (Clock.read clock).1 with
      | .error e => (r, .error e, (Clock.read clock).2)
      | .ok deadline => commit rn.guard r
          (rn.drive deadline { r with inputs := r.inputs.merge inputs } (Clock.read clock).2)) ∧
    ∀ r' b clock', rn.execute r inputs clock = (r', .ok b, clock') →
      (b = false ↔
        r'.status = .timeout ∨ (r'.status = .error ∧ rn.guard.hasRoom r' = false)) := by
  refine ⟨execute_eq hr, fun r' b clock' h => ?_⟩
  have hwork : ({ r with inputs := r.inputs.merge inputs } : Run).isFinal = false := hr
  obtain ⟨deadline, s, halt, c, hdrive, hcommit⟩ := execute_driven hr h
  exact commit_flag hwork hdrive hcommit

theorem execute_refines_process_sample :
    (sample.opening "run" []).isFinal = false ∧
    ∀ deadline : Binary64, sample.guard.deadline .zero = .ok deadline →
      sample.execute (sample.opening "run" []) [(.text "answer", .text "no")]
          SteadyClock.stopped =
        commit sample.guard (sample.opening "run" [])
          (sample.drive deadline { sample.opening "run" [] with
              inputs := (sample.opening "run" []).inputs.merge [(.text "answer", .text "no")] }
            (Clock.read SteadyClock.stopped).2) := by
  have hactive : (sample.opening "run" []).isFinal = false := rfl
  refine ⟨hactive, fun deadline hd => ?_⟩
  have h := (execute_refines_process sample [(.text "answer", .text "no")]
    SteadyClock.stopped hactive).1
  have hfirst : (Clock.read SteadyClock.stopped).1 = .zero := rfl
  rw [hfirst, hd] at h
  exact h

end Runbook.Runner
