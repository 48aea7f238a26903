import Runbook.Proofs.BatchCalls

/-! The ceiling of a batch: its loop makes one pass for each step that the guard still allows and one
more at most, wherever the steps lead. A run that nothing else ends is left at the ceiling. -/
namespace Runbook.Runner
variable {κ τ : Type} [Moment τ] [Clock κ τ] {rn : Runner} {deadline : τ} {r r' : Run}
  {clock clock' : κ}

/-- What one pass of the loop comes to. -/
inductive Pass (κ : Type) where
  | goesOn (r : Run) (clock : κ)
  | leaves (x : Run × Except Failure BatchEnd × κ)

/-- One pass of the loop. The guard is asked for the step itself, by the count in the run. -/
def pass (rn : Runner) (deadline : τ) (r : Run) (clock : κ) : Pass κ :=
  if r.isFinal then .leaves (r, .ok .ended, clock)
  else
    let (moment, clock) := Clock.read clock
    if Moment.reached deadline moment then
      .leaves (r.fail .timeout rn.guard.timeoutMessage, .ok .timedOut, clock)
    else match rn.currentStep? r with
      | none => .leaves (r.finish rn.workflow, .ok .ended, clock)
      | some s =>
        if s.isCheckpoint then .leaves (r, .ok .ended, clock)
        else match rn.guard.count r with
          | (r, false) => .leaves (r, .ok .overrun, clock)
          | (r, true) =>
            match rn.workflow.process (Clock.now clock) r s (answerFor r s) with
            | (r, .ok _) => .goesOn r clock
            | (r, .error e) => .leaves (r, .error e, clock)

/-- The loop leaves off after a number of passes. No bound on that number is built in. -/
inductive Loops (rn : Runner) (deadline : τ) :
    Nat → Run → κ → Run × Except Failure BatchEnd × κ → Prop where
  | last {r : Run} {clock : κ} {x : Run × Except Failure BatchEnd × κ} :
      rn.pass deadline r clock = .leaves x → Loops rn deadline 1 r clock x
  | next {n : Nat} {r r' : Run} {clock clock' : κ} {x : Run × Except Failure BatchEnd × κ} :
      rn.pass deadline r clock = .goesOn r' clock' → Loops rn deadline n r' clock' x →
      Loops rn deadline (n + 1) r clock x

/-- Passes that go on lead from one run and clock to another. -/
inductive Passes (rn : Runner) (deadline : τ) : Run → κ → Run → κ → Prop where
  | here {r : Run} {clock : κ} : Passes rn deadline r clock r clock
  | next {r r' s : Run} {clock clock' c : κ} : rn.pass deadline r clock = .goesOn r' clock' →
      Passes rn deadline r' clock' s c → Passes rn deadline r clock s c

/-- A pass finds nothing that would end the loop below the ceiling: the run is active and in time,
and stands at a step that is no checkpoint and does not fail if it is let through. -/
structure Unhindered (rn : Runner) (deadline : τ) (r : Run) (clock : κ) : Prop where
  active : r.isFinal = false
  early : Moment.reached deadline (Clock.read clock).1 = false
  ready : ∃ s, rn.currentStep? r = some s ∧ s.isCheckpoint = false ∧
    ∀ counted, rn.guard.count r = (counted, true) →
      ∃ r' outcome, rn.workflow.process (Clock.now (Clock.read clock).2) counted s
        (answerFor counted s) = (r', .ok outcome)

theorem pass_overrun {s : Step} (hr : r.isFinal = false)
    (hd : Moment.reached deadline (Clock.read clock).1 = false)
    (hs : rn.currentStep? r = some s) (hc : s.isCheckpoint = false)
    (hg : rn.guard.hasRoom r = false) :
    rn.pass deadline r clock =
      .leaves (r.fail .error rn.guard.overrunMessage, .ok .overrun, (Clock.read clock).2) := by
  simp [pass, hr, hd, hs, hc, Guard.count, hg]

theorem pass_process {s : Step} (hr : r.isFinal = false)
    (hd : Moment.reached deadline (Clock.read clock).1 = false)
    (hs : rn.currentStep? r = some s) (hc : s.isCheckpoint = false)
    (hg : rn.guard.hasRoom r = true) :
    rn.pass deadline r clock =
      match rn.process (Clock.now (Clock.read clock).2) r (rn.answerHere r) with
      | (r', .ok _) => .goesOn r' (Clock.read clock).2
      | (r', .error e) => .leaves (r', .error e, (Clock.read clock).2) := by
  have ha : answerFor { r with iterations := r.iterations + 1 } s = answerFor r s := rfl
  have hcount : rn.guard.count r = ({ r with iterations := r.iterations + 1 }, true) := by
    simp [Guard.count, hg]
  simp only [pass, process, answerHere, hr, hd, hs, hc, hcount, ha, Bool.false_eq_true, if_false]
  cases rn.workflow.process (Clock.now (Clock.read clock).2) { r with iterations := r.iterations + 1 }
      s (answerFor r s) with
  | mk r' x => cases x <;> rfl

/-- All that one pass of the loop can come to. -/
inductive Passed (rn : Runner) (deadline : τ) (r : Run) (clock : κ) : Pass κ → Prop where
  | final : r.isFinal = true → Passed rn deadline r clock (.leaves (r, .ok .ended, clock))
  | late : r.isFinal = false → Moment.reached deadline (Clock.read clock).1 = true →
      Passed rn deadline r clock
        (.leaves (r.fail .timeout rn.guard.timeoutMessage, .ok .timedOut, (Clock.read clock).2))
  | ended : r.isFinal = false → Moment.reached deadline (Clock.read clock).1 = false →
      rn.currentStep? r = none →
      Passed rn deadline r clock
        (.leaves (r.finish rn.workflow, .ok .ended, (Clock.read clock).2))
  | waiting {s : Step} : r.isFinal = false →
      Moment.reached deadline (Clock.read clock).1 = false → rn.currentStep? r = some s →
      s.isCheckpoint = true →
      Passed rn deadline r clock (.leaves (r, .ok .ended, (Clock.read clock).2))
  | overrun {s : Step} : r.isFinal = false →
      Moment.reached deadline (Clock.read clock).1 = false → rn.currentStep? r = some s →
      s.isCheckpoint = false → rn.guard.hasRoom r = false →
      Passed rn deadline r clock
        (.leaves (r.fail .error rn.guard.overrunMessage, .ok .overrun, (Clock.read clock).2))
  | failed {s : Step} {r' : Run} {e : Failure} : r.isFinal = false →
      Moment.reached deadline (Clock.read clock).1 = false → rn.currentStep? r = some s →
      s.isCheckpoint = false → rn.guard.hasRoom r = true →
      rn.process (Clock.now (Clock.read clock).2) r (rn.answerHere r) = (r', .error e) →
      Passed rn deadline r clock (.leaves (r', .error e, (Clock.read clock).2))
  | stepped {s : Step} {r' : Run} {b : Bool} : r.isFinal = false →
      Moment.reached deadline (Clock.read clock).1 = false → rn.currentStep? r = some s →
      s.isCheckpoint = false → rn.guard.hasRoom r = true →
      rn.process (Clock.now (Clock.read clock).2) r (rn.answerHere r) = (r', .ok b) →
      Passed rn deadline r clock (.goesOn r' (Clock.read clock).2)

theorem passed (rn : Runner) (deadline : τ) (r : Run) (clock : κ) :
    Passed rn deadline r clock (rn.pass deadline r clock) := by
  cases hr : r.isFinal with
  | true => simpa [pass, hr] using Passed.final hr
  | false =>
    cases hd : Moment.reached deadline (Clock.read clock).1 with
    | true => simpa [pass, hr, hd] using Passed.late hr hd
    | false =>
      cases hs : rn.currentStep? r with
      | none => simpa [pass, hr, hd, hs] using Passed.ended hr hd hs
      | some s =>
        cases hc : s.isCheckpoint with
        | true => simpa [pass, hr, hd, hs, hc] using Passed.waiting hr hd hs hc
        | false =>
          cases hg : rn.guard.hasRoom r with
          | false =>
            rw [pass_overrun hr hd hs hc hg]
            exact .overrun hr hd hs hc hg
          | true =>
            rw [pass_process hr hd hs hc hg]
            cases hp : rn.process (Clock.now (Clock.read clock).2) r (rn.answerHere r) with
            | mk r' x =>
              cases x with
              | error e => exact .failed hr hd hs hc hg hp
              | ok b => exact .stepped hr hd hs hc hg hp

theorem pass_stepped (h : rn.pass deadline r clock = .goesOn r' clock') :
    ∃ s route, rn.currentStep? r = some s ∧ rn.guard.hasRoom r = true ∧
      r' = r.stepped rn.workflow (Workflow.writes s r (answerFor r s)).results
        (Workflow.writes s r (answerFor r s)).inputs
        (Workflow.entryAfter (Clock.now (Clock.read clock).2) s r.position
          (Workflow.writes s r (answerFor r s)).results (answerFor r s) route) route.position := by
  have hpass := passed rn deadline r clock
  rw [h] at hpass
  cases hpass with
  | @stepped s _ _ hr hd hs hc hg hp =>
    have ha : rn.answerHere r = answerFor r s := by simp [answerHere, hs]
    rw [process_eq hr hs hc hg, ha] at hp
    cases hway : rn.workflow.way s (Workflow.writes s r (answerFor r s)).results with
    | error e => rw [hway] at hp; cases hp
    | ok route =>
      rw [hway] at hp
      cases hp
      exact ⟨s, route, hs, hg, rfl⟩

theorem pass_goesOn (h : rn.pass deadline r clock = .goesOn r' clock') :
    rn.guard.hasRoom r = true ∧ r'.iterations = r.iterations + 1 ∧
      ∃ e, r'.trail = r.trail ++ [e] := by
  obtain ⟨s, route, -, hg, rfl⟩ := pass_stepped h
  exact ⟨hg, by simp, _, Run.stepped_trail ..⟩

theorem room_of_pass (h : rn.pass deadline r clock = .goesOn r' clock') :
    room rn.guard r = room rn.guard r' + 1 := by
  obtain ⟨hg, hcount, _⟩ := pass_goesOn h
  have hroom := room_pos_iff.2 hg
  simp only [room] at hroom ⊢
  omega

/-- The batch, with its room for steps, is the loop of passes that ask the guard. -/
theorem batch_eq_pass (rn : Runner) (deadline : τ) (r : Run) (clock : κ) :
    rn.batch deadline (room rn.guard r) r clock =
      match rn.pass deadline r clock with
      | .leaves x => x
      | .goesOn r' clock' => rn.batch deadline (room rn.guard r') r' clock' := by
  have hpass := passed rn deadline r clock
  generalize hx : rn.pass deadline r clock = x at hpass ⊢
  cases hpass with
  | final hr => exact batch_final hr
  | late hr hd => exact batch_late hr hd
  | ended hr hd hs => exact batch_ended hr hd hs
  | waiting hr hd hs hc => exact batch_waiting hr hd hs hc
  | overrun hr hd hs hc hg =>
    -- the bound of the batch is used up just where the guard refuses
    have hzero : room rn.guard r = 0 := by
      have hroom := mt room_pos_iff.1 (by simp [hg] : ¬rn.guard.hasRoom r = true)
      omega
    rw [hzero]
    exact batch_overrun hr hd hs hc
  | failed hr hd hs hc hg hp =>
    have hroom := room_pos_iff.2 hg
    obtain ⟨n, hn⟩ : ∃ n, room rn.guard r = n + 1 := ⟨room rn.guard r - 1, by omega⟩
    rw [hn, batch_process hr hd hs hc hg, hp]
  | stepped hr hd hs hc hg hp =>
    have hleft := room_of_pass hx
    rw [hleft, batch_process hr hd hs hc hg, hp]

/-- Going on takes one unit of room each time, so it comes to an end by the guard if not before. -/
theorem loops_batch (rn : Runner) (deadline : τ) (r : Run) (clock : κ) :
    ∃ n, n ≤ room rn.guard r + 1 ∧
      Loops rn deadline n r clock (rn.batch deadline (room rn.guard r) r clock) := by
  induction hroom : room rn.guard r generalizing r clock with
  | zero =>
    rw [← hroom, batch_eq_pass]
    cases hp : rn.pass deadline r clock with
    | leaves x => exact ⟨1, by omega, .last hp⟩
    | goesOn r' clock' => exact absurd (room_of_pass hp) (by omega)
  | succ n ih =>
    rw [← hroom, batch_eq_pass]
    cases hp : rn.pass deadline r clock with
    | leaves x => exact ⟨1, by omega, .last hp⟩
    | goesOn r' clock' =>
      have hleft := room_of_pass hp
      have hnext : room rn.guard r' = n := by omega
      obtain ⟨m, hm, hloop⟩ := ih r' clock' hnext
      exact ⟨m + 1, by omega, .next hp (by simpa only [hnext] using hloop)⟩

theorem Loops.unique {n m : Nat} {x y : Run × Except Failure BatchEnd × κ}
    (hx : Loops rn deadline n r clock x) (hy : Loops rn deadline m r clock y) : n = m ∧ x = y := by
  induction hx generalizing m with
  | last hp =>
    cases hy with
    | last hq => rw [hp] at hq; cases hq; exact ⟨rfl, rfl⟩
    | next hq _ => rw [hp] at hq; cases hq
  | next hp _ ih =>
    cases hy with
    | last hq => rw [hp] at hq; cases hq
    | next hq hrest =>
      rw [hp] at hq
      cases hq
      obtain ⟨rfl, rfl⟩ := ih hrest
      exact ⟨rfl, rfl⟩

theorem Unhindered.pass (h : Unhindered rn deadline r clock) :
    (rn.guard.hasRoom r = false ∧ rn.pass deadline r clock =
      .leaves (r.fail .error rn.guard.overrunMessage, .ok .overrun, (Clock.read clock).2)) ∨
    ∃ r' clock', rn.pass deadline r clock = .goesOn r' clock' := by
  obtain ⟨hr, hd, s, hs, hc, hdone⟩ := h
  cases hg : rn.guard.hasRoom r with
  | false => exact .inl ⟨rfl, pass_overrun hr hd hs hc hg⟩
  | true =>
    obtain ⟨r', outcome, hp⟩ := hdone { r with iterations := r.iterations + 1 } (by
      simp [Guard.count, hg])
    refine .inr ⟨r', (Clock.read clock).2, ?_⟩
    simp [Runner.pass, hr, hd, hs, hc, Guard.count, hg, hp]

/-- A loop that nothing else ends leaves the run at the ceiling, with an entry for each step. -/
theorem batch_overruns (h : ∀ s c, Passes rn deadline r clock s c → Unhindered rn deadline s c) :
    ∃ s c added, rn.batch deadline (room rn.guard r) r clock = (s, .ok .overrun, c) ∧
      s.status = .error ∧ s.iterations = max r.iterations rn.guard.maxIterations ∧
      s.trail = r.trail ++ added ∧ added.length = room rn.guard r := by
  -- the room for steps counts down, one entry at a time, to the pass that finds none
  induction hroom : room rn.guard r generalizing r clock with
  | zero =>
    obtain ⟨-, hp⟩ | ⟨r', clock', hp⟩ := (h r clock .here).pass
    · refine ⟨_, _, [], by rw [← hroom, batch_eq_pass, hp], rfl, ?_, by simp [Run.fail], rfl⟩
      simp only [Run.fail, room] at hroom ⊢
      omega
    · exact absurd (room_of_pass hp) (by omega)
  | succ n ih =>
    obtain ⟨hg, -⟩ | ⟨r', clock', hp⟩ := (h r clock .here).pass
    · have hpos : rn.guard.hasRoom r = true := room_pos_iff.1 (by omega)
      simp [hg] at hpos
    · obtain ⟨hg, hcount, e, htrail⟩ := pass_goesOn hp
      have hleft := room_of_pass hp
      have hnext : room rn.guard r' = n := by omega
      obtain ⟨s, c, added, hbatch, hstatus, hiter, hadded, hlength⟩ :=
        ih (fun s c hs => h s c (.next hp hs)) hnext
      refine ⟨s, c, e :: added, ?_, hstatus, ?_, by simp [hadded, htrail], by simp [hlength]⟩
      · rw [← hroom, batch_eq_pass, hp]
        simp only [hnext]
        exact hbatch
      · have hmost : r.iterations < rn.guard.maxIterations := by simpa [Guard.hasRoom] using hg
        omega

/-- Batches end at the ceiling, wherever the steps of the workflow lead and whatever the run has
counted before. From an active run the loop leaves off after at most one pass for each step that is
left to the ceiling and one more. If no pass finds a final run, no step, a checkpoint, a step that
fails or the deadline reached, then the run is left in error with its count at the ceiling and one
new entry for each of these steps, and the flag is false. -/
theorem execute_exhausts (rn : Runner) (inputs : Store) (clock : κ) (hr : r.isFinal = false) :
    let work : Run := { r with inputs := r.inputs.merge inputs }
    let left := max 0 (rn.guard.maxIterations - r.iterations)
    (∀ (deadline : τ) (clock : κ),
      (∃ n, Loops rn deadline n work clock (rn.batch deadline (room rn.guard work) work clock)) ∧
      ∀ n x, Loops rn deadline n work clock x → (n : Int) ≤ left + 1) ∧
    ∀ deadline, rn.guard.deadline (Clock.read clock).1 = .ok deadline →
      (∀ s c, Passes rn deadline work (Clock.read clock).2 s c → Unhindered rn deadline s c) →
      ∃ r' clock' added, rn.execute r inputs clock = (r', .ok false, clock') ∧
        r'.status = .error ∧ r'.iterations = max r.iterations rn.guard.maxIterations ∧
        r'.trail = r.trail ++ added ∧ (added.length : Int) = left := by
  intro work left
  have hroom : (room rn.guard work : Int) = left := by
    simp only [room, work, left]
    omega
  refine ⟨fun deadline clock => ⟨?_, fun n x hx => ?_⟩, fun deadline hd hpasses => ?_⟩
  · obtain ⟨n, -, hloop⟩ := loops_batch rn deadline work clock
    exact ⟨n, hloop⟩
  · obtain ⟨m, hm, hloop⟩ := loops_batch rn deadline work clock
    obtain ⟨rfl, -⟩ := hx.unique hloop
    omega
  · obtain ⟨s, c, added, hbatch, hstatus, hcount, htrail, hadded⟩ := batch_overruns hpasses
    refine ⟨s, c, added, ?_, hstatus, hcount, htrail, by omega⟩
    simp only [execute, hr, Bool.false_eq_true, if_false, hd]
    rw [hbatch]
    rfl

def treadmill : Runner where
  workflow := ⟨"treadmill", "Treadmill", true, some "again",
    [⟨"again", "Again", none, [], [⟨some "again", none, none⟩], .action ⟨none, []⟩, []⟩]⟩
  guard := ⟨3, .real (.inf false)⟩

theorem treadmill_unhindered (hr : r.status = .active) (hp : r.position = .node "again") :
    Unhindered treadmill (.inf false) r SteadyClock.stopped := by
  obtain ⟨id, workflowId, status, position, stoppedAt, trail, results, inputs, iterations⟩ := r
  cases hr
  cases hp
  refine ⟨rfl, rfl, _, rfl, rfl, fun counted hcount => ?_⟩
  simp only [Guard.count] at hcount
  split at hcount <;> cases hcount
  exact ⟨_, _, rfl⟩

theorem treadmill_goesOn {clock' : SteadyClock} (hr : r.status = .active)
    (hp : r.position = .node "again")
    (h : treadmill.pass (.inf false) r SteadyClock.stopped = .goesOn r' clock') :
    r'.status = .active ∧ r'.position = .node "again" ∧ clock' = .stopped := by
  obtain ⟨id, workflowId, status, position, stoppedAt, trail, results, inputs, iterations⟩ := r
  cases hr
  cases hp
  obtain ⟨hg, -⟩ := pass_goesOn h
  rw [pass_process rfl rfl rfl rfl hg, process_eq rfl rfl rfl hg] at h
  cases h
  exact ⟨rfl, rfl, rfl⟩

theorem treadmill_passes {s : Run} {clock c : SteadyClock}
    (h : Passes treadmill (.inf false) r clock s c) (hr : r.status = .active)
    (hp : r.position = .node "again") (hc : clock = .stopped) :
    s.status = .active ∧ s.position = .node "again" ∧ c = .stopped := by
  induction h with
  | here => exact ⟨hr, hp, hc⟩
  | next hpass _ ih =>
    subst hc
    obtain ⟨hr', hp', hc'⟩ := treadmill_goesOn hr hp hpass
    exact ih hr' hp' hc'

theorem execute_exhausts_sample :
    (treadmill.opening "run" []).isFinal = false ∧
      ∃ r' clock' added,
        treadmill.execute (treadmill.opening "run" []) [] SteadyClock.stopped =
          (r', .ok false, clock') ∧
        r'.status = .error ∧ r'.iterations = 3 ∧ r'.trail = added ∧ added.length = 3 := by
  have hactive : (treadmill.opening "run" []).isFinal = false := rfl
  obtain ⟨r', clock', added, hrun, hstatus, hcount, htrail, hadded⟩ :=
    (execute_exhausts treadmill [] SteadyClock.stopped hactive).2 (.inf false) rfl
      fun s c h => by
        obtain ⟨hr, hp, rfl⟩ := treadmill_passes h rfl rfl rfl
        exact treadmill_unhindered hr hp
  have hleft : max 0 (treadmill.guard.maxIterations - (treadmill.opening "run" []).iterations) = 3 :=
    rfl
  exact ⟨hactive, r', clock', added, hrun, hstatus, hcount, htrail, by omega⟩

end Runbook.Runner
