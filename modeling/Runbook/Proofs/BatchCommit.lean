import Runbook.Proofs.BatchCeiling
import Runbook.Proofs.FailedCalls

/-! What a batch leaves behind: the state in which its loop ended, also where the guard ended it, or
the run it was called on if a step failed, at whatever pass that was. -/
namespace Runbook.Runner
variable {κ τ : Type} [Moment τ] [Clock κ τ] {rn : Runner} {deadline : τ} {r : Run}
  {clock : κ} {n : Nat}

theorem pass_leaves {x : Run × Except Failure BatchEnd × κ}
    (h : rn.pass deadline r clock = .leaves x) :
    (∃ how, x.2.1 = .ok how ∧ x.1.id = r.id ∧ x.1.workflowId = r.workflowId) ∨
      ∃ e, x.2.1 = .error e ∧
        rn.process (Clock.now (Clock.read clock).2) r (rn.answerHere r) = (x.1, .error e) := by
  have hpass := passed rn deadline r clock
  rw [h] at hpass
  cases hpass with
  | failed hr hd hs hc hg hp => exact .inr ⟨_, rfl, hp⟩
  | _ => exact .inl ⟨_, rfl, rfl, rfl⟩

/-- A loop that fails has gone on without a failure up to its last pass, and left one more entry at
each. -/
theorem Loops.failed {x : Run × Except Failure BatchEnd × κ} {e : Failure}
    (h : Loops rn deadline n r clock x) (hx : x.2.1 = .error e) :
    ∃ mid c, Passes rn deadline r clock mid c ∧ mid.trail.length + 1 = r.trail.length + n ∧
      rn.process (Clock.now (Clock.read c).2) mid (rn.answerHere mid) = (x.1, .error e) := by
  induction h with
  | last hp =>
    obtain ⟨how, hok, -⟩ | ⟨e', he, hfailed⟩ := pass_leaves hp
    · cases hok.symm.trans hx
    · cases he.symm.trans hx
      exact ⟨_, _, .here, rfl, hfailed⟩
  | next hp _ ih =>
    obtain ⟨mid, c, hpasses, hlength, hfailed⟩ := ih hx
    obtain ⟨-, -, entry, htrail⟩ := pass_goesOn hp
    refine ⟨mid, c, .next hp hpasses, ?_, hfailed⟩
    simp only [htrail, List.length_append, List.length_singleton] at hlength
    omega

theorem Loops.names {x : Run × Except Failure BatchEnd × κ} {how : BatchEnd}
    (h : Loops rn deadline n r clock x) (hx : x.2.1 = .ok how) :
    x.1.id = r.id ∧ x.1.workflowId = r.workflowId := by
  induction h with
  | last hp =>
    obtain ⟨-, -, hnames⟩ | ⟨e, he, -⟩ := pass_leaves hp
    · exact hnames
    · cases he.symm.trans hx
  | next hp _ ih =>
    obtain ⟨s, route, -, -, rfl⟩ := pass_stepped hp
    simpa using ih hx

/-- What a batch leaves of the run it was called on, from what its loop leaves of the copy. -/
def publish (r : Run) : Run × Except Failure BatchEnd × κ → Run × Except Failure Bool × κ
  | (s, .ok how, clock) => (s, .ok (how == .ended), clock)
  | (_, .error e, clock) => (r, .error e, clock)

theorem execute_loops (inputs : Store) (hr : r.isFinal = false)
    (hd : rn.guard.deadline (Clock.read clock).1 = .ok deadline) :
    ∃ n x, Loops rn deadline n { r with inputs := r.inputs.merge inputs } (Clock.read clock).2 x ∧
      rn.execute r inputs clock = publish r x := by
  obtain ⟨n, -, hloop⟩ :=
    loops_batch rn deadline { r with inputs := r.inputs.merge inputs } (Clock.read clock).2
  refine ⟨n, _, hloop, ?_⟩
  simp only [execute, hr, Bool.false_eq_true, if_false, hd]
  rfl

/-- A batch is all or nothing. If it fails, the run is what it was before, its inputs and its count
included. It fails where no deadline can be set, and where the loop fails: after a number of passes
that have each left an entry in the copy, at a step that fails. Otherwise the run holds what the
loop has left of the copy, also where the deadline or the ceiling ended it, and goes by the same
names. -/
theorem execute_all_or_nothing (rn : Runner) (r : Run) (inputs : Store) (clock : κ) :
    (∀ e, (rn.execute r inputs clock).2.1 = .error e → (rn.execute r inputs clock).1 = r) ∧
    (r.isFinal = true → rn.execute r inputs clock = (r, .ok false, clock)) ∧
    (r.isFinal = false →
      (∀ e, rn.guard.deadline (Clock.read clock).1 = .error e →
        rn.execute r inputs clock = (r, .error e, (Clock.read clock).2)) ∧
      ∀ deadline, rn.guard.deadline (Clock.read clock).1 = .ok deadline →
        let work : Run := { r with inputs := r.inputs.merge inputs }
        ∃ n s x c, Loops rn deadline n work (Clock.read clock).2 (s, x, c) ∧
          (∀ how, x = .ok how → rn.execute r inputs clock = (s, .ok (how == .ended), c) ∧
            s.id = r.id ∧ s.workflowId = r.workflowId) ∧
          ∀ e, x = .error e → rn.execute r inputs clock = (r, .error e, c) ∧
            ∃ mid c', Passes rn deadline work (Clock.read clock).2 mid c' ∧
              mid.trail.length + 1 = r.trail.length + n ∧
              rn.process (Clock.now (Clock.read c').2) mid (rn.answerHere mid) = (s, .error e)) := by
  refine ⟨fun e => execute_failed, execute_final, fun hr => ⟨fun e he => ?_, fun deadline hd => ?_⟩⟩
  · rw [execute_eq hr, he]
  · intro work
    obtain ⟨n, ⟨s, x, c⟩, hloop, hrun⟩ := execute_loops inputs hr hd
    refine ⟨n, s, x, c, hloop, fun how hx => ?_, fun e hx => ?_⟩
    · subst hx
      exact ⟨hrun, hloop.names rfl⟩
    · subst hx
      exact ⟨hrun, hloop.failed rfl⟩

/-- The number passes the question and is too large for the decision after it. -/
theorem execute_all_or_nothing_levels :
    (levels.execute (levels.opening "run" []) [(.text "level", .whole (tenTo 400))]
        SteadyClock.stopped).2.1.toBool = false ∧
      (levels.execute (levels.opening "run" []) [(.text "level", .whole (tenTo 400))]
        SteadyClock.stopped).1 = levels.opening "run" [] := by
  have hfailed : (levels.execute (levels.opening "run" []) [(.text "level", .whole (tenTo 400))]
      SteadyClock.stopped).2.1.toBool = false := by
    decide +kernel
  refine ⟨hfailed, ?_⟩
  cases hx : (levels.execute (levels.opening "run" []) [(.text "level", .whole (tenTo 400))]
      SteadyClock.stopped).2.1 with
  | error e =>
    exact (execute_all_or_nothing levels (levels.opening "run" [])
      [(.text "level", .whole (tenTo 400))] SteadyClock.stopped).1 e hx
  | ok b => simp [hx, Except.toBool] at hfailed

end Runbook.Runner
