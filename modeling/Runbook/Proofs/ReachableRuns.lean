import Runbook.Proofs.BatchCalls
import Runbook.Proofs.ReadGuarantees

/-! Runs that a runner's calls can reach, and what holds of all of them: the count and the trail go
together, an active run stands at a step, a guard that ended the run left its message, and each entry
tells of a step of the workflow. -/
namespace Runbook

/-- A call of a runner on a run, at some time. A batch brings its own inputs and clock. -/
inductive Call (κ : Type) where
  | process (now : Instant) (answer : Value)
  | answerCheckpoint (now : Instant) (resolved notes : Value)
  | execute (inputs : Store) (clock : κ)
  | stop (place : Value)

/-- What one run keeps true through all its calls. -/
structure Run.Sound (r : Run) (w : Workflow) (g : Guard) : Prop where
  counted : (r.trail.length : Int) = r.iterations
  bounded : r.iterations ≤ g.maxIterations
  stands : r.status = .active → ∃ s, w.stepAt? r.position = some s
  ended : r.status = .completed → r.position = w.endPosition
  overran : r.status = .error → r.iterations = g.maxIterations ∧ r.error = .text g.overrunMessage
  timedOut : r.status = .timeout → r.error = .text g.timeoutMessage
  begun : r.trail = [] → r.status = .active → r.position = w.startPosition
  first : ∀ e, r.trail.head? = some e → e.position = w.startPosition
  told : ∀ e ∈ r.trail, ∃ s, w.stepAt? e.position = some s ∧ e.TellsOf e.position s

namespace Run.Sound
variable {r : Run} {w : Workflow} {g : Guard}

theorem finish (h : r.Sound w g) : (r.finish w).Sound w g where
  counted := h.counted
  bounded := h.bounded
  stands := nofun
  ended _ := rfl
  overran := nofun
  timedOut := nofun
  begun _ := nofun
  first := h.first
  told := h.told

theorem overrun (h : r.Sound w g) (hg : g.hasRoom r = false) :
    (r.fail .error g.overrunMessage).Sound w g where
  counted := h.counted
  bounded := h.bounded
  stands := nofun
  ended := nofun
  overran _ := by
    have hfull : ¬r.iterations < g.maxIterations := by simpa [Guard.hasRoom] using hg
    have hbound := h.bounded
    exact ⟨by simp only [Run.fail]; omega, by simp [Run.error, Run.fail]⟩
  timedOut := nofun
  begun _ := nofun
  first := h.first
  told := h.told

theorem late (h : r.Sound w g) : (r.fail .timeout g.timeoutMessage).Sound w g where
  counted := h.counted
  bounded := h.bounded
  stands := nofun
  ended := nofun
  overran := nofun
  timedOut _ := by simp [Run.error, Run.fail]
  begun _ := nofun
  first := h.first
  told := h.told

theorem stop (h : r.Sound w g) (place : Value) : (r.stop place).Sound w g where
  counted := h.counted
  bounded := h.bounded
  stands := nofun
  ended := nofun
  overran := nofun
  timedOut := nofun
  begun _ := nofun
  first := h.first
  told := h.told

theorem inputs (h : r.Sound w g) (inputs : Store) : ({ r with inputs } : Run).Sound w g where
  counted := h.counted
  bounded := h.bounded
  stands := h.stands
  ended := h.ended
  overran := h.overran
  timedOut := h.timedOut
  begun := h.begun
  first := h.first
  told := h.told

theorem stepped {s : Step} {results inputs : Store} {e : Entry} {p : Position}
    (h : r.Sound w g) (hr : r.status = .active) (hg : g.hasRoom r = true)
    (hs : w.stepAt? r.position = some s) (he : e.TellsOf r.position s) (hp : w.Lands p) :
    (r.stepped w results inputs e p).Sound w g where
  counted := by simp [h.counted]
  bounded := by
    have hroom : r.iterations < g.maxIterations := by simpa [Guard.hasRoom] using hg
    simp only [Run.stepped_iterations]
    omega
  stands := Run.stands_stepped _ _ _ _ _ _ hp
  ended := by
    rw [Run.stepped_status, Run.stepped_position]
    cases hend : w.isPastEnd p with
    | true => exact fun _ => rfl
    | false => simp [hr]
  overran := by rw [Run.stepped_status]; split <;> simp [hr]
  timedOut := by rw [Run.stepped_status]; split <;> simp [hr]
  begun := by simp
  first := by
    intro f hf
    rw [Run.stepped_trail] at hf
    -- With no entry yet the run still stands at the start, so the new entry is placed there.
    cases ht : r.trail with
    | nil =>
      simp only [ht, List.nil_append, List.head?_cons, Option.some.injEq] at hf
      rw [← hf, he.position]
      exact h.begun ht hr
    | cons first rest =>
      refine h.first f ?_
      simpa [ht] using hf
  told := by
    intro f hf
    rw [Run.stepped_trail, List.mem_append, List.mem_singleton] at hf
    cases hf with
    | inl hf => exact h.told f hf
    | inr hf =>
      subst hf
      rw [he.position]
      exact ⟨s, hs, he⟩

end Run.Sound

namespace Runner
variable {rn : Runner} {now : Instant} {r r' : Run}

theorem start_sound {id : String} {inputs : Store} (hg : 0 ≤ rn.guard.maxIterations)
    (h : rn.start id inputs = .ok r) : r.Sound rn.workflow rn.guard := by
  obtain ⟨hs, rfl⟩ | ⟨s, hs, rfl⟩ := started h
  · constructor <;> simp [opening, Run.finish, hg]
  · constructor <;> simp [opening, hg, hs]

theorem process_sound {a : Value} {b : Bool} (hn : rn.workflow.Named)
    (hr : r.Sound rn.workflow rn.guard) (h : rn.process now r a = (r', .ok b)) :
    r'.Sound rn.workflow rn.guard := by
  cases hf : r.isFinal with
  | true =>
    rw [process_final hf] at h
    cases h
    exact hr
  | false =>
    cases processed hf h with
    | ended _ => exact hr.finish
    | waiting _ _ => exact hr
    | overrun _ _ hg => exact hr.overrun hg
    | advanced hs _ hg hway =>
      refine hr.stepped (Run.isFinal_eq_false.1 hf) hg hs (Workflow.entryAfter_tellsOf ..) ?_
      cases Workflow.way_leads hway with
      | inl hend => rw [hend]; exact rn.workflow.lands_endPosition
      | inr hleads => exact hleads.lands hn

theorem answerCheckpoint_sound {resolved notes : Value} {b : Bool} (hn : rn.workflow.Named)
    (hr : r.Sound rn.workflow rn.guard)
    (h : rn.answerCheckpoint now r resolved notes = (r', .ok b)) :
    r'.Sound rn.workflow rn.guard := by
  cases hf : r.isFinal with
  | true =>
    rw [answerCheckpoint_final hf] at h
    cases h
    exact hr
  | false =>
    cases answered hf h with
    | refused _ => exact hr
    | overrun _ _ hg => exact hr.overrun hg
    | advanced hs _ hg he hway =>
      refine hr.stepped (Run.isFinal_eq_false.1 hf) hg hs
        (Workflow.checkpointEntry_tellsOf he) ?_
      cases Workflow.checkpointWay_leads hway with
      | inl hend => rw [hend]; exact rn.workflow.lands_endPosition
      | inr hleads => exact hleads.lands hn

variable {κ τ : Type} [Moment τ] [Clock κ τ]

theorem execute_sound {inputs : Store} {clock clock' : κ} {b : Bool} (hn : rn.workflow.Named)
    (hr : r.Sound rn.workflow rn.guard)
    (h : rn.execute r inputs clock = (r', .ok b, clock')) : r'.Sound rn.workflow rn.guard := by
  cases hf : r.isFinal with
  | true =>
    rw [execute_final hf] at h
    cases h
    exact hr
  | false =>
    obtain ⟨deadline, s, halt, c, hdrive, hcommit⟩ := execute_driven hf h
    have hsound : s.Sound rn.workflow rn.guard :=
      drive_invariant (fun _ _ _ _ _ hr _ hp => process_sound hn hr hp) (hr.inputs _) hdrive
    obtain rfl | rfl := commit_run hcommit
    · exact hsound
    · exact hsound.late

def call (rn : Runner) (r : Run) : Call κ → Run × Except Failure Unit
  | .process now a => ((rn.process now r a).1, (rn.process now r a).2.map fun _ => ())
  | .answerCheckpoint now resolved notes =>
    ((rn.answerCheckpoint now r resolved notes).1,
      (rn.answerCheckpoint now r resolved notes).2.map fun _ => ())
  | .execute inputs clock =>
    ((rn.execute r inputs clock).1, (rn.execute r inputs clock).2.1.map fun _ => ())
  | .stop place => (r.stop place, .ok ())

/-- The runs that a start and calls after it lead to, where every call returns. -/
inductive Reached (κ : Type) {τ : Type} [Moment τ] [Clock κ τ] (rn : Runner) : Run → Prop where
  | start {id : String} {inputs : Store} {r : Run} : rn.start id inputs = .ok r → Reached κ rn r
  | call {r r' : Run} {c : Call κ} : Reached κ rn r → rn.call r c = (r', .ok ()) → Reached κ rn r'

theorem call_cases {P : Run → Prop} {c : Call κ} (h : rn.call r c = (r', .ok ()))
    (process : ∀ now a b r', rn.process now r a = (r', .ok b) → P r')
    (answer : ∀ now resolved notes b r',
      rn.answerCheckpoint now r resolved notes = (r', .ok b) → P r')
    (execute : ∀ inputs (clock clock' : κ) b r',
      rn.execute r inputs clock = (r', .ok b, clock') → P r')
    (stop : ∀ place, P (r.stop place)) : P r' := by
  cases c with
  | process now a =>
    simp only [call, Prod.mk.injEq] at h
    obtain ⟨hr, hx⟩ := h
    cases hb : (rn.process now r a).2 with
    | error e => simp [hb, Except.map] at hx
    | ok b => exact process now a b r' (Prod.ext hr hb)
  | answerCheckpoint now resolved notes =>
    simp only [call, Prod.mk.injEq] at h
    obtain ⟨hr, hx⟩ := h
    cases hb : (rn.answerCheckpoint now r resolved notes).2 with
    | error e => simp [hb, Except.map] at hx
    | ok b => exact answer now resolved notes b r' (Prod.ext hr hb)
  | execute inputs clock =>
    simp only [call, Prod.mk.injEq] at h
    obtain ⟨hr, hx⟩ := h
    cases hb : (rn.execute r inputs clock).2.1 with
    | error e => simp [hb, Except.map] at hx
    | ok b => exact execute inputs clock _ b r' (Prod.ext hr (Prod.ext hb rfl))
  | stop place =>
    simp only [call, Prod.mk.injEq] at h
    rw [← h.1]
    exact stop place

theorem call_sound {c : Call κ} (hn : rn.workflow.Named) (hr : r.Sound rn.workflow rn.guard)
    (h : rn.call r c = (r', .ok ())) : r'.Sound rn.workflow rn.guard :=
  call_cases h (fun _ _ _ _ hp => process_sound hn hr hp)
    (fun _ _ _ _ _ ha => answerCheckpoint_sound hn hr ha)
    (fun _ _ _ _ _ he => execute_sound hn hr he) hr.stop

theorem process_trail {a : Value} {b : Bool} (h : rn.process now r a = (r', .ok b)) :
    r.trail <+: r'.trail := by
  cases hf : r.isFinal with
  | true =>
    rw [process_final hf] at h
    cases h
    exact List.prefix_rfl
  | false =>
    cases processed hf h with
    | ended _ => exact List.prefix_rfl
    | waiting _ _ => exact List.prefix_rfl
    | overrun _ _ _ => exact List.prefix_rfl
    | advanced _ _ _ _ => simp

theorem answerCheckpoint_trail {resolved notes : Value} {b : Bool}
    (h : rn.answerCheckpoint now r resolved notes = (r', .ok b)) : r.trail <+: r'.trail := by
  cases hf : r.isFinal with
  | true =>
    rw [answerCheckpoint_final hf] at h
    cases h
    exact List.prefix_rfl
  | false =>
    cases answered hf h with
    | refused _ => exact List.prefix_rfl
    | overrun _ _ _ => exact List.prefix_rfl
    | advanced _ _ _ _ _ => simp

theorem execute_trail {inputs : Store} {clock clock' : κ} {b : Bool}
    (h : rn.execute r inputs clock = (r', .ok b, clock')) : r.trail <+: r'.trail := by
  cases hf : r.isFinal with
  | true =>
    rw [execute_final hf] at h
    cases h
    exact List.prefix_rfl
  | false =>
    obtain ⟨deadline, s, halt, c, hdrive, hcommit⟩ := execute_driven hf h
    have hprefix : r.trail <+: s.trail := by
      refine drive_invariant (P := fun s => r.trail <+: s.trail)
        (fun _ _ _ _ _ hr _ hp => hr.trans (process_trail hp)) ?_ hdrive
      exact List.prefix_rfl
    obtain rfl | rfl := commit_run hcommit <;> exact hprefix

theorem call_trail {c : Call κ} (h : rn.call r c = (r', .ok ())) : r.trail <+: r'.trail :=
  call_cases (P := fun r' => r.trail <+: r'.trail) h (fun _ _ _ _ => process_trail)
    (fun _ _ _ _ _ => answerCheckpoint_trail) (fun _ _ _ _ _ => execute_trail)
    fun _ => List.prefix_rfl

/-- Whatever calls return on a run from its start on, in whatever order, the run stays sound and
its trail only grows. -/
theorem reached_sound (hn : rn.workflow.Named) (hg : 0 ≤ rn.guard.maxIterations)
    (h : Reached κ rn r) :
    r.Sound rn.workflow rn.guard ∧
      ∀ (c : Call κ) r', rn.call r c = (r', .ok ()) → r.trail <+: r'.trail := by
  refine ⟨?_, fun _ _ => call_trail⟩
  induction h with
  | start hs => exact start_sound hg hs
  | call _ hc ih => exact call_sound hn ih hc

/-- A run under limits that are read, which always leave room for a step. -/
theorem reached_sound_sample :
    ∃ l, (Limits.read (.record [("max_iterations", .whole 3)])).toExcept "LimitsConfig" = .ok l ∧
      let rn : Runner := ⟨sample.workflow, .ofLimits l⟩
      (rn.process .leapDay (rn.opening "run" []) (.text "yes")).1.Sound rn.workflow rn.guard := by
  have hread : (Limits.read (.record [("max_iterations", .whole 3)])).toExcept "LimitsConfig" =
      .ok { Limits.standard with maxIterations := 3 } := rfl
  refine ⟨_, hread, ?_⟩
  intro rn
  have hstart : rn.start "run" [] = .ok (rn.opening "run" []) := rfl
  have hanswer : rn.call (rn.opening "run" []) (.process .leapDay (.text "yes") : Call SteadyClock) =
      ((rn.process .leapDay (rn.opening "run" []) (.text "yes")).1, .ok ()) := rfl
  have hnamed : rn.workflow.Named := by decide
  have hroom : 0 ≤ rn.guard.maxIterations := Int.le_of_lt (Limits.maxIterations_pos hread)
  exact (reached_sound hnamed hroom ((Reached.start hstart).call hanswer)).1

end Runner
end Runbook
