import Runbook.Proofs.ConvertedRuns

/-! Calls that are refused. Nothing is counted or written on the way to a refusal: the run stays as
it is, except that the guard ends a run that has no room left for the step, and that a run which
stands at no step is complete. -/
namespace Runbook

/-- Whether a call acts on a step: checkpoints are answered, all other steps are processed. -/
def Interaction.actsOn : Interaction → Step → Bool
  | .process _, s => !s.isCheckpoint
  | .answerCheckpoint .., s => s.isCheckpoint

namespace Workflow
variable {w : Workflow} {now : Instant} {r : Run} {s : Step} {a resolved notes : Value} {o : Outcome}

theorem process_declined (h : (w.process now r s a).2 = .ok o) (ho : o.isAdvanced = false) :
    (w.process now r s a).1 = r := by
  unfold process at h ⊢
  split at h
  · next hr => rw [if_pos hr]
  · next hr =>
    rw [if_neg hr]
    split at h
    · next hc => rw [if_pos hc]
    · -- A step that is gone through either advances or fails.
      simp only at h
      split at h
      · cases h
        cases ho
      · cases h

theorem answerCheckpoint_declined (h : (w.answerCheckpoint now r resolved notes).2 = .ok o)
    (ho : o.isAdvanced = false) : (w.answerCheckpoint now r resolved notes).1 = r := by
  cases hr : r.isFinal with
  | true => simp [answerCheckpoint, hr]
  | false =>
    cases hs : (w.stepAt? r.position).filter (·.isCheckpoint) with
    | none => simp [answerCheckpoint, hr, hs]
    | some s =>
      obtain ⟨hs, hc⟩ := Option.filter_eq_some_iff.1 hs
      rw [answerCheckpoint_eq hr hs hc] at h
      split at h
      · cases h
      · simp only at h
        split at h
        · cases h
          cases ho
        · cases h

end Workflow

namespace Runner

/-- The call would act on the step where the run stands, but all steps that the guard allows are
used up. -/
structure AtCeiling (rn : Runner) (r : Run) (c : Interaction) : Prop where
  active : r.status = .active
  due : ∃ s, rn.currentStep? r = some s ∧ c.actsOn s = true
  full : rn.guard.maxIterations ≤ r.iterations

/-- The call would process a step, but the run is active and stands at none. -/
structure Astray (rn : Runner) (r : Run) (c : Interaction) : Prop where
  active : r.status = .active
  process : ∃ a, c = .process a
  nowhere : rn.currentStep? r = none

variable {rn : Runner} {now : Instant} {r r' : Run} {a resolved notes : Value} {c : Interaction}

theorem not_atCeiling {s : Step} (hs : rn.currentStep? r = some s) (hc : c.actsOn s = false) :
    ¬rn.AtCeiling r c := by
  rintro ⟨-, ⟨t, ht, hacts⟩, -⟩
  rw [hs] at ht
  cases ht
  simp [hc] at hacts

theorem not_astray {s : Step} (hs : rn.currentStep? r = some s) : ¬rn.Astray r c := by
  rintro ⟨-, -, hnone⟩
  simp [hs] at hnone

theorem full_of_hasRoom (h : rn.guard.hasRoom r = false) :
    rn.guard.maxIterations ≤ r.iterations := by
  simpa [Guard.hasRoom] using h

/-- All that a call which is refused can leave of a run. -/
def Declined (rn : Runner) (r : Run) (c : Interaction) (r' : Run) : Prop :=
  (rn.AtCeiling r c ∧ r' = { r with
    status := .error
    results := r.results.put Run.errorKey (.text rn.guard.overrunMessage) }) ∨
  (rn.Astray r c ∧ r' = { r with
    status := .completed
    position := rn.workflow.endPosition }) ∨
  (¬rn.AtCeiling r c ∧ ¬rn.Astray r c ∧ r' = r)

theorem declined_final (hr : r.isFinal = true) : rn.Declined r c r := by
  have hactive : r.status ≠ .active := fun h => by simp [Run.isFinal_eq_false.2 h] at hr
  exact .inr (.inr ⟨fun h => hactive h.active, fun h => hactive h.active, rfl⟩)

theorem declined_overrun {s : Step} (hr : r.isFinal = false) (hs : rn.currentStep? r = some s)
    (hc : c.actsOn s = true) (hg : rn.guard.hasRoom r = false) :
    rn.Declined r c (r.fail .error rn.guard.overrunMessage) :=
  .inl ⟨⟨Run.isFinal_eq_false.1 hr, ⟨s, hs, hc⟩, full_of_hasRoom hg⟩, rfl⟩

theorem declined_elsewhere {s : Step} (hs : rn.currentStep? r = some s)
    (hc : c.actsOn s = false) : rn.Declined r c r :=
  .inr (.inr ⟨not_atCeiling hs hc, not_astray hs, rfl⟩)

theorem process_declined (h : rn.process now r a = (r', .ok false)) :
    rn.Declined r (.process a) r' := by
  cases hr : r.isFinal with
  | true =>
    rw [process_final hr] at h
    cases h
    exact declined_final hr
  | false =>
    generalize hb : false = b at h
    cases processed hr h with
    | ended hs => exact .inr (.inl ⟨⟨Run.isFinal_eq_false.1 hr, ⟨a, rfl⟩, hs⟩, rfl⟩)
    | waiting hs hc => exact declined_elsewhere hs (by simp [Interaction.actsOn, hc])
    | overrun hs hc hg => exact declined_overrun hr hs (by simp [Interaction.actsOn, hc]) hg
    | advanced => cases hb

theorem answerCheckpoint_declined (h : rn.answerCheckpoint now r resolved notes = (r', .ok false)) :
    rn.Declined r (.answerCheckpoint resolved notes) r' := by
  cases hr : r.isFinal with
  | true =>
    rw [answerCheckpoint_final hr] at h
    cases h
    exact declined_final hr
  | false =>
    generalize hb : false = b at h
    cases answered hr h with
    | refused hs =>
      -- No step stands there, or one that is no checkpoint.
      have hceiling : ¬rn.AtCeiling r (.answerCheckpoint resolved notes) := by
        rintro ⟨-, ⟨s, hcurrent, hacts⟩, -⟩
        simp only [hcurrent, Option.any_some] at hs
        simp [Interaction.actsOn, hs] at hacts
      have hastray : ¬rn.Astray r (.answerCheckpoint resolved notes) := by
        rintro ⟨-, ⟨a, ha⟩, -⟩
        cases ha
      exact .inr (.inr ⟨hceiling, hastray, rfl⟩)
    | overrun hs hc hg => exact declined_overrun hr hs hc hg
    | advanced => cases hb

theorem converse_waiting {s : Step} (hr : r.status = .active) (hs : rn.currentStep? r = some s)
    (hc : s.isCheckpoint = true) (times : Nat → Instant) (answers : List Value) :
    rn.converse times r (answers.map .process) = (r, answers.map fun _ => .ok false) := by
  induction answers generalizing times with
  | nil => rfl
  | cons a answers ih =>
    have hcall : rn.process (times 0) r a = (r, .ok false) :=
      process_waiting (Run.isFinal_eq_false.2 hr) hs hc
    simp only [List.map_cons, converse, interact, hcall, ih]

/-- A call that is refused changes nothing else. On any run, a call that answers no leaves the run
as it was, unless it would have acted on the step where the run stands and the guard has no room
left, which ends the run with an error and its message, or it would have processed a step and there
is none, which completes the run. Without the guard, what is blocked or rejected changes nothing at
all; and a run that waits at a checkpoint stays the same however often it is processed. -/
theorem refusal_changes_nothing_else (rn : Runner) (now : Instant) (r : Run) :
    (∀ c, (rn.interact now r c).2 = .ok false → rn.Declined r c (rn.interact now r c).1) ∧
    (∀ s a o, (rn.workflow.process now r s a).2 = .ok o → o.isAdvanced = false →
      (rn.workflow.process now r s a).1 = r) ∧
    (∀ resolved notes o, (rn.workflow.answerCheckpoint now r resolved notes).2 = .ok o →
      o.isAdvanced = false → (rn.workflow.answerCheckpoint now r resolved notes).1 = r) ∧
    ∀ s, r.status = .active → rn.currentStep? r = some s → s.isCheckpoint = true →
      ∀ times (answers : List Value),
        rn.converse times r (answers.map .process) = (r, answers.map fun _ => .ok false) := by
  refine ⟨fun c h => ?_, fun s a o => Workflow.process_declined,
    fun resolved notes o => Workflow.answerCheckpoint_declined, fun s hr hs hc times answers =>
      converse_waiting hr hs hc times answers⟩
  cases c with
  | process a => exact process_declined (Prod.ext rfl h)
  | answerCheckpoint resolved notes => exact answerCheckpoint_declined (Prod.ext rfl h)

theorem refusal_changes_nothing_else_sample :
    let full := { sample.opening "run" [] with iterations := 10 }
    (sample.interact .leapDay full (.process (.text "yes"))).2 = .ok false ∧
      sample.Declined full (.process (.text "yes"))
        (sample.interact .leapDay full (.process (.text "yes"))).1 ∧
      (sample.workflow.answerCheckpoint .leapDay full (.flag true) .null).2 =
        .ok (.rejected (.index 0) "current step is not a checkpoint") ∧
      (sample.workflow.answerCheckpoint .leapDay full (.flag true) .null).1 = full := by
  intro full
  obtain ⟨hcalls, -, hanswers, -⟩ := refusal_changes_nothing_else sample .leapDay full
  exact ⟨rfl, hcalls (.process (.text "yes")) rfl, rfl,
    hanswers (.flag true) .null _ rfl rfl⟩

end Runner
end Runbook
