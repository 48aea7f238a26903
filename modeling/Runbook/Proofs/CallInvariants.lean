import Mathlib.Logic.Relation
import Runbook.Proofs.FailedCalls
import Runbook.Proofs.ReachableRuns

/-! Runs that a runner's calls lead to, whether the calls return or fail and whatever callers give.
A call makes a few changes to a run, each of one kind, so what holds at the start and is kept by
every kind of change holds of all these runs. -/
namespace Runbook

/-- What a step leaves in the results of a run: its own writes, or the text of a checkpoint that has
been answered. -/
inductive Step.Leaves (s : Step) (r : Run) : Store → Prop where
  | writes (a : Value) : s.Leaves r (Workflow.writes s r a).results
  | checkpoint (resolved : Value) :
      s.Leaves r (r.results.record s.title (Workflow.checkpointText resolved))

namespace Runner

/-- One change that a call makes to a run. The step that it is about is the one where the run stands;
a step that breaks off may have left its writes and its entry, and is counted. -/
inductive Change (rn : Runner) (r : Run) : Run → Prop where
  | ended : r.status = .active → rn.currentStep? r = none → Change rn r (r.finish rn.workflow)
  | cut {status : Status} (message : String) : status ≠ .active → Change rn r (r.fail status message)
  | stopped (place : Value) : Change rn r (r.stop place)
  | supplied (inputs : Store) : Change rn r { r with inputs }
  | stepped {s : Step} {results : Store} (inputs : Store) {e : Entry} {p : Position} :
      r.status = .active → rn.currentStep? r = some s → s.Leaves r results →
      e.TellsOf r.position s → p = rn.workflow.endPosition ∨ rn.workflow.Leads s p →
      Change rn r (r.stepped rn.workflow results inputs e p)
  | broken {s : Step} {results : Store} (inputs : Store) {trail : List Entry} :
      rn.currentStep? r = some s → results = r.results ∨ s.Leaves r results →
      trail = r.trail ∨ (∃ e, e.TellsOf r.position s ∧ trail = r.trail ++ [e]) →
      Change rn r { r with results, inputs, trail, iterations := r.iterations + 1 }

variable {rn : Runner} {now : Instant} {r r' : Run}

theorem process_changes {a : Value} {x : Except Failure Bool} (h : rn.process now r a = (r', x)) :
    Relation.ReflGen (Change rn) r r' := by
  cases hr : r.isFinal with
  | true =>
    rw [process_final hr] at h
    cases h
    exact .refl
  | false =>
    have hactive := Run.isFinal_eq_false.1 hr
    cases x with
    | ok b =>
      cases processed hr h with
      | ended hs => exact .single (.ended hactive hs)
      | waiting _ _ => exact .refl
      | overrun _ _ _ => exact .single (.cut _ nofun)
      | advanced hs _ _ hway =>
        exact .single (.stepped _ hactive hs (.writes a) (Workflow.entryAfter_tellsOf ..)
          (Workflow.way_leads hway))
    | error f =>
      cases breaks_of_process h with
      | step hdue _ _ => exact .single (.broken _ hdue.stands (.inr (.writes a)) (.inl rfl))

theorem answerCheckpoint_changes {resolved notes : Value} {x : Except Failure Bool}
    (h : rn.answerCheckpoint now r resolved notes = (r', x)) : Relation.ReflGen (Change rn) r r' := by
  cases hr : r.isFinal with
  | true =>
    rw [answerCheckpoint_final hr] at h
    cases h
    exact .refl
  | false =>
    cases x with
    | ok b =>
      cases answered hr h with
      | refused _ => exact .refl
      | overrun _ _ _ => exact .single (.cut _ nofun)
      | advanced hs _ _ he hway =>
        exact .single (.stepped _ (Run.isFinal_eq_false.1 hr) hs (.checkpoint resolved)
          (Workflow.checkpointEntry_tellsOf he) (Workflow.checkpointWay_leads hway))
    | error f =>
      cases breaks_of_answerCheckpoint h with
      | unread hdue _ _ => exact .single (.broken r.inputs hdue.stands (.inl rfl) (.inl rfl))
      | checkpoint hdue _ he _ =>
        exact .single (.broken r.inputs hdue.stands (.inr (.checkpoint resolved))
          (.inr ⟨_, Workflow.checkpointEntry_tellsOf he, rfl⟩))

variable {κ τ : Type} [Moment τ] [Clock κ τ]

theorem execute_changes {inputs : Store} {clock clock' : κ} {x : Except Failure Bool}
    (h : rn.execute r inputs clock = (r', x, clock')) : Relation.ReflTransGen (Change rn) r r' := by
  cases x with
  | error f =>
    have hsame : (rn.execute r inputs clock).1 = r := execute_failed (by rw [h])
    rw [h] at hsame
    cases hsame
    exact .refl
  | ok b =>
    cases hr : r.isFinal with
    | true =>
      rw [execute_final hr] at h
      cases h
      exact .refl
    | false =>
      obtain ⟨deadline, s, halt, c, hdrive, hcommit⟩ := execute_driven hr h
      have hdriven : Relation.ReflTransGen (Change rn) r s :=
        drive_keeps (fun _ _ _ _ hgone _ hp => hgone.trans (process_changes hp).to_reflTransGen)
          (.single (.supplied _)) hdrive
      obtain rfl | rfl := commit_run hcommit
      · exact hdriven
      · exact hdriven.tail (.cut _ nofun)

theorem call_changes (rn : Runner) (r : Run) (c : Call κ) :
    Relation.ReflTransGen (Change rn) r (rn.call r c).1 := by
  cases c with
  | process now a => exact (process_changes rfl).to_reflTransGen
  | answerCheckpoint now resolved notes => exact (answerCheckpoint_changes rfl).to_reflTransGen
  | execute inputs clock => exact execute_changes rfl
  | stop place => exact .single (.stopped place)

/-- The runs that a start and calls after it lead to, also where calls fail. -/
inductive Led (κ : Type) {τ : Type} [Moment τ] [Clock κ τ] (rn : Runner) : Run → Prop where
  | start {id : String} {inputs : Store} {r : Run} : rn.start id inputs = .ok r → Led κ rn r
  | call {r : Run} (c : Call κ) : Led κ rn r → Led κ rn (rn.call r c).1

theorem Led.keeps {P : Run → Prop}
    (hstart : ∀ id inputs r, rn.start id inputs = .ok r → P r)
    (hchange : ∀ r r', P r → Change rn r r' → P r') (h : Led κ rn r) : P r := by
  induction h with
  | start hs => exact hstart _ _ _ hs
  | @call r c _ ih =>
    have hkept : ∀ s, Relation.ReflTransGen (Change rn) r s → P s := by
      intro s hs
      induction hs with
      | refl => exact ih
      | tail _ hc ih => exact hchange _ _ ih hc
    exact hkept _ (call_changes rn r c)

end Runner
end Runbook
