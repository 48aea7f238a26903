import Runbook.Proofs.CallInvariants
import Runbook.Proofs.RewoundRuns

/-! Runs that go on from a rewind. Rewinding to an earlier place can be done in one go or in two, and
the run that is left stands at a step, except where nothing is dropped from a run that was past its
end: that one is active with no step to take. -/
namespace Runbook

namespace Workflow
variable {w : Workflow} {p : Position} {entries : List Entry} {i j : Nat}

theorem resumePosition_full (w : Workflow) (entries : List Entry) (p : Position) :
    w.resumePosition entries entries.length (w.resumePosition entries entries.length p) =
      w.resumePosition entries entries.length p := by
  refine resumePosition_kept (Nat.le_refl _) fun hp => ?_
  unfold resumePosition at hp
  rw [List.getElem?_eq_none (Nat.le_refl _)] at hp
  cases p with
  | nowhere => exact hp
  | _ => cases hp

theorem stands_resumePosition_full
    (h : entries = [] → p = .nowhere → w.stepAt? w.startPosition = none) :
    (∃ s, w.stepAt? (w.resumePosition entries entries.length p) = some s) ↔
      ∃ s, w.stepAt? p = some s := by
  have hend : w.stepAt? w.endPosition = none := w.stepAt?_endPosition
  have hnowhere : w.stepAt? .nowhere = none := rfl
  unfold resumePosition
  rw [List.getElem?_eq_none (Nat.le_refl _)]
  cases p with
  | nowhere =>
    by_cases hentries : entries = []
    · simp [hentries, h hentries rfl, hnowhere]
    · simp [hentries, hend, hnowhere]
  | _ => rfl

/-- Where entries tell of steps, a shorter trail that resumes where the longer one would goes back to
the same places as the longer one. -/
theorem resumePosition_take (htold : ∀ e ∈ entries, e.position ≠ .nowhere) (hji : j ≤ i)
    (hi : i ≤ entries.length) :
    w.resumePosition (entries.take i) j (w.resumePosition entries i p) =
      w.resumePosition entries j p := by
  obtain hlt | rfl := Nat.lt_or_eq_of_le hji
  · -- the same entry is dropped first from either trail
    have hentry : entries[j]? = some entries[j] := List.getElem?_eq_getElem (by omega)
    have hshort : (entries.take i)[j]? = some entries[j] := by
      rw [List.getElem?_take_of_lt hlt, hentry]
    rw [resumePosition_dropped hshort, resumePosition_dropped hentry]
  · obtain hlt | rfl := Nat.lt_or_eq_of_le hi
    · have hentry : entries[j]? = some entries[j] := List.getElem?_eq_getElem hlt
      have hlength : (entries.take j).length ≤ j := by rw [List.length_take]; omega
      rw [resumePosition_dropped hentry]
      exact resumePosition_kept hlength fun hp => absurd hp (htold _ (List.getElem_mem hlt))
    · rw [List.take_length]
      exact w.resumePosition_full entries p

end Workflow

namespace Run
variable {r : Run} {w : Workflow} {j k : Int}

theorem rewound_trail (r : Run) (w : Workflow) (upto : Int) :
    (r.rewound w upto).trail = r.trail.take (min upto.toNat r.trail.length) := rfl

theorem rewound_position (r : Run) (w : Workflow) (upto : Int) :
    (r.rewound w upto).position =
      w.resumePosition r.trail (min upto.toNat r.trail.length) r.position := rfl

theorem rewound_stores (r : Run) (w : Workflow) (upto : Int) :
    ((r.rewound w upto).results, (r.rewound w upto).inputs) =
      (r.rewound w upto).trail.foldl w.replayEntry ([], []) := rfl

theorem rewound_iterations (r : Run) (w : Workflow) (upto : Int) :
    (r.rewound w upto).iterations = (r.rewound w upto).trail.length := rfl

theorem rewound_rewound_of_told (htold : ∀ e ∈ r.trail, e.position ≠ .nowhere) (w : Workflow)
    (hjk : j ≤ k) : (r.rewound w k).rewound w j = r.rewound w j := by
  have hcut : min j.toNat (r.rewound w k).trail.length = min j.toNat r.trail.length := by
    rw [rewound_trail, List.length_take]
    omega
  have htrail : ((r.rewound w k).rewound w j).trail = (r.rewound w j).trail := by
    rw [rewound_trail, hcut, rewound_trail, rewound_trail, List.take_take]
    congr 1
    omega
  have hposition : ((r.rewound w k).rewound w j).position = (r.rewound w j).position := by
    rw [rewound_position, hcut, rewound_trail, rewound_position, rewound_position]
    exact Workflow.resumePosition_take htold (by omega) (by omega)
  have hstores := rewound_stores (r.rewound w k) w j
  rw [htrail, ← rewound_stores] at hstores
  have hiterations : ((r.rewound w k).rewound w j).iterations = (r.rewound w j).iterations := by
    rw [rewound_iterations, htrail, ← rewound_iterations]
  exact Run.ext rfl rfl rfl hposition rfl htrail (congrArg Prod.fst hstores)
    (congrArg Prod.snd hstores) hiterations

end Run

namespace Runner
variable {κ τ : Type} [Moment τ] [Clock κ τ] {rn : Runner} {r : Run}

theorem told_concat {s : Step} {e : Entry}
    (h : ∀ f ∈ r.trail, ∃ s, rn.workflow.stepAt? f.position = some s)
    (hs : rn.currentStep? r = some s) (he : e.TellsOf r.position s) :
    ∀ f ∈ r.trail ++ [e], ∃ s, rn.workflow.stepAt? f.position = some s := by
  intro f hf
  obtain hf | hf := List.mem_append.1 hf
  · exact h f hf
  · rw [List.mem_singleton.1 hf, he.position]
    exact ⟨s, hs⟩

/-- Every entry of a trail tells of a place with a step. -/
theorem Led.told (h : Led κ rn r) :
    ∀ e ∈ r.trail, ∃ s, rn.workflow.stepAt? e.position = some s := by
  refine h.keeps (P := fun r => ∀ e ∈ r.trail, ∃ s, rn.workflow.stepAt? e.position = some s)
    (fun id inputs r hstart => ?_) fun r r' hr hchange => ?_
  · obtain ⟨-, rfl⟩ | ⟨s, -, rfl⟩ := started hstart <;> exact fun e he => nomatch he
  · cases hchange with
    | ended _ _ => exact hr
    | cut _ _ => exact hr
    | stopped _ => exact hr
    | supplied _ => exact hr
    | stepped inputs _ hs _ he _ =>
      rw [Run.stepped_trail]
      exact told_concat hr hs he
    | broken inputs hs _ htrail =>
      obtain rfl | ⟨e, he, rfl⟩ := htrail
      · exact hr
      · exact told_concat hr hs he

/-- Rewinds go together: the second of two, to the same place or an earlier one, gives what it gives
alone. -/
theorem rewound_rewound (h : Led κ rn r) (w : Workflow) {j k : Int} (hjk : j ≤ k) :
    (r.rewound w k).rewound w j = r.rewound w j := by
  refine Run.rewound_rewound_of_told (fun e he hp => ?_) w hjk
  obtain ⟨s, hs⟩ := h.told e he
  rw [hp] at hs
  cases hs

def greeting : Runner where
  workflow := ⟨"greeting", "Greeting", false, none,
    [⟨"name", "Name?", none, [], [], .question ⟨none, some "name", "text", []⟩, []⟩]⟩
  guard := ⟨10, .whole 5⟩

def greeted : Run := (greeting.process .leapDay (greeting.opening "run" []) (.text "Ann")).1

theorem led_greeted : Led SteadyClock greeting greeted := by
  have hstart : greeting.start "run" [] = .ok (greeting.opening "run" []) := rfl
  exact (Led.start hstart).call (.process .leapDay (.text "Ann"))

theorem rewound_rewound_sample :
    Led SteadyClock greeting greeted ∧ (greeted.rewound greeting.workflow 7).status = .active ∧
      (greeted.rewound greeting.workflow 7).rewound greeting.workflow 0 =
        greeting.opening "run" [] := by
  refine ⟨led_greeted, rfl, ?_⟩
  rw [rewound_rewound led_greeted greeting.workflow (by decide)]
  rfl

theorem Led.begun (h : Led κ rn r) (htrail : r.trail = []) :
    r.position = rn.workflow.startPosition ∨
      rn.workflow.stepAt? rn.workflow.startPosition = none := by
  refine h.keeps (P := fun r => r.trail = [] → r.position = rn.workflow.startPosition ∨
    rn.workflow.stepAt? rn.workflow.startPosition = none) (fun id inputs r hstart _ => ?_)
    (fun r r' hr hchange hnil => ?_) htrail
  · obtain ⟨hnone, rfl⟩ | ⟨s, -, rfl⟩ := started hstart
    · exact .inr hnone
    · exact .inl rfl
  · cases hchange with
    | ended _ hnone =>
      obtain hplace | hstart := hr hnil
      · exact .inr (hplace ▸ hnone)
      · exact .inr hstart
    | cut _ _ => exact hr hnil
    | stopped _ => exact hr hnil
    | supplied _ => exact hr hnil
    | stepped inputs _ _ _ _ _ => simp at hnil
    | broken inputs _ _ htrail =>
      obtain rfl | ⟨e, _, rfl⟩ := htrail
      · exact hr hnil
      · simp at hnil

/-- A run that is rewound is active. It stands at a step just if some entry of its trail is dropped,
or it stood at one before. -/
theorem stands_rewound_iff (h : Led κ rn r) (upto : Int) :
    (r.rewound rn.workflow upto).status = .active ∧
      ((∃ s, rn.currentStep? (r.rewound rn.workflow upto) = some s) ↔
        upto.toNat < r.trail.length ∨ ∃ s, rn.currentStep? r = some s) := by
  refine ⟨rfl, ?_⟩
  simp only [currentStep?, Run.rewound_position]
  by_cases hdropped : upto.toNat < r.trail.length
  · have hcut : min upto.toNat r.trail.length < r.trail.length := by omega
    obtain ⟨s, hs⟩ := h.told _ (List.getElem_mem hcut)
    rw [Workflow.resumePosition_dropped (List.getElem?_eq_getElem hcut)]
    exact ⟨fun _ => .inl hdropped, fun _ => ⟨s, hs⟩⟩
  · have hkept : min upto.toNat r.trail.length = r.trail.length := by omega
    rw [hkept, Workflow.stands_resumePosition_full fun hnil hp => ?_]
    · exact ⟨.inr, fun hs => hs.resolve_left hdropped⟩
    · obtain hplace | hstart := h.begun hnil
      · rw [← hplace, hp]
        rfl
      · exact hstart

theorem stands_rewound_iff_sample :
    Led SteadyClock greeting greeted ∧
      (∃ s, greeting.currentStep? (greeted.rewound greeting.workflow 0) = some s) ∧
      ¬∃ s, greeting.currentStep? (greeted.rewound greeting.workflow 1) = some s := by
  have htrail : greeted.trail.length = 1 := rfl
  have hended : greeting.currentStep? greeted = none := rfl
  refine ⟨led_greeted, (stands_rewound_iff led_greeted 0).2.2 (.inl (by simp [htrail])), ?_⟩
  intro hs
  obtain hdropped | ⟨s, hs⟩ := (stands_rewound_iff led_greeted 1).2.1 hs
  · simp [htrail] at hdropped
  · simp [hended] at hs

/-- A run that is rewound to its own end is active past the end of its workflow. -/
theorem rewound_past_end :
    ¬∀ (rn : Runner) (r : Run) (upto : Int), Led SteadyClock rn r → rn.workflow.steps ≠ [] →
      (r.rewound rn.workflow upto).status = .active →
      ∃ s, rn.currentStep? (r.rewound rn.workflow upto) = some s := by
  intro h
  obtain ⟨s, hs⟩ := h greeting greeted 1 led_greeted (by decide) rfl
  cases hs

end Runner
end Runbook
