import Runbook.Proofs.StepCalls
import Runbook.Run.Rewind

/-! Rewinding undoes running: the trail of a run of questions, decisions, actions and sub-flows holds
enough to rebuild every state that the run went through. -/
namespace Runbook

/-- The kinds of steps that write nothing but what a replay redoes. -/
def Step.isReplayable (s : Step) : Bool :=
  match s.body with
  | .question _ | .decision _ | .action _ | .subFlow _ => true
  | _ => false

namespace Workflow
variable {w : Workflow} {now : Instant} {r : Run} {s : Step} {p : Position} {e : Entry}

theorem stepOf?_eq (hd : w.Distinct) (hs : w.stepAt? p = some s) (he : e.TellsOf p s) :
    w.stepOf? e = some s := by
  simp only [stepOf?, he.stepId, Option.bind_some, he.position]
  by_cases hid : s.id = ""
  · simp [stepById?, hid, hs]
  · rw [stepById?_id hid hd (mem_of_stepAt? hs)]

theorem replayEntry_entryAfter {rs : Store} {a : Value} {route : Route} (hd : w.Distinct)
    (hs : w.stepAt? r.position = some s) (hk : s.isReplayable = true) :
    w.replayEntry (r.results, r.inputs) (entryAfter now s r.position rs a route) =
      ((writes s r a).results, (writes s r a).inputs) := by
  have hstep := stepOf?_eq hd hs (entryAfter_tellsOf now s r.position rs a route)
  have htype := (entryAfter_tellsOf now s r.position rs a route).stepType
  have hplace := (entryAfter_tellsOf now s r.position rs a route).position
  cases hb : s.body with
  | question q =>
    have hanswer : (entryAfter now s r.position rs a route).answer = a := by
      simp [entryAfter, Entry.routed, entryOf, hb]
    simp [replayEntry, hstep, hb, htype, Step.kind, Body.kind, hplace, hanswer, writes]
  | action x => simp [replayEntry, hstep, hb, htype, Step.kind, Body.kind, writes]
  | decision d => simp [replayEntry, hstep, hb, writes]
  | subFlow f => simp [replayEntry, hstep, hb, writes]
  | checkpoint m => simp [Step.isReplayable, hb] at hk
  | message m => simp [Step.isReplayable, hb] at hk
  | escalate x => simp [Step.isReplayable, hb] at hk
  | resolve x => simp [Step.isReplayable, hb] at hk

theorem resumePosition_dropped {entries : List Entry} {k : Nat} (h : entries[k]? = some e) :
    w.resumePosition entries k p = e.position := by
  simp [resumePosition, h]

theorem resumePosition_kept {entries : List Entry} {k : Nat} (h : entries.length ≤ k)
    (hp : p = .nowhere →
      (if entries.isEmpty then w.startPosition else w.endPosition) = .nowhere) :
    w.resumePosition entries k p = p := by
  unfold resumePosition
  rw [List.getElem?_eq_none h]
  cases p with
  | nowhere => exact hp rfl
  | index n => rfl
  | node id => rfl
  | foreign v => rfl

end Workflow

namespace Runner
variable {rn : Runner} {now : Instant} {r r' : Run} {a : Value}

/-- What one step of a replayable run leaves, with the entry that tells of it. -/
structure Grown (w : Workflow) (r r' : Run) (e : Entry) : Prop where
  active : r.status = .active
  trail : r'.trail = r.trail ++ [e]
  position : e.position = r.position
  stores : (r'.results, r'.inputs) = w.replayEntry (r.results, r.inputs) e
  iterations : r'.iterations = r.iterations + 1
  id : r'.id = r.id
  workflowId : r'.workflowId = r.workflowId
  stoppedAt : r'.stoppedAt = r.stoppedAt
  ended : r'.position = .nowhere → r'.position = w.endPosition

theorem process_grown (hd : rn.workflow.Distinct)
    (hk : ∀ s ∈ rn.workflow.steps, s.isReplayable = true)
    (h : rn.process now r a = (r', .ok true)) : ∃ e, Grown rn.workflow r r' e := by
  have hr : r.isFinal = false := by
    cases hf : r.isFinal with
    | false => rfl
    | true => rw [process_final hf] at h; cases h
  cases processed hr h with
  | @advanced s route hs hc hg hway =>
    refine ⟨_, Run.isFinal_eq_false.1 hr, Run.stepped_trail .., ?_, ?_, by simp, by simp, by simp,
      by simp, ?_⟩
    · exact (Workflow.entryAfter_tellsOf ..).position
    · rw [Workflow.replayEntry_entryAfter hd hs (hk s (Workflow.mem_of_stepAt? hs))]
      simp
    · rw [Run.stepped_position]
      split
      · exact fun _ => rfl
      · next hend =>
        intro hp
        rw [hp] at hend
        simp [Workflow.isPastEnd] at hend

section Sequence
variable {w : Workflow} {s : Nat → Run} {n i j : Nat}

theorem length_trail_grown (h0 : (s 0).trail = [])
    (hs : ∀ i < n, ∃ e, Grown w (s i) (s (i + 1)) e) (hi : i ≤ n) : (s i).trail.length = i := by
  induction i with
  | zero => simp [h0]
  | succ i ih =>
    obtain ⟨e, he⟩ := hs i (by omega)
    rw [he.trail, List.length_append, ih (by omega)]
    rfl

theorem trail_prefix_grown (hs : ∀ i < n, ∃ e, Grown w (s i) (s (i + 1)) e) (hij : i ≤ j)
    (hj : j ≤ n) : (s i).trail <+: (s j).trail := by
  induction j with
  | zero =>
    obtain rfl : i = 0 := by omega
    exact List.prefix_rfl
  | succ j ih =>
    by_cases heq : i = j + 1
    · subst heq
      exact List.prefix_rfl
    · obtain ⟨e, he⟩ := hs j (by omega)
      rw [he.trail]
      exact (ih (by omega) (by omega)).trans (List.prefix_append ..)

theorem take_trail_grown (h0 : (s 0).trail = [])
    (hs : ∀ i < n, ∃ e, Grown w (s i) (s (i + 1)) e) (hi : i ≤ n) :
    (s n).trail.take i = (s i).trail := by
  have hprefix := trail_prefix_grown hs hi (Nat.le_refl n)
  rw [List.prefix_iff_eq_take, length_trail_grown h0 hs hi] at hprefix
  exact hprefix.symm

theorem getElem?_trail_grown (h0 : (s 0).trail = [])
    (hs : ∀ i < n, ∃ e, Grown w (s i) (s (i + 1)) e) (hi : i < n) :
    ∃ e, (s n).trail[i]? = some e ∧ e.position = (s i).position := by
  obtain ⟨e, he⟩ := hs i hi
  refine ⟨e, ?_, he.position⟩
  have hnext : (s (i + 1)).trail[i]? = some e := by
    have hlength : (s i).trail.length = i := length_trail_grown h0 hs (by omega)
    simp [he.trail, hlength]
  rw [← take_trail_grown h0 hs hi, List.getElem?_take_of_lt (Nat.lt_succ_self i)] at hnext
  exact hnext

theorem stores_grown (h0 : (s 0).trail = []) (hstores : ((s 0).results, (s 0).inputs) = ([], []))
    (hs : ∀ i < n, ∃ e, Grown w (s i) (s (i + 1)) e) (hi : i ≤ n) :
    (s i).trail.foldl w.replayEntry ([], []) = ((s i).results, (s i).inputs) := by
  induction i with
  | zero => rw [h0, hstores]; rfl
  | succ i ih =>
    obtain ⟨e, he⟩ := hs i (by omega)
    rw [he.trail, List.foldl_append, ih (by omega), he.stores]
    rfl

theorem frame_grown (hs : ∀ i < n, ∃ e, Grown w (s i) (s (i + 1)) e) (hi : i ≤ n) :
    (s i).id = (s 0).id ∧ (s i).workflowId = (s 0).workflowId ∧
      (s i).stoppedAt = (s 0).stoppedAt ∧ (s i).iterations = (s 0).iterations + i := by
  induction i with
  | zero => simp
  | succ i ih =>
    obtain ⟨hid, hworkflow, hstopped, hcount⟩ := ih (by omega)
    obtain ⟨e, he⟩ := hs i (by omega)
    refine ⟨he.id.trans hid, he.workflowId.trans hworkflow, he.stoppedAt.trans hstopped, ?_⟩
    rw [he.iterations, hcount]
    omega

theorem resumePosition_grown (h0 : (s 0).trail = [])
    (hstart : (s 0).position = .nowhere → w.startPosition = .nowhere)
    (hs : ∀ i < n, ∃ e, Grown w (s i) (s (i + 1)) e) (hi : i ≤ n) :
    w.resumePosition (s n).trail i (s n).position = (s i).position := by
  by_cases hlast : i = n
  · subst hlast
    have hlength : (s i).trail.length = i := length_trail_grown h0 hs (Nat.le_refl i)
    refine Workflow.resumePosition_kept (Nat.le_of_eq hlength) fun hp => ?_
    -- A null position at the end of a trail is read as the end, or as the start of an empty one.
    cases i with
    | zero => simpa [h0] using hstart hp
    | succ i =>
      obtain ⟨e, he⟩ := hs i (Nat.lt_succ_self i)
      have hend := he.ended hp
      rw [hp] at hend
      simp [he.trail, ← hend]
  · obtain ⟨e, he, hposition⟩ := getElem?_trail_grown h0 hs (by omega : i < n)
    rw [Workflow.resumePosition_dropped he, hposition]

theorem replay_grown (h0 : (s 0).trail = []) (hstores : ((s 0).results, (s 0).inputs) = ([], []))
    (hstart : (s 0).position = .nowhere → w.startPosition = .nowhere)
    (hs : ∀ i < n, ∃ e, Grown w (s i) (s (i + 1)) e) (hi : i ≤ n) :
    w.replay (s n).trail i (s n).position =
      ⟨(s i).results, (s i).inputs, (s i).position, (s i).trail⟩ := by
  have hlength : (s n).trail.length = n := length_trail_grown h0 hs (Nat.le_refl n)
  have hkept : min (i : Int).toNat (s n).trail.length = i := by omega
  simp only [Workflow.replay, hkept, take_trail_grown h0 hs hi,
    resumePosition_grown h0 hstart hs hi, stores_grown h0 hstores hs hi]

end Sequence

theorem start_nowhere {id : String} {inputs : Store} (hn : rn.workflow.Named)
    (h : rn.start id inputs = .ok r) (hp : r.position = .nowhere) :
    rn.workflow.startPosition = .nowhere := by
  obtain ⟨hs, rfl⟩ | ⟨s, -, rfl⟩ := started h
  · have hnil := Workflow.steps_eq_nil hn hs
    cases hg : rn.workflow.isGraph with
    | true =>
      have hstart : rn.workflow.start? = none := by
        cases hstart : rn.workflow.start? with
        | none => rfl
        | some s => simpa [hnil] using Workflow.mem_of_start? hstart
      simp [Workflow.startPosition, hg, hstart]
    | false => simp [Run.finish, Workflow.endPosition, hg] at hp
  · exact hp

theorem start_blank {id : String} (h : rn.start id [] = .ok r) :
    r.trail = [] ∧ (r.results, r.inputs) = ([], []) ∧ r.iterations = 0 ∧
      r.stoppedAt = .nowhere := by
  obtain ⟨-, h⟩ | ⟨_, -, h⟩ := started h <;> rw [h] <;> exact ⟨rfl, rfl, rfl, rfl⟩

/-- Rewinding a run to a number of steps gives the state after those steps, and so does replaying
its trail, also in full. -/
theorem rewound_eq {id : String} {s : Nat → Run} {times : Nat → Instant} {answers : Nat → Value}
    {n : Nat}
    (hn : rn.workflow.Named) (hd : rn.workflow.Distinct)
    (hk : ∀ x ∈ rn.workflow.steps, x.isReplayable = true) (h0 : rn.start id [] = .ok (s 0))
    (hs : ∀ i < n, rn.process (times i) (s i) (answers i) = (s (i + 1), .ok true)) :
    (∀ k ≤ n, rn.workflow.replay (s n).trail k (s n).position =
      ⟨(s k).results, (s k).inputs, (s k).position, (s k).trail⟩) ∧
    ∀ k < n, (s n).rewound rn.workflow k = s k ∧ (s k).status = .active ∧
      (s k).iterations = k ∧ (s k).stoppedAt = .nowhere := by
  have hgrown : ∀ i < n, ∃ e, Grown rn.workflow (s i) (s (i + 1)) e :=
    fun i hi => process_grown hd hk (hs i hi)
  obtain ⟨htrail, hstores, hcount, hstopped⟩ := start_blank h0
  have hreplay : ∀ k ≤ n, rn.workflow.replay (s n).trail k (s n).position =
      ⟨(s k).results, (s k).inputs, (s k).position, (s k).trail⟩ :=
    fun k hkn => replay_grown htrail hstores (start_nowhere hn h0) hgrown hkn
  refine ⟨hreplay, fun k hkn => ?_⟩
  have hle : k ≤ n := Nat.le_of_lt hkn
  obtain ⟨e, he⟩ := hgrown k hkn
  obtain ⟨hid, hworkflow, hstop, hnumber⟩ := frame_grown hgrown hle
  obtain ⟨hid', hworkflow', -, -⟩ := frame_grown hgrown (Nat.le_refl n)
  have hiterations : (s k).iterations = k := by rw [hnumber, hcount]; omega
  have hlength : (s k).trail.length = k := length_trail_grown htrail hgrown hle
  refine ⟨?_, he.active, hiterations, hstop.trans hstopped⟩
  rw [Run.rewound, hreplay k hle]
  exact Run.ext (hid'.trans hid.symm) (hworkflow'.trans hworkflow.symm) he.active.symm rfl
    (hstop.trans hstopped).symm rfl rfl rfl (by simp only [hlength, hiterations])

def sampleTime (n : Nat) : Instant :=
  { Instant.leapDay with second := n % 86400, second_lt := Nat.mod_lt n (Nat.zero_lt_succ _) }

def sampleRun : Nat → Run
  | 0 => sample.opening "run" []
  | n + 1 => (sample.process (sampleTime n) (sampleRun n) (.text (if n = 0 then "yes" else "no"))).1

theorem rewound_eq_sample :
    (∀ k ≤ (5 : Nat), sample.workflow.replay (sampleRun 5).trail k (sampleRun 5).position =
      ⟨(sampleRun k).results, (sampleRun k).inputs, (sampleRun k).position, (sampleRun k).trail⟩) ∧
    ∀ k < (5 : Nat), (sampleRun 5).rewound sample.workflow k = sampleRun k ∧
      (sampleRun k).status = .active ∧ (sampleRun k).iterations = k ∧
      (sampleRun k).stoppedAt = .nowhere := by
  have hok : ∀ x : Except Failure Bool, x.toOption = some true → x = .ok true := by
    intro x h
    cases x with
    | error e => cases h
    | ok b => cases h; rfl
  have hsteps : ∀ i < 5, (sample.process (sampleTime i) (sampleRun i)
      (.text (if i = 0 then "yes" else "no"))).2.toOption = some true := by decide +kernel
  exact rewound_eq (by decide) (by decide) (by decide) rfl
    fun i hi => Prod.ext rfl (hok _ (hsteps i hi))

end Runner
end Runbook
