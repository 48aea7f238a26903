import Runbook.Definition.Workflow
import Runbook.Proofs.FirstBranch
import Runbook.Proofs.StepCalls

/-! Going on in a sequence. The next position is looked up by the id of the step, so a run goes on
behind the first step with that id: to the following position if the id is new there, and back to an
earlier one if it is not. -/
namespace Runbook

/-- Only jumps can send a run anywhere but on: the step does not choose, end the run or hold it. -/
def Step.GoesOn (s : Step) : Prop :=
  match s.body with
  | .decision _ | .checkpoint _ | .resolve _ => False
  | _ => True

/-- A step that goes on and has no jumps. -/
structure Step.Straight (s : Step) : Prop where
  goesOn : s.GoesOn
  jumps : s.jumps = []

/-- The step at the index is the first one with the id. -/
structure Workflow.FirstAt (w : Workflow) (id : String) (i : Nat) : Prop where
  here : ∃ s, w.steps[i]? = some s ∧ s.id = id
  before : ∀ j < i, ∀ s, w.steps[j]? = some s → s.id ≠ id

namespace Step.GoesOn
variable {s : Step}

theorem isCheckpoint (h : s.GoesOn) : s.isCheckpoint = false := by
  cases hb : s.body <;> simp_all [GoesOn, Step.isCheckpoint]

theorem isResolve (h : s.GoesOn) : s.isResolve = false := by
  cases hb : s.body <;> simp_all [GoesOn, Step.isResolve]

theorem body_ne (h : s.GoesOn) (d : Decision) : s.body ≠ .decision d := by
  intro hb
  simp [GoesOn, hb] at h

end Step.GoesOn

namespace Workflow
variable {w : Workflow} {now : Instant} {s : Step} {rs : Store} {r : Run} {a : Value} {i p : Nat}

theorem firstAt_of_indexOf? {id : String} (h : w.indexOf? id = some i) : w.FirstAt id i := by
  obtain ⟨hi, hid, hbefore⟩ := List.findIdx?_eq_some_iff_getElem.1 h
  refine ⟨⟨w.steps[i], List.getElem?_eq_getElem hi, by simpa using hid⟩, fun j hj s hs => ?_⟩
  obtain ⟨-, rfl⟩ := List.getElem?_eq_some_iff.1 hs
  simpa using hbefore j hj

theorem FirstAt.le {id : String} (h : w.FirstAt id i) {j : Nat} (hs : w.steps[j]? = some s)
    (hid : s.id = id) : i ≤ j := by
  by_contra hlt
  exact h.before j (by omega) s hs hid

theorem FirstAt.eq_iff (h : w.FirstAt s.id i) (hs : w.steps[p]? = some s) :
    i = p ↔ ∀ j < p, ∀ t, w.steps[j]? = some t → t.id ≠ s.id := by
  constructor
  · rintro rfl
    exact h.before
  · intro hnew
    obtain ⟨t, ht, hid⟩ := h.here
    have hle := h.le hs rfl
    by_contra hne
    exact hnew i (by omega) t ht hid

theorem exists_firstAt (hs : w.steps[p]? = some s) : ∃ i, w.indexOf? s.id = some i :=
  Option.isSome_iff_exists.1 (isSome_indexOf? (List.mem_of_getElem? hs))

theorem lt_of_firstAt (h : w.FirstAt s.id i) : i < w.steps.length := by
  obtain ⟨t, ht, -⟩ := h.here
  exact (List.getElem?_eq_some_iff.1 ht).1

theorem sequential_indexOf? (h : w.indexOf? s.id = some i) :
    w.sequential s .linear = .index (i + 1 : Nat) := by
  have hi := lt_of_firstAt (firstAt_of_indexOf? h)
  simp only [sequential, h]
  rw [Nat.min_eq_left (by omega)]

theorem way_goesOn (hg : w.isGraph = false) (hs : s.GoesOn) (hjumps : w.Unjumped s rs)
    (hi : w.indexOf? s.id = some i) :
    ((w.way s rs).isOk = true ↔ s.JumpsKnown rs) ∧
      ∀ route, w.way s rs = .ok route → route.position = .index (i + 1 : Nat) := by
  have hroute : s.JumpsKnown rs → w.way s rs = .ok ⟨.index (i + 1 : Nat), none, none⟩ := by
    intro hk
    rw [way, hs.isResolve, nextRoute_unjumped hjumps hk, strategy_linear hg]
    have hfallback : w.fallback .linear s rs = .ok ⟨.index (i + 1 : Nat), none, none⟩ := by
      rw [fallback, sequential_indexOf? hi]
      rfl
    rw [if_neg (by simp)]
    split
    · next d hd => exact absurd hd (hs.body_ne d)
    · exact hfallback
  have hknown : (w.way s rs).isOk = true → s.JumpsKnown rs := by
    rw [way, hs.isResolve]
    exact jumpsKnown_of_nextRoute hjumps
  refine ⟨⟨hknown, fun hk => by rw [hroute hk]; rfl⟩, fun route h => ?_⟩
  rw [hroute (hknown (by rw [h]; rfl))] at h
  cases h
  rfl

theorem move_behind (hg : w.isGraph = false) (hr : r.status = .active) (hi : i < w.steps.length) :
    (r.move w (.index (i + 1 : Nat))).position = .index (i + 1 : Nat) ∧
      (r.move w (.index (i + 1 : Nat))).status =
        if i + 1 = w.steps.length then .completed else .active := by
  by_cases hend : i + 1 = w.steps.length
  · have hpast : w.isPastEnd (.index (i + 1 : Nat)) = true := by simp [isPastEnd, hg, hend]
    rw [Run.move_pastEnd hpast, if_pos hend]
    exact ⟨by simp [Run.finish, endPosition, hg, hend], rfl⟩
  · have hinside : w.isPastEnd (.index (i + 1 : Nat)) = false := by
      simp [isPastEnd, hg]
      omega
    rw [Run.move_inside hinside, if_neg hend]
    exact ⟨rfl, hr⟩

/-- A step of a sequence that goes on moves the run behind the first step with its id. At a step
that does not choose, hold the run or end it, and of which no jump applies and leads to a step, the
call returns unless a jump with a target cannot be evaluated. The run then stands at the position
after the first step with the id of this one, and is complete if that one is the last. This is the
next position exactly if no earlier step has the id. As whole numbers of any length have a text
(`Value.display`), only comparisons by order cannot be evaluated. -/
theorem process_goesOn (hg : w.isGraph = false) (hr : r.status = .active)
    (hp : r.position = .index p) (hat : w.steps[p]? = some s) (hs : s.GoesOn)
    (hjumps : w.Unjumped s (writes s r a).results) :
    ((w.process now r s a).2.isOk = true ↔ s.JumpsKnown (writes s r a).results) ∧
    ∀ r' o, w.process now r s a = (r', .ok o) →
      ∃ i ≤ p, w.FirstAt s.id i ∧ o = .advanced (.index (i + 1 : Nat)) ∧
        r'.position = .index (i + 1 : Nat) ∧
        r'.status = (if i + 1 = w.steps.length then .completed else .active) ∧
        (i = p ↔ ∀ j < p, ∀ t, w.steps[j]? = some t → t.id ≠ s.id) := by
  obtain ⟨i, hi⟩ := exists_firstAt hat
  have hfirst := firstAt_of_indexOf? hi
  obtain ⟨hok, hroute⟩ := way_goesOn hg hs hjumps hi
  have hrecorded : r.position.recorded = .ok r.position := by rw [hp]; rfl
  rw [process_eq (Run.isFinal_eq_false.2 hr) hs.isCheckpoint hrecorded]
  cases hway : w.way s (writes s r a).results with
  | error o =>
    rw [hway] at hok
    exact ⟨hok, fun r' o' h => by cases h⟩
  | ok route =>
    rw [hway] at hok
    refine ⟨hok, fun r' o h => ?_⟩
    have hwritten : ((writes s r a).append
        (entryAfter now s r.position (writes s r a).results a route)).status = .active := by
      rw [writes_eq]
      exact hr
    obtain ⟨hposition, hstatus⟩ := move_behind hg hwritten (lt_of_firstAt hfirst)
    rw [← hroute route hway] at hposition hstatus
    cases h
    exact ⟨i, hfirst.le hat rfl, hfirst, congrArg _ (hposition.trans (hroute route hway)),
      hposition.trans (hroute route hway), hstatus, hfirst.eq_iff hat⟩

def twiceRaw : Value :=
  .record [("id", .text "twice"), ("steps", .list
    [.record [("id", .text "a"), ("type", .text "action"), ("title", .text "First")],
      .record [("id", .text "a"), ("type", .text "action"), ("title", .text "Second")]])]

def idle (id title : String) : Step := ⟨id, title, none, [], [], .action ⟨none, []⟩, []⟩

def twice : Workflow := ⟨"twice", "", false, none, [idle "a" "First", idle "a" "Second"]⟩

def lastOfTwo : Run := ⟨"run", some "twice", .active, .index 1, .nowhere, [], [], [], 1⟩

theorem unjumped_idle (w : Workflow) (id title : String) (rs : Store) :
    w.Unjumped (idle id title) rs := nofun

theorem process_goesOn_sample :
    ∃ r' o, twice.process .leapDay lastOfTwo (idle "a" "Second") .null = (r', .ok o) ∧
      ∃ i ≤ 1, twice.FirstAt "a" i ∧ r'.position = .index (i + 1 : Nat) := by
  obtain ⟨hok, hreturns⟩ := @process_goesOn twice .leapDay (idle "a" "Second") lastOfTwo .null 1
    rfl rfl rfl rfl trivial (unjumped_idle _ _ _ _)
  obtain ⟨o, ho⟩ := exists_ok_of_isOk (hok.2 nofun)
  obtain ⟨i, hi, hfirst, -, hposition, -⟩ := hreturns _ o (Prod.ext rfl ho)
  exact ⟨_, o, Prod.ext rfl ho, i, hi, hfirst, hposition⟩

/-- A sequence that is read from its definition, in which a step leads back to itself. -/
theorem process_not_forward :
    ¬∀ (raw : Value) (w : Workflow) (now : Instant) (r : Run) (s : Step) (a : Value) (p : Nat),
      Workflow.read 0 raw = .ok w → w.isGraph = false → r.status = .active →
      r.position = .index p → w.steps[p]? = some s → s.GoesOn →
      (∀ j ∈ s.jumps, j.applies s (writes s r a).results ≠ .ok true) →
      ∃ r' o, w.process now r s a = (r', .ok o) ∧ r'.position = .index (p + 1 : Nat) ∧
        (p + 1 = w.steps.length → r'.status = .completed) := by
  intro h
  obtain ⟨r', o, hr', hposition, -⟩ := h twiceRaw twice .leapDay lastOfTwo (idle "a" "Second") .null 1
    rfl rfl rfl rfl rfl trivial nofun
  have hstays : (twice.process .leapDay lastOfTwo (idle "a" "Second") .null).1.position = .index 1 :=
    rfl
  rw [hr', hposition] at hstays
  cases hstays

end Workflow

namespace Runner
variable {rn : Runner} {now : Instant} {r : Run} {s : Step} {a : Value} {i p : Nat}

/-- The run after one call for each answer, at the time that stands beside it. -/
def processAll (rn : Runner) (r : Run) (answers : List (Instant × Value)) : Run :=
  answers.foldl (fun r (now, a) => (rn.process now r a).1) r

theorem process_straight (now : Instant) (a : Value) (hg : rn.workflow.isGraph = false)
    (hr : r.status = .active) (hp : r.position = .index p)
    (hat : rn.workflow.steps[p]? = some s) (hs : s.Straight)
    (hroom : rn.guard.hasRoom r = true) (hi : rn.workflow.indexOf? s.id = some i) :
    (rn.process now r a).1.position = .index (i + 1 : Nat) ∧
      (rn.process now r a).1.status =
        (if i + 1 = rn.workflow.steps.length then .completed else .active) ∧
      (rn.process now r a).1.iterations = r.iterations + 1 := by
  have hcurrent : rn.currentStep? r = some s := by
    rw [currentStep?, hp, Workflow.stepAt?_index hg, hat]
  have hjumps : rn.workflow.Unjumped s (Workflow.writes s r a).results := by
    intro j hj
    simp [hs.jumps] at hj
  obtain ⟨hok, hroute⟩ := Workflow.way_goesOn hg hs.goesOn hjumps hi
  obtain ⟨route, hway⟩ := exists_ok_of_isOk (hok.2 fun j hj => by simp [hs.jumps] at hj)
  rw [process_eq (Run.isFinal_eq_false.2 hr) hcurrent hs.goesOn.isCheckpoint hroom, hway]
  have hlt := Workflow.lt_of_firstAt (Workflow.firstAt_of_indexOf? hi)
  simp only [hroute route hway, Run.stepped_iterations, and_true]
  exact Workflow.move_behind hg hr hlt

/-- The run is in error, or stands at or before the index. -/
def HeldAt (p : Nat) (r : Run) : Prop :=
  r.status = .error ∨ r.status = .active ∧ ∃ q ≤ p, r.position = .index q

/-- A run does not get past a step whose id is that of an earlier one. -/
theorem heldAt_process (hg : rn.workflow.isGraph = false)
    (hs : ∀ s ∈ rn.workflow.steps, s.Straight) (hip : i < p) {t : Step}
    (hi : rn.workflow.steps[i]? = some s) (hp : rn.workflow.steps[p]? = some t) (hid : s.id = t.id)
    (h : HeldAt p r) : HeldAt p (rn.process now r a).1 := by
  obtain herror | ⟨hactive, q, hq, hposition⟩ := h
  · rw [process_final (by simp [Run.isFinal, Status.isFinal, herror])]
    exact .inl herror
  · have hlast : p < rn.workflow.steps.length := (List.getElem?_eq_some_iff.1 hp).1
    have hat : rn.workflow.steps[q]? = some rn.workflow.steps[q] := List.getElem?_eq_getElem (by omega)
    have hstraight := hs _ (List.mem_of_getElem? hat)
    cases hroom : rn.guard.hasRoom r with
    | false =>
      have hcurrent : rn.currentStep? r = some rn.workflow.steps[q] := by
        rw [currentStep?, hposition, Workflow.stepAt?_index hg, hat]
      rw [process_overrun (Run.isFinal_eq_false.2 hactive) hcurrent hstraight.goesOn.isCheckpoint
        hroom]
      exact .inl rfl
    | true =>
      obtain ⟨k, hk⟩ := Workflow.exists_firstAt hat
      have hfirst := Workflow.firstAt_of_indexOf? hk
      have hkp : k < p := by
        obtain hlt | rfl := Nat.lt_or_eq_of_le hq
        · exact Nat.lt_of_le_of_lt (hfirst.le hat rfl) hlt
        · rw [hat] at hp
          cases hp
          exact Nat.lt_of_le_of_lt (hfirst.le hi hid) hip
      obtain ⟨hnext, hstatus, -⟩ :=
        process_straight now a hg hactive hposition hat hstraight hroom hk
      rw [if_neg (by omega)] at hstatus
      exact .inr ⟨hstatus, k + 1, hkp, hnext⟩

theorem heldAt_processAll (hg : rn.workflow.isGraph = false)
    (hs : ∀ s ∈ rn.workflow.steps, s.Straight) (hip : i < p) {t : Step}
    (hi : rn.workflow.steps[i]? = some s) (hp : rn.workflow.steps[p]? = some t) (hid : s.id = t.id)
    (answers : List (Instant × Value)) (h : HeldAt p r) : HeldAt p (rn.processAll r answers) := by
  induction answers generalizing r with
  | nil => exact h
  | cons a answers ih => exact ih (heldAt_process hg hs hip hi hp hid h)

theorem processAll_distinct (hg : rn.workflow.isGraph = false)
    (hs : ∀ s ∈ rn.workflow.steps, s.Straight) (hd : rn.workflow.Distinct)
    (answers : List (Instant × Value)) (hr : r.status = .active) (hp : r.position = .index p)
    (hlt : p < rn.workflow.steps.length)
    (hlen : p + answers.length ≤ rn.workflow.steps.length)
    (hroom : r.iterations + answers.length ≤ rn.guard.maxIterations) :
    (rn.processAll r answers).position = .index (p + answers.length : Nat) ∧
      (rn.processAll r answers).status =
        if p + answers.length = rn.workflow.steps.length then .completed else .active := by
  induction answers generalizing r p with
  | nil =>
    rw [List.length_nil, Nat.add_zero, if_neg (by omega)]
    exact ⟨hp, hr⟩
  | cons a answers ih =>
    have hat : rn.workflow.steps[p]? = some rn.workflow.steps[p] := List.getElem?_eq_getElem hlt
    rw [List.length_cons] at hlen hroom
    have hcounted : rn.guard.hasRoom r = true := by
      simp only [Guard.hasRoom, decide_eq_true_eq]
      omega
    obtain ⟨hposition, hstatus, hiterations⟩ := process_straight a.1 a.2 hg hr hp hat
      (hs _ (List.mem_of_getElem? hat)) hcounted (Workflow.indexOf?_id hd hat)
    by_cases hend : p + 1 = rn.workflow.steps.length
    · obtain rfl : answers = [] := List.length_eq_zero_iff.1 (by omega)
      exact ⟨hposition, hstatus⟩
    · rw [if_neg hend] at hstatus
      have hrest := ih hstatus hposition (by omega) (by omega) (by rw [hiterations]; omega)
      rw [List.length_cons, show p + (answers.length + 1) = p + 1 + answers.length by omega]
      exact hrest

/-- A straight sequence can be got through exactly if no id repeats. -/
theorem completes_iff_distinct (hg : rn.workflow.isGraph = false)
    (hs : ∀ s ∈ rn.workflow.steps, s.Straight) (hne : rn.workflow.steps ≠ [])
    (hr : r.status = .active) (hp : r.position = .index 0)
    (hroom : r.iterations + rn.workflow.steps.length ≤ rn.guard.maxIterations) :
    (∃ answers, (rn.processAll r answers).status = .completed) ↔ rn.workflow.Distinct := by
  constructor
  · rintro ⟨answers, hend⟩
    by_contra hd
    obtain ⟨i, p, hip, _, hlt, hid⟩ : ∃ i p, i < p ∧ ∃ (_ : i < rn.workflow.steps.length)
        (_ : p < rn.workflow.steps.length), rn.workflow.steps[i].id = rn.workflow.steps[p].id := by
      simpa [Workflow.Distinct, List.Nodup, List.pairwise_iff_getElem] using hd
    have hstart : HeldAt p r := .inr ⟨hr, 0, Nat.zero_le p, hp⟩
    obtain herror | ⟨hactive, -⟩ := heldAt_processAll hg hs hip (List.getElem?_eq_getElem (by omega))
      (List.getElem?_eq_getElem hlt) hid answers hstart
    · rw [herror] at hend; cases hend
    · rw [hactive] at hend; cases hend
  · intro hd
    have hpos := List.length_pos_iff.2 hne
    obtain ⟨-, hstatus⟩ := processAll_distinct hg hs hd
      (List.replicate rn.workflow.steps.length (default, .null)) hr hp hpos (by simp)
      (by simpa using hroom)
    exact ⟨_, by simpa using hstatus⟩

end Runner
end Runbook
