import Runbook.Proofs.ReadGuarantees
import Runbook.Proofs.BatchAnswers

/-! What a step that is gone through may change. Its writes are confined to names of its own: they
are puts under these names, so that all other keys keep their values and none loses its place. -/
namespace Runbook

theorem Key.same_of_ne {k : Key} {name : String} (h : k ≠ .text name) :
    Key.same (.text name) k = false := by
  cases k with
  | text other =>
    have hne : name ≠ other := fun heq => h (congrArg Key.text heq.symm)
    simp [same_text, hne]
  | _ => rfl

namespace Store
variable {s t u : Store} {k : Key} {name : String} {names more : List String} {v : Value}

/-- The second store is the first after puts under some of the names. -/
inductive Written (names : List String) (s : Store) : Store → Prop where
  | none : Written names s s
  | put {t : Store} {name : String} (v : Value) : Written names s t → name ∈ names →
      Written names s (t.put (.text name) v)

namespace Written

theorem trans (h : Written names s t) (h' : Written names t u) : Written names s u := by
  induction h' with
  | none => exact h
  | put v _ hname ih => exact ih.put v hname

theorem mono (h : Written names s t) (hmore : ∀ name ∈ names, name ∈ more) : Written more s t := by
  induction h with
  | none => exact .none
  | put v _ hname ih => exact ih.put v (hmore _ hname)

end Written

theorem written_recordAll (s : Store) (names : List String) (v : Value) :
    Written names s (s.recordAll names v) := by
  induction names generalizing s with
  | nil => exact .none
  | cons name names ih =>
    have hfirst : Written (name :: names) s (s.put (.text name) v) :=
      Written.none.put v List.mem_cons_self
    exact hfirst.trans ((ih (s.put (.text name) v)).mono fun _ => List.mem_cons_of_mem _)

theorem get?_put_of_ne (h : k ≠ .text name) : (s.put (.text name) v).get? k = s.get? k := by
  induction s with
  | nil => simp [put, get?, Key.same_of_ne h]
  | cons head rest ih =>
    by_cases hhead : head.1 = .text name
    · simp [put, get?, hhead, Key.same_of_ne h]
    · have hsame : head.1.same (.text name) = false :=
        Bool.eq_false_iff.2 (mt Key.same_text_iff.1 hhead)
      simp [put, get?, hsame, ih]

theorem keys_prefix_put (s : Store) (key : Key) (v : Value) :
    s.map (·.1) <+: (s.put key v).map (·.1) := by
  induction s with
  | nil => exact List.nil_prefix
  | cons head rest ih =>
    simp only [put]
    split
    · exact List.prefix_rfl
    · exact (List.prefix_cons_inj head.1).2 ih

namespace Written

theorem get?_eq (h : Written names s t) (hk : ∀ name ∈ names, k ≠ .text name) :
    t.get? k = s.get? k := by
  induction h with
  | none => rfl
  | put v _ hname ih => rw [get?_put_of_ne (hk _ hname), ih]

theorem keys_prefix (h : Written names s t) : s.map (·.1) <+: t.map (·.1) := by
  induction h with
  | none => exact List.prefix_rfl
  | put v _ _ ih => exact ih.trans (keys_prefix_put ..)

theorem eq_of_nil (h : Written [] s t) : t = s := by
  cases h with
  | none => rfl
  | put v _ hname => cases hname

end Written
end Store

namespace Step

def titleName (s : Step) : List String := [s.title].filter (!·.isEmpty)

/-- The names among the results that a step owns when it is given an answer. -/
def resultNames (s : Step) (a : Value) : List String :=
  match s.body with
  | .question q => if a.present then q.names s.title else []
  | .action x => s.titleName ++ x.outputs.map (·.name)
  | .message _ => s.titleName
  | .escalate _ => s.titleName ++ ["_escalation"]
  | .resolve _ => s.titleName ++ ["_resolution"]
  | .decision _ | .checkpoint _ | .subFlow _ => []

/-- The names among the inputs that a step at a position owns when it is given an answer. -/
def inputNamesAt (s : Step) (p : Position) (a : Value) : List String :=
  match s.body with
  | .question q => if a.present then p.toValue.display :: q.names s.title else []
  | _ => []

variable {s : Step} {rs : Store}

theorem written_title (s : Step) (rs : Store) (v : Value) :
    rs.Written s.titleName (rs.record s.title v) := by
  unfold Store.record
  split
  · exact .none
  · next hne => exact .put v .none (by simpa [titleName] using hne)

theorem written_apply (x : Action) : rs.Written (s.titleName ++ x.outputs.map (·.name))
    (x.apply s.title rs) := by
  have hfold : ∀ (os : List OutputField) (t : Store), t.Written (os.map (·.name))
      (os.foldl (fun rs o => rs.put (.text o.name) (.text (Template.fill rs o.template))) t) := by
    intro os
    induction os with
    | nil => exact fun _ => .none
    | cons o os ih =>
      intro t
      have hfirst : t.Written ((o :: os).map (·.name))
          (t.put (.text o.name) (.text (Template.fill t o.template))) :=
        .put _ .none List.mem_cons_self
      exact hfirst.trans ((ih _).mono fun _ => List.mem_cons_of_mem _)
  have htitle : rs.Written (s.titleName ++ x.outputs.map (·.name))
      (rs.record s.title (.text "Action executed")) :=
    (s.written_title rs _).mono fun _ => List.mem_append_left _
  exact htitle.trans ((hfold x.outputs _).mono fun _ => List.mem_append_right _)

theorem written_titled (v w : Value) (name : String) :
    rs.Written (s.titleName ++ [name]) ((rs.record s.title v).put (.text name) w) :=
  .put w ((s.written_title rs v).mono fun _ => List.mem_append_left _) (by simp)

end Step

namespace Workflow
variable {w : Workflow} {now : Instant} {r r' : Run} {s : Step} {a : Value} {o : Outcome}

theorem written_results (s : Step) (r : Run) (a : Value) :
    r.results.Written (s.resultNames a) (writes s r a).results := by
  cases hb : s.body with
  | question q =>
    cases ha : a.present with
    | true =>
      simp only [writes, Step.resultNames, hb, q.record_eq s.title r.position ha, ha, if_true]
      exact Store.written_recordAll ..
    | false =>
      simp only [writes, hb, Question.record, ha, Bool.false_eq_true, if_false]
      exact .none
  | action x =>
    simp only [writes, Step.resultNames, hb]
    exact Step.written_apply x
  | message _ =>
    simp only [writes, Step.resultNames, hb]
    exact s.written_title ..
  | escalate x =>
    simp only [writes, Step.resultNames, hb]
    exact Step.written_titled ..
  | resolve x =>
    simp only [writes, Step.resultNames, hb]
    exact Step.written_titled ..
  | _ =>
    simp only [writes, hb]
    exact .none

theorem written_inputs (s : Step) (r : Run) (a : Value) :
    r.inputs.Written (s.inputNamesAt r.position a) (writes s r a).inputs := by
  cases hb : s.body with
  | question q =>
    cases ha : a.present with
    | true =>
      simp only [writes, Step.inputNamesAt, hb, q.record_eq s.title r.position ha, ha, if_true]
      exact Store.written_recordAll ..
    | false =>
      simp only [writes, hb, Question.record, ha, Bool.false_eq_true, if_false]
      exact .none
  | _ =>
    simp only [writes, hb]
    exact .none

theorem get_writes {q : Question} (hq : s.body = .question q) :
    (∀ name ∈ s.resultNames a, (writes s r a).results.get (.text name) = a) ∧
      ∀ name ∈ s.inputNamesAt r.position a, (writes s r a).inputs.get (.text name) = a := by
  cases ha : a.present with
  | true =>
    simp only [writes, Step.resultNames, Step.inputNamesAt, hq, q.record_eq s.title r.position ha,
      ha, if_true]
    exact ⟨fun name => Store.get_recordAll_of_mem, fun name => Store.get_recordAll_of_mem⟩
  | false => simp [Step.resultNames, Step.inputNamesAt, hq, ha]

theorem entryOf_tellsOf (now : Instant) (s : Step) (p : Position) (rs : Store) (a : Value) :
    (entryOf now s p rs a).TellsOf p s := by
  cases hb : s.body <;> simp only [entryOf, hb] <;> exact ⟨rfl, rfl, rfl, rfl⟩

end Workflow

theorem Run.move_eq (r : Run) (w : Workflow) (p : Position) :
    ∃ status position, r.move w p = { r with status, position } := by
  unfold move
  split
  · exact ⟨_, _, rfl⟩
  · exact ⟨_, _, rfl⟩

namespace Workflow
variable {w : Workflow} {now : Instant} {r r' : Run} {s : Step} {a : Value} {o : Outcome}

/-- All that a step which advances leaves of a run, wherever it goes on. -/
theorem process_advanced (h : w.process now r s a = (r', .ok o)) (ho : o.isAdvanced = true) :
    ∃ place e status position, r.position.recorded = .ok place ∧ e.TellsOf place s ∧
      r' = { writes s r a with trail := r.trail ++ [e], status, position } := by
  have hp : (writes s r a).position = r.position := by rw [writes_eq]
  have ht : (writes s r a).trail = r.trail := by rw [writes_eq]
  -- Either way there is an entry, and a place to go on to.
  suffices hmove : ∃ place e p, r.position.recorded = .ok place ∧ e.TellsOf place s ∧
      r' = ((writes s r a).append e).move w p by
    obtain ⟨place, e, p, hplace, he, rfl⟩ := hmove
    obtain ⟨status, position, hmoved⟩ := ((writes s r a).append e).move_eq w p
    refine ⟨place, e, status, position, hplace, he, ?_⟩
    rw [hmoved, Run.append, ht]
  unfold process at h
  split at h
  · cases h
    cases ho
  · split at h
    · cases h
      cases ho
    · simp only at h
      split at h
      · next r'' hnext =>
        cases h
        split at hnext
        · obtain ⟨place, hplace, hdone⟩ := bind_eq_ok.1 hnext
          cases hdone
          exact ⟨place, _, w.endPosition, hp ▸ hplace, entryOf_tellsOf ..,
            (Run.move_endPosition ..).symm⟩
        · obtain ⟨route, -, hnext⟩ := bind_eq_ok.1 hnext
          obtain ⟨place, hplace, hdone⟩ := bind_eq_ok.1 hnext
          cases hdone
          exact ⟨place, _, route.position, hp ▸ hplace, entryAfter_tellsOf .., rfl⟩
      · cases h

end Workflow

theorem Reading.same_integer {v : Value} (hv : ∀ s, v ≠ .text s) (h : (integer v).faults = []) :
    (Value.whole (integer v).value).same v = true := by
  cases v with
  | flag b => simp [integer, Value.same, Value.number?, Number.same]
  | whole n => simp [integer, Value.same, Value.number?, Number.same]
  | real x =>
    simp only [integer] at h ⊢
    split at h
    · cases h
    · next hfinite =>
      rw [if_neg hfinite]
      split at h
      · cases h
      · next n hn =>
        split at h
        · next hsmall => simp [hsmall, Value.same, Value.number?, Number.same, hn]
        · cases h
  | text s => exact absurd rfl (hv s)
  | _ => cases h

namespace Position

theorem same_of_read {v : Value} (h : (read v).faults = []) :
    (read v).value.toValue.same v = true := by
  have hinteger : ∀ v, ofValue v = .foreign v → (∀ s, v ≠ .text s) → (read v).faults = [] →
      (read v).value.toValue.same v = true := by
    intro v hforeign htext h
    simp only [read, hforeign] at h ⊢
    split at h
    · next hread =>
      rw [if_pos hread]
      have hfaults : (Reading.integer v).faults = [] := by simpa [Reading.under] using hread
      exact Reading.same_integer htext hfaults
    · simp at h
  cases v with
  | null => rfl
  | whole n => simp [read, ofValue, toValue, Value.same, Value.number?, Number.same]
  | text s => simp [read, ofValue, toValue, Value.same]
  | _ =>
    refine hinteger _ rfl (fun s hs => ?_) h
    cases hs

theorem same_of_recorded {p q : Position} (h : p.recorded = .ok q) :
    q.toValue.same p.toValue = true ∧ ((∀ v, p ≠ .foreign v) → q = p) := by
  obtain ⟨hfaults, hvalue⟩ := Reading.toExcept_eq_ok.1 h
  have hread : (read p.toValue).faults = [] := by simpa [Reading.under] using hfaults
  have hq : (read p.toValue).value = q := hvalue
  refine ⟨hq ▸ same_of_read hread, fun hp => ?_⟩
  rw [← hq]
  cases p with
  | foreign v => exact absurd rfl (hp v)
  | _ => rfl

end Position

/-- What a step that is given an answer may change of a run when it advances, apart from where the
run goes on and whether it is over. -/
structure Step.Confined (s : Step) (a : Value) (r r' : Run) : Prop where
  id : r'.id = r.id
  workflowId : r'.workflowId = r.workflowId
  stoppedAt : r'.stoppedAt = r.stoppedAt
  iterations : r'.iterations = r.iterations
  trail : ∃ e, r'.trail = r.trail ++ [e] ∧ e.stepId = some s.id ∧ e.stepTitle = s.title ∧
    e.stepType = s.kind ∧ e.position.toValue.same r.position.toValue = true ∧
    ((∀ v, r.position ≠ .foreign v) → e.position = r.position)
  results : ∀ k, (∀ name ∈ s.resultNames a, k ≠ .text name) → r'.results.get? k = r.results.get? k
  resultsOrder : r.results.map (·.1) <+: r'.results.map (·.1)
  resultsIdle : s.resultNames a = [] → r'.results = r.results
  inputs : ∀ k, (∀ name ∈ s.inputNamesAt r.position a, k ≠ .text name) →
    r'.inputs.get? k = r.inputs.get? k
  inputsOrder : r.inputs.map (·.1) <+: r'.inputs.map (·.1)
  inputsIdle : s.inputNamesAt r.position a = [] → r'.inputs = r.inputs
  answered : ∀ q, s.body = .question q →
    (∀ name ∈ s.resultNames a, r'.results.get (.text name) = a) ∧
      ∀ name ∈ s.inputNamesAt r.position a, r'.inputs.get (.text name) = a

/-- A step that advances writes only what it owns: among the inputs the names of a question that is
answered, among the results the names of its kind. All else stays, in the order in which it was. -/
theorem Workflow.confined_of_advanced {w : Workflow} {now : Instant} {r r' : Run} {s : Step}
    {a : Value} {o : Outcome} (h : w.process now r s a = (r', .ok o)) (ho : o.isAdvanced = true) :
    s.Confined a r r' := by
  obtain ⟨place, e, status, position, hplace, he, rfl⟩ := process_advanced h ho
  have hresults := written_results s r a
  have hinputs := written_inputs s r a
  obtain ⟨hsame, hplain⟩ := Position.same_of_recorded hplace
  exact {
    id := by rw [writes_eq]
    workflowId := by rw [writes_eq]
    stoppedAt := by rw [writes_eq]
    iterations := by rw [writes_eq]
    trail := ⟨e, rfl, he.stepId, he.stepTitle, he.stepType, he.position ▸ hsame,
      fun hp => he.position.trans (hplain hp)⟩
    results := fun k => hresults.get?_eq
    resultsOrder := hresults.keys_prefix
    resultsIdle := fun hnone => (hnone ▸ hresults).eq_of_nil
    inputs := fun k => hinputs.get?_eq
    inputsOrder := hinputs.keys_prefix
    inputsIdle := fun hnone => (hnone ▸ hinputs).eq_of_nil
    answered := fun q => get_writes }

theorem Workflow.confined_of_advanced_sample :
    let r := { Runner.sample.opening "run" [] with
      results := [(.text "Again?", .text "no"), (.text "Finish", .text "Action executed")] }
    let x := Runner.sample.workflow.process .leapDay r Runner.sample.workflow.steps[0] (.text "yes")
    let r' := x.1
    x.2 = .ok (.advanced (.index 1)) ∧
      r'.results = [(.text "Again?", .text "yes"), (.text "Finish", .text "Action executed"),
        (.text "answer", .text "yes")] ∧
      Runner.sample.workflow.steps[0].Confined (.text "yes") r r' := by
  intro r x r'
  have hadvanced : x.2 = .ok (.advanced (.index 1)) := rfl
  exact ⟨hadvanced, rfl, confined_of_advanced (Prod.ext rfl hadvanced) rfl⟩

end Runbook
