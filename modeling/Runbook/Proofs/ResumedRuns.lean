import Runbook.Proofs.WorkflowRoundTrip
import Runbook.Proofs.ReachableRuns
import Runbook.Proofs.SavedRuns

/-! Runs that a runner's calls lead to, whether the calls return or fail, can be saved and resumed:
where callers give data only, there is nothing else in a run. What sets a limit is the reader of the
text alone. -/
namespace Runbook
open Value

namespace Store
variable {s added : Store} {v : Value}

theorem isData_nil : IsData [] := ⟨[], rfl, rfl⟩

theorem put_ofFields (f : Fields) (name : String) (v : Value) :
    (ofFields f).put (.text name) v = ofFields (f.put name v) := by
  induction f with
  | nil => rfl
  | cons head f ih =>
    obtain ⟨k, w⟩ := head
    have hcons : ofFields ((k, w) :: f) = (.text k, w) :: ofFields f := rfl
    rw [hcons, put, Key.same_text, Fields.put]
    split
    · rfl
    · rw [ih]
      rfl

end Store

namespace Fields
variable {f : Fields} {name : String} {v : Value}

theorem forall_put {P : Value → Prop} (h : ∀ kv ∈ f, P kv.2) (hv : P v) :
    ∀ kv ∈ f.put name v, P kv.2 := by
  induction f with
  | nil => simpa [put] using hv
  | cons head f ih =>
    rw [List.forall_mem_cons] at h
    rw [put]
    split
    · exact List.forall_mem_cons.2 ⟨hv, h.2⟩
    · exact List.forall_mem_cons.2 ⟨h.1, ih h.2⟩

theorem names_put (f : Fields) (name : String) (v : Value) :
    (f.put name v).map (·.1) =
      if name ∈ f.map (·.1) then f.map (·.1) else f.map (·.1) ++ [name] := by
  induction f with
  | nil => rfl
  | cons head f ih =>
    by_cases hk : head.1 = name
    · simp [put, hk]
    · have hne : ¬name = head.1 := fun h => hk h.symm
      by_cases hmem : name ∈ f.map (·.1)
      · simp only [put, beq_iff_eq, hk, if_false, List.map_cons, ih, hmem, if_true, List.mem_cons,
          or_true]
      · simp only [put, beq_iff_eq, hk, if_false, List.map_cons, ih, hmem, hne, List.mem_cons,
          or_false, List.cons_append]

theorem nodup_put (h : (f.map (·.1)).Nodup) : ((f.put name v).map (·.1)).Nodup := by
  rw [names_put]
  split
  · exact h
  · rename_i hnew
    exact List.nodup_append.2 ⟨h, List.pairwise_singleton _ name, fun a ha b hb => by
      rw [List.mem_singleton.1 hb]
      rintro rfl
      exact hnew ha⟩

theorem isData_put (h : (Value.record f).isData = true) (hv : v.isData = true) :
    (Value.record (f.put name v)).isData = true := by
  rw [isData_record] at h ⊢
  exact ⟨nodup_put h.1, forall_put (P := (·.isData = true)) h.2 hv⟩

end Fields

namespace Store
variable {s added : Store} {v : Value}

theorem IsData.put (h : s.IsData) (hv : v.isData = true) (name : String) :
    (s.put (.text name) v).IsData := by
  obtain ⟨f, rfl, hf⟩ := h
  exact ⟨f.put name v, put_ofFields f name v, Fields.isData_put hf hv⟩

theorem IsData.record (h : s.IsData) (hv : v.isData = true) (name : String) :
    (s.record name v).IsData := by
  unfold Store.record
  split
  · exact h
  · exact h.put hv name

theorem IsData.merge (h : s.IsData) (ha : added.IsData) : (s.merge added).IsData := by
  obtain ⟨f, rfl, hf⟩ := ha
  replace hf := (isData_record.1 hf).2
  induction f generalizing s with
  | nil => exact h
  | cons kv f ih =>
    rw [List.forall_mem_cons] at hf
    exact ih (h.put hf.1 kv.1) hf.2

theorem IsData.get (h : s.IsData) (key : Key) : (s.get key).isData = true := by
  obtain ⟨f, rfl, hf⟩ := h
  replace hf := (isData_record.1 hf).2
  induction f with
  | nil => rfl
  | cons kv f ih =>
    rw [List.forall_mem_cons] at hf
    have hcons : ofFields (kv :: f) = (.text kv.1, kv.2) :: ofFields f := rfl
    rw [hcons, Store.get, get?]
    split
    · exact hf.1
    · exact ih hf.2

end Store

namespace Workflow
variable {w : Workflow} {s : Step} {p : Position}

theorem isPlain_endPosition (w : Workflow) : w.endPosition.isPlain = true := by
  unfold endPosition
  split <;> rfl

theorem isPlain_startPosition (w : Workflow) : w.startPosition.isPlain = true := by
  unfold startPosition
  split
  · split <;> rfl
  · rfl

theorem isPlain_positionOf (w : Workflow) (s : Step) : (w.positionOf s).isPlain = true := by
  unfold positionOf
  split
  · rfl
  · split <;> rfl

theorem Leads.isPlain (h : w.Leads s p) : p.isPlain = true := by
  cases h with
  | jump _ _ => exact w.isPlain_positionOf _
  | branch _ _ _ => exact w.isPlain_positionOf _
  | otherwise _ _ => exact w.isPlain_positionOf _
  | transition _ _ _ => rfl
  | next _ =>
    simp only [sequential]
    split <;> rfl
  | deadEnd _ => rfl

theorem isPlain_way {rs : Store} {route : Route} (h : w.way s rs = .ok route) :
    route.position.isPlain = true := by
  obtain hend | hleads := way_leads h
  · rw [hend]
    exact w.isPlain_endPosition
  · exact hleads.isPlain

theorem isPlain_checkpointWay {resolved : Value} {rs : Store}
    (h : w.checkpointWay s resolved rs = .ok p) : p.isPlain = true := by
  obtain hend | hleads := checkpointWay_leads h
  · rw [hend]
    exact w.isPlain_endPosition
  · exact hleads.isPlain

end Workflow

theorem isData_ofSet {f : Fields} (hnames : (f.map (·.1)).Nodup)
    (hvalues : ∀ kv ∈ f, kv.2.isData = true) : (Fields.ofSet f).isData = true := by
  refine isData_record.2 ⟨?_, fun kv hkv => hvalues kv (List.mem_filter.1 hkv).1⟩
  exact hnames.sublist ((List.filter_sublist).map _)

theorem Escalation.isData_toRecord (e : Escalation) : e.toRecord.isData = true :=
  isData_ofSet (by simp) (by simp)

theorem Resolution.isData_toRecord (x : Resolution) : x.toRecord.isData = true :=
  isData_ofSet (by simp) (by simp)

theorem Action.isData_apply (a : Action) (title : String) {rs : Store} (h : rs.IsData) :
    (a.apply title rs).IsData := by
  have hstart := h.record (isData_text "Action executed") title
  have houtputs : ∀ (outputs : List OutputField) (rs : Store), rs.IsData →
      (outputs.foldl (fun rs o => rs.put (.text o.name) (.text (Template.fill rs o.template)))
        rs).IsData := by
    intro outputs
    induction outputs with
    | nil => exact fun _ h => h
    | cons o outputs ih => exact fun rs h => ih _ (h.put (isData_text _) o.name)
  exact houtputs a.outputs _ hstart

namespace Run
variable {r : Run} {w : Workflow} {s : Step} {a : Value}

theorem Storable.writes_results (h : r.Storable) (ha : a.isData = true) :
    (Workflow.writes s r a).results.IsData := by
  have hresults := h.results
  unfold Workflow.writes
  cases hb : s.body with
  | question q =>
    simp only [Question.record]
    split
    · exact (hresults.record ha _).record ha _
    · exact hresults
  | action x => exact x.isData_apply s.title hresults
  | message content => exact hresults.record (isData_text _) _
  | escalate e => exact (hresults.record (isData_text _) _).put e.isData_toRecord _
  | resolve x => exact (hresults.record (isData_text _) _).put x.isData_toRecord _
  | decision d => exact hresults
  | checkpoint m => exact hresults
  | subFlow f => exact hresults

theorem Storable.writes_inputs (h : r.Storable) (ha : a.isData = true) :
    (Workflow.writes s r a).inputs.IsData := by
  have hinputs := h.inputs
  unfold Workflow.writes
  cases hb : s.body with
  | question q =>
    simp only [Question.record]
    split
    · exact ((hinputs.put ha _).record ha _).record ha _
    · exact hinputs
  | _ => exact hinputs

theorem storable_entryAfter (h : r.Storable) (ha : a.isData = true) (now : Instant) (rs : Store)
    (route : Route) :
    (Workflow.entryAfter now s r.position rs a route).Storable := by
  have hposition := (Workflow.entryAfter_tellsOf now s r.position rs a route).position
  refine ⟨by rw [hposition]; exact h.position, ?_, ?_⟩
  · cases hb : s.body <;>
      simp [Workflow.entryAfter, Workflow.Entry.routed, Workflow.entryOf, hb, Entry.of, ha]
  · rw [Workflow.entryAfter_time]
    exact now.sound_stamp

namespace Storable
variable {results inputs : Store} {e : Entry} {p : Position}

theorem finish (h : r.Storable) (w : Workflow) : (r.finish w).Storable :=
  { h with position := w.isPlain_endPosition }

theorem fail (h : r.Storable) (status : Status) (message : String) :
    (r.fail status message).Storable :=
  { h with results := h.results.put (isData_text message) _ }

theorem merge (h : r.Storable) (hadded : inputs.IsData) :
    ({ r with inputs := r.inputs.merge inputs } : Run).Storable :=
  { h with inputs := h.inputs.merge hadded }

theorem stop (h : r.Storable) {place : Value} (hp : (Position.ofValue place).isPlain = true) :
    (r.stop place).Storable := by
  refine { h with stoppedAt := ?_ }
  simp only [Run.stop]
  split
  · exact h.position
  · exact hp

theorem append (h : r.Storable) (he : e.Storable) : (r.append e).Storable := by
  refine { h with trail := fun f hf => ?_ }
  obtain hf | hf := List.mem_append.1 hf
  · exact h.trail f hf
  · rw [List.mem_singleton.1 hf]
    exact he

theorem move (h : r.Storable) (hp : p.isPlain = true) : (r.move w p).Storable := by
  unfold Run.move
  split
  · exact h.finish w
  · exact { h with position := hp }

theorem stores (h : r.Storable) (hresults : results.IsData) (hinputs : inputs.IsData) (n : Int) :
    ({ r with results, inputs, iterations := n } : Run).Storable :=
  { h with results := hresults, inputs := hinputs }

theorem stepped (h : r.Storable) (hresults : results.IsData) (hinputs : inputs.IsData)
    (he : e.Storable) (hp : p.isPlain = true) : (r.stepped w results inputs e p).Storable := by
  have hstores := h.stores hresults hinputs (r.iterations + 1)
  unfold Run.stepped
  exact (hstores.append he).move hp

end Storable
end Run

namespace Runner
variable {rn : Runner} {now : Instant} {r r' : Run} {a : Value}

theorem storable_start {id : String} {inputs : Store} (hinputs : inputs.IsData)
    (h : rn.start id inputs = .ok r) : r.Storable := by
  have hopening : (rn.opening id inputs).Storable :=
    ⟨rn.workflow.isPlain_startPosition, rfl, by simp [opening], Store.isData_nil, hinputs⟩
  obtain ⟨-, rfl⟩ | ⟨s, -, rfl⟩ := started h
  · exact hopening.finish rn.workflow
  · exact hopening

theorem storable_process (h : r.Storable) (ha : a.isData = true) :
    (rn.process now r a).1.Storable := by
  cases hf : r.isFinal with
  | true =>
    rw [process_final hf]
    exact h
  | false =>
    cases hs : rn.currentStep? r with
    | none =>
      rw [process_ended hf hs]
      exact h.finish rn.workflow
    | some s =>
      cases hc : s.isCheckpoint with
      | true =>
        rw [process_waiting hf hs hc]
        exact h
      | false =>
        cases hg : rn.guard.hasRoom r with
        | false =>
          rw [process_overrun hf hs hc hg]
          exact h.fail _ _
        | true =>
          rw [process_eq hf hs hc hg]
          -- what the step writes is kept even where it has no way on
          cases hway : rn.workflow.way s (Workflow.writes s r a).results with
          | error e =>
            rw [Workflow.writes_eq s r a]
            exact h.stores (h.writes_results ha) (h.writes_inputs ha) _
          | ok route =>
            exact h.stepped (h.writes_results ha) (h.writes_inputs ha)
              (Run.storable_entryAfter h ha now _ route) (Workflow.isPlain_way hway)

theorem storable_checkpointEntry {s : Step} {resolved notes : Value} {e : Entry} (h : r.Storable)
    (he : (Workflow.checkpointEntry now s r.position resolved notes).toExcept "ExecutionEntry" =
      .ok e) : e.Storable := by
  unfold Reading.toExcept at he
  split at he
  · cases he
    exact ⟨h.position, rfl, now.sound_stamp⟩
  · cases he

theorem storable_answerCheckpoint (h : r.Storable) (resolved notes : Value) :
    (rn.answerCheckpoint now r resolved notes).1.Storable := by
  cases hf : r.isFinal with
  | true =>
    rw [answerCheckpoint_final hf]
    exact h
  | false =>
    cases hs : (rn.currentStep? r).any (·.isCheckpoint) with
    | false =>
      rw [answerCheckpoint_refused hs]
      exact h
    | true =>
      obtain ⟨s, hs, hc⟩ := (Option.any_eq_true _ _).1 hs
      cases hg : rn.guard.hasRoom r with
      | false =>
        rw [answerCheckpoint_overrun hf hs hc hg]
        exact h.fail _ _
      | true =>
        rw [answerCheckpoint_eq hf hs hc hg]
        have hresults := h.results.record (isData_text
          (if resolved.truthy then "Issue resolved - workflow completed"
            else "Issue not resolved - continuing workflow")) s.title
        cases he : (Workflow.checkpointEntry now s r.position resolved notes).toExcept
            "ExecutionEntry" with
        | error f => exact h.stores h.results h.inputs _
        | ok e =>
          have hentry := storable_checkpointEntry h he
          cases hway : rn.workflow.checkpointWay s resolved
              (r.results.record s.title (Workflow.checkpointText resolved)) with
          | error o =>
            simp only [hway]
            exact (h.stores hresults h.inputs _).append hentry
          | ok p =>
            simp only [hway]
            exact h.stepped hresults h.inputs hentry (Workflow.isPlain_checkpointWay hway)

theorem isData_answerFor (h : r.Storable) (s : Step) : (answerFor r s).isData = true := by
  have hnull : ∀ {vs : List Value} {p : Value → Bool}, (∀ v ∈ vs, v.isData = true) →
      ((vs.find? p).getD .null).isData = true := by
    intro vs p hvs
    cases hfind : vs.find? p with
    | none => rfl
    | some v => exact hvs v (List.mem_of_find?_eq_some hfind)
  unfold answerFor
  split
  · refine hnull fun v hv => ?_
    obtain ⟨name, -, rfl⟩ := List.mem_map.1 hv
    exact h.inputs.get _
  · rfl

theorem isData_answerHere (rn : Runner) (h : r.Storable) : (rn.answerHere r).isData = true := by
  unfold answerHere
  split
  · exact isData_answerFor h _
  · rfl

variable {κ τ : Type} [Moment τ] [Clock κ τ]

theorem storable_execute {inputs : Store} (h : r.Storable) (hinputs : inputs.IsData) (clock : κ) :
    (rn.execute r inputs clock).1.Storable := by
  cases hx : (rn.execute r inputs clock).2.1 with
  | error e =>
    rw [execute_failed hx]
    exact h
  | ok b =>
    cases hf : r.isFinal with
    | true =>
      rw [execute_final hf]
      exact h
    | false =>
      have hrun : rn.execute r inputs clock = ((rn.execute r inputs clock).1, .ok b,
          (rn.execute r inputs clock).2.2) := Prod.ext rfl (Prod.ext hx rfl)
      obtain ⟨deadline, s, halt, c, hdrive, hcommit⟩ := execute_driven hf hrun
      have hkept : s.Storable := by
        refine drive_keeps (P := Run.Storable) (fun now r r' b hr _ hp => ?_) (h.merge hinputs)
          hdrive
        have hprocess : (rn.process now r (rn.answerHere r)).1.Storable :=
          storable_process hr (isData_answerHere rn hr)
        rwa [hp] at hprocess
      obtain heq | heq := commit_run hcommit
      · rw [heq]
        exact hkept
      · rw [heq]
        exact hkept.fail _ _

end Runner

/-- A call that gives data only, and stops at an index, at an id or where the run stands. -/
def Call.IsData {κ : Type} : Call κ → Prop
  | .process _ answer => answer.isData = true
  | .answerCheckpoint _ resolved notes => resolved.isData = true ∧ notes.isData = true
  | .execute inputs _ => inputs.IsData
  | .stop place => (Position.ofValue place).isPlain = true

namespace Runner
variable {κ τ : Type} [Moment τ] [Clock κ τ] {rn : Runner} {r : Run}

/-- The runs that a start and calls after it lead to, also where calls fail, if callers give data
only. -/
inductive Ran (κ : Type) {τ : Type} [Moment τ] [Clock κ τ] (rn : Runner) : Run → Prop where
  | start {id : String} {inputs : Store} {r : Run} : inputs.IsData →
      rn.start id inputs = .ok r → Ran κ rn r
  | call {r : Run} (c : Call κ) : c.IsData → Ran κ rn r → Ran κ rn (rn.call r c).1

theorem storable_call {c : Call κ} (hc : c.IsData) (h : r.Storable) :
    (rn.call r c).1.Storable := by
  cases c with
  | process now a => exact storable_process h hc
  | answerCheckpoint now resolved notes => exact storable_answerCheckpoint h resolved notes
  | execute inputs clock => exact storable_execute h hc clock
  | stop place => exact h.stop hc

theorem Ran.storable (h : Ran κ rn r) : r.Storable := by
  induction h with
  | start hinputs hs => exact storable_start hinputs hs
  | call c hc _ ih => exact storable_call hc ih

end Runner

namespace Workflow

theorem isData_nested (n : Nat) : (nested n).isData = true := by
  induction n with
  | zero => rfl
  | succ n ih => exact isData_list.2 (by simpa using ih)

theorem isShort_nested (n : Nat) : (nested n).isShort = true := by
  induction n with
  | zero => rfl
  | succ n ih => exact isShort_list.2 (by simpa using ih)

end Workflow

namespace Runner
open Workflow (nested height_nested isData_nested isShort_nested)

def asked (a : Value) : Run := (sample.process .leapDay (sample.opening "run" []) a).1

theorem ran_asked {a : Value} (ha : a.isData = true) : Ran SteadyClock sample (asked a) :=
  .call (.process .leapDay a) ha (.start Store.isData_nil rfl)

theorem legible_asked {n : Nat} (hn : n ≤ 196) : (asked (nested (n + 1))).Legible := by
  have hrun : asked (nested (n + 1)) =
      { id := "run", workflowId := some "sample", status := .active, position := .index 1,
        stoppedAt := .nowhere,
        trail := [⟨.index 0, some "ask", "Again?", "question", nested (n + 1), none, none, none,
          none, none, none, none, Instant.leapDay.stamp⟩],
        results := .ofFields [("answer", nested (n + 1)), ("Again?", nested (n + 1))],
        inputs := .ofFields [("0", nested (n + 1)), ("answer", nested (n + 1)),
          ("Again?", nested (n + 1))],
        iterations := 1 } := rfl
  have hanswer := isShort_nested (n + 1)
  have hzero : (whole 0).isShort = true := isShort_whole.2 (Binary64.tenTo_pos _)
  have hone : (whole 1).isShort = true := isShort_whole.2 (Binary64.one_lt_tenTo (by decide))
  rw [hrun]
  constructor
  · simp only [Run.toRecord, Entry.toRecord, Store.ofStore_ofFields, List.map_cons, List.map_nil,
      Value.height, heightOfFields, heightOfItems, height_nested, Position.saved, Position.toValue,
      ofText?, ofFlag?, Run.maxOpen]
    omega
  · simp [Run.toRecord, Entry.toRecord, Store.ofStore_ofFields, isShort_record, isShort_list,
      Position.saved, Position.toValue, ofText?, ofFlag?, hanswer, hzero, hone]

theorem fits_of_legible_asked {a : Value} (h : (asked a).Legible) :
    a.height ≤ 198 ∧ a.isShort = true := by
  have htrail : ∃ e ∈ (asked a).trail, e.answer = a := ⟨_, List.mem_singleton_self _, rfl⟩
  obtain ⟨e, he, rfl⟩ := htrail
  have hheight := h.height_answer he
  simp only [Run.maxOpen] at hheight
  exact ⟨by omega, h.short_answer he⟩

variable {κ τ : Type} [Moment τ] [Clock κ τ] {rn : Runner} {r : Run}

/-- Whatever calls led to a run, it is saved as a text that restores it exactly, just if its record
is no deeper than the reader allows and no whole number in it is too long. -/
theorem restored_iff_legible (h : Ran κ rn r) :
    (∃ text, r.toJson = .ok text ∧ ∀ fresh now, Run.ofJson fresh now text = .ok r) ↔
      r.Legible :=
  Run.restored_iff h.storable

theorem restored_iff_legible_sample :
    Ran SteadyClock sample (asked (nested 197)) ∧
      ∃ text, (asked (nested 197)).toJson = .ok text ∧
        ∀ fresh now, Run.ofJson fresh now text = .ok (asked (nested 197)) := by
  have hran := @ran_asked (nested 197) (isData_nested 197)
  exact ⟨hran, (restored_iff_legible hran).2 (legible_asked (by decide))⟩

/-- With one list more, or with a whole number that is too long, the run is not restored. -/
theorem not_restored :
    (Ran SteadyClock sample (asked (nested 198)) ∧
      ¬∃ text, (asked (nested 198)).toJson = .ok text ∧
        ∀ fresh now, Run.ofJson fresh now text = .ok (asked (nested 198))) ∧
    (Ran SteadyClock sample (asked (.whole (tenTo Numeral.maxDigits))) ∧
      ¬∃ text, (asked (.whole (tenTo Numeral.maxDigits))).toJson = .ok text ∧
        ∀ fresh now, Run.ofJson fresh now text = .ok (asked (.whole (tenTo Numeral.maxDigits)))) := by
  have hdeep := @ran_asked (nested 198) (isData_nested 198)
  have hlong := @ran_asked (.whole (tenTo Numeral.maxDigits)) rfl
  refine ⟨⟨hdeep, fun h => ?deep⟩, hlong, fun h => ?long⟩
  case deep =>
    have hfit := (fits_of_legible_asked ((Run.restored_iff hdeep.storable).1 h)).1
    rw [height_nested] at hfit
    omega
  case long =>
    have hfit := (fits_of_legible_asked ((Run.restored_iff hlong.storable).1 h)).2
    rw [isShort_whole, Int.natAbs_natCast] at hfit
    exact Nat.lt_irrefl _ hfit

end Runner
end Runbook
