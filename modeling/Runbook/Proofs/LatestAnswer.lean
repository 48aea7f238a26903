import Mathlib.Data.List.Nodup
import Runbook.Proofs.CallInvariants
import Runbook.Proofs.ResumedRuns

/-! What the name `answer` stands for in conditions. It recalls the value that stands last among the
results, where a value is placed when its name is first written. An answer under names that are in
use already keeps their place, so it is not recalled unless one of them stands last. -/
namespace Runbook

/-- A write under a key puts its value last: the key is new, or stands last already. -/
def PutsLast {α : Type} (keys : List α) (key : α) : Prop := key ∉ keys ∨ keys.getLast? = some key

instance {α : Type} [DecidableEq α] (keys : List α) (key : α) : Decidable (PutsLast keys key) :=
  inferInstanceAs (Decidable (key ∉ keys ∨ keys.getLast? = some key))

namespace Fields
variable {f : Fields} {name : String} {v : Value}

theorem put_new (h : name ∉ f.map (·.1)) : f.put name v = f ++ [(name, v)] := by
  induction f with
  | nil => rfl
  | cons head rest ih =>
    simp only [List.map_cons, List.mem_cons, not_or] at h
    have hne : ¬head.1 = name := fun hk => h.1 hk.symm
    simp [put, hne, ih h.2]

theorem put_old {w : Value} {before after : Fields} (h : name ∉ before.map (·.1)) :
    (before ++ (name, w) :: after).put name v = before ++ (name, v) :: after := by
  induction before with
  | nil => simp [put]
  | cons head rest ih =>
    simp only [List.map_cons, List.mem_cons, not_or] at h
    have hne : ¬head.1 = name := fun hk => h.1 hk.symm
    simp [put, hne, ih h.2]

theorem getLast?_put (hd : (f.map (·.1)).Nodup) (v : Value) :
    (f.put name v).getLast? =
      if PutsLast (f.map (·.1)) name then some (name, v) else f.getLast? := by
  by_cases hmem : name ∈ f.map (·.1)
  · obtain ⟨⟨k, w⟩, hkv, rfl⟩ := List.mem_map.1 hmem
    obtain ⟨before, after, rfl⟩ := List.append_of_mem hkv
    simp only [List.map_append, List.map_cons, List.nodup_middle, List.nodup_cons, List.mem_append,
      not_or] at hd
    obtain ⟨⟨hbefore, hafter⟩, -⟩ := hd
    rw [put_old hbefore]
    obtain rfl | ⟨after, last, rfl⟩ := List.eq_nil_or_concat' after
    · simp [PutsLast]
    · have hne : last.1 ≠ k := by
        rintro rfl
        simp at hafter
      have hold : ¬PutsLast ((before ++ (k, w) :: (after ++ [last])).map (·.1)) k := by
        simp [PutsLast, List.getLast?_cons, hne]
      rw [if_neg hold]
      simp [List.getLast?_cons]
  · simp [put_new hmem, PutsLast, hmem]

end Fields

namespace Store
variable {rs : Store} {name : String} {names : List String} {v : Value}

/-- The keys of the store are texts and distinct, and none of its values is null. -/
def Filled (rs : Store) : Prop :=
  ∃ f : Fields, rs = ofFields f ∧ (f.map (·.1)).Nodup ∧ ∀ kv ∈ f, kv.2.isNull = false

theorem keys_ofFields (f : Fields) : (ofFields f).map (·.1) = (f.map (·.1)).map .text := by
  simp [ofFields]

theorem putsLast_ofFields (f : Fields) (name : String) :
    PutsLast ((ofFields f).map (·.1)) (.text name) ↔ PutsLast (f.map (·.1)) name := by
  rw [keys_ofFields]
  simp [PutsLast]

theorem latest_ofFields (f : Fields) : (ofFields f).latest = (f.getLast?.map (·.2)).getD .null := by
  simp only [latest, ofFields, List.getLast?_map]
  cases f.getLast? <;> rfl

theorem filled_nil : Filled [] := ⟨[], rfl, List.nodup_nil, by simp⟩

theorem Filled.put (h : rs.Filled) (hv : v.isNull = false) (name : String) :
    (rs.put (.text name) v).Filled := by
  obtain ⟨f, rfl, hd, hf⟩ := h
  exact ⟨f.put name v, put_ofFields f name v, Fields.nodup_put hd,
    Fields.forall_put (P := (·.isNull = false)) hf hv⟩

theorem Filled.record (h : rs.Filled) (hv : v.isNull = false) (name : String) :
    (rs.record name v).Filled := by
  unfold Store.record
  split
  · exact h
  · exact h.put hv name

theorem Filled.recordAll (h : rs.Filled) (hv : v.isNull = false) (names : List String) :
    (rs.recordAll names v).Filled := by
  induction names generalizing rs with
  | nil => exact h
  | cons name names ih => exact ih (h.put hv name)

theorem Filled.latest_put (h : rs.Filled) (name : String) (v : Value) :
    (rs.put (.text name) v).latest =
      if PutsLast (rs.map (·.1)) (.text name) then v else rs.latest := by
  obtain ⟨f, rfl, hd, -⟩ := h
  simp only [put_ofFields, latest_ofFields, putsLast_ofFields, Fields.getLast?_put hd]
  split <;> rfl

theorem Filled.keys_put (h : rs.Filled) (hold : ¬PutsLast (rs.map (·.1)) (.text name)) (v : Value) :
    (rs.put (.text name) v).map (·.1) = rs.map (·.1) := by
  obtain ⟨f, rfl, -, -⟩ := h
  rw [putsLast_ofFields] at hold
  have hmem : name ∈ f.map (·.1) := Decidable.not_not.1 fun hnew => hold (.inl hnew)
  rw [put_ofFields, keys_ofFields, keys_ofFields, Fields.names_put, if_pos hmem]

theorem Filled.latest_recordAll (h : rs.Filled) (hv : v.isNull = false) (names : List String) :
    (rs.recordAll names v).latest =
      if ∃ name ∈ names, PutsLast (rs.map (·.1)) (.text name) then v else rs.latest := by
  induction names generalizing rs with
  | nil => simp [Store.recordAll]
  | cons name names ih =>
    rw [recordAll_cons, ih (h.put hv name), h.latest_put]
    by_cases hlast : PutsLast (rs.map (·.1)) (.text name)
    · simp [hlast]
    · simp [hlast, h.keys_put hlast]

/-- Where no value stands under the name itself, `answer` is the value that stands last. -/
theorem Filled.lookup_answer (h : rs.Filled) (hexact : (rs.get (.text "answer")).isNull = true) :
    rs.lookup "answer" = rs.latest := by
  have hname : (Text.lower "answer" == "answer") = true := by decide +kernel
  obtain ⟨f, rfl, -, hf⟩ := h
  simp only [lookup, hexact, hname, Bool.not_true, Bool.false_eq_true, if_false, Bool.true_and]
  obtain rfl | ⟨f, last, rfl⟩ := List.eq_nil_or_concat' f
  · rfl
  · have hlast : (ofFields (f ++ [last])).latest = last.2 := by simp [latest_ofFields]
    have hset : last.2.isNull = false := hf last (by simp)
    simp [hlast, hset]

end Store

theorem Value.isNull_of_present {v : Value} (h : v.present = true) : v.isNull = false := by
  cases v with
  | null => cases h
  | _ => rfl

theorem Value.eq_text_of_same {v : Value} {t : String} (h : v.same (.text t) = true) :
    v = .text t := by
  cases v with
  | text u => simpa [same] using h
  | _ => simp [same, number?] at h

theorem Action.filled_apply (a : Action) (title : String) {rs : Store} (h : rs.Filled) :
    (a.apply title rs).Filled := by
  have houtputs : ∀ (outputs : List OutputField) (rs : Store), rs.Filled →
      (outputs.foldl (fun rs o => rs.put (.text o.name) (.text (Template.fill rs o.template)))
        rs).Filled := by
    intro outputs
    induction outputs with
    | nil => exact fun _ h => h
    | cons o outputs ih => exact fun rs h => ih _ (h.put rfl o.name)
  exact houtputs a.outputs _ (h.record rfl title)

theorem Step.Leaves.filled {s : Step} {r : Run} {rs : Store} (hrs : s.Leaves r rs)
    (h : r.results.Filled) : rs.Filled := by
  cases hrs with
  | checkpoint resolved => exact h.record rfl s.title
  | writes a =>
    unfold Workflow.writes
    cases hb : s.body with
    | question q =>
      cases ha : a.present with
      | true =>
        simp only [q.record_eq s.title r.position ha]
        exact h.recordAll (Value.isNull_of_present ha) _
      | false => simpa [Question.record, ha] using h
    | action x => exact x.filled_apply s.title h
    | message content => exact h.record rfl s.title
    | escalate e => exact (h.record rfl s.title).put rfl _
    | resolve x => exact (h.record rfl s.title).put rfl _
    | decision d => exact h
    | checkpoint m => exact h
    | subFlow f => exact h

namespace Runner
variable {κ τ : Type} [Moment τ] [Clock κ τ] {rn : Runner} {r : Run} {s : Step} {q : Question}

theorem Led.filled (h : Led κ rn r) : r.results.Filled := by
  refine h.keeps (P := fun r => r.results.Filled) (fun id inputs r hs => ?_) fun r r' hr hc => ?_
  · obtain ⟨-, rfl⟩ | ⟨s, -, rfl⟩ := started hs <;> exact Store.filled_nil
  · cases hc with
    | ended _ _ => exact hr
    | cut message _ => exact hr.put rfl _
    | stopped place => exact hr
    | supplied inputs => exact hr
    | stepped inputs _ _ hleaves _ _ =>
      rw [Run.stepped_results]
      exact hleaves.filled hr
    | broken inputs _ hleaves _ =>
      obtain rfl | hleaves := hleaves
      · exact hr
      · exact hleaves.filled hr

/-- After an answer that is not blank, in a run that any calls led to, `answer` is that answer just
if it is put last: one of its names is new to the results, or stands last in them. Else `answer` is
the value that stood last before. This leaves aside results with a value under the name itself. -/
theorem lookup_answer_eq {a : Value} (h : Led κ rn r) (hq : s.body = .question q)
    (ha : a.present = true)
    (hexact : ((Workflow.writes s r a).results.get (.text "answer")).isNull = true) :
    (Workflow.writes s r a).results.lookup "answer" =
      if ∃ name ∈ q.names s.title, PutsLast (r.results.map (·.1)) (.text name) then a
      else r.results.latest := by
  have hrecorded : (Workflow.writes s r a).results = r.results.recordAll (q.names s.title) a := by
    simp only [Workflow.writes, hq, q.record_eq s.title r.position ha]
  have hset := Value.isNull_of_present ha
  rw [hrecorded] at hexact ⊢
  rw [(h.filled.recordAll hset _).lookup_answer hexact, h.filled.latest_recordAll hset]

def askReady : Step :=
  ⟨"ask", "Ready?", none, [], [], .question ⟨none, some "ready", "text", []⟩, []⟩

def review : Runner where
  workflow := ⟨"review", "Review", false, none,
    [askReady,
      ⟨"check", "Check", none, [], [],
        .decision ⟨false, [⟨some "answer == 'yes'", some "done"⟩], none⟩, []⟩,
      ⟨"more", "Which?", none, [⟨some "back", some "ask"⟩], [],
        .question ⟨none, some "which", "text", []⟩, []⟩,
      ⟨"done", "Done", none, [], [], .action ⟨none, []⟩, []⟩]⟩
  guard := ⟨10, .whole 5⟩

def reviewed (answers : List Value) : Run :=
  answers.foldl (fun r a => (review.process .leapDay r a).1) (review.opening "run" [])

theorem led_reviewed (answers : List Value) : Led SteadyClock review (reviewed answers) := by
  have hcalls : ∀ (answers : List Value) (r : Run), Led SteadyClock review r →
      Led SteadyClock review (answers.foldl (fun r a => (review.process .leapDay r a).1) r) := by
    intro answers
    induction answers with
    | nil => exact fun _ h => h
    | cons a answers ih => exact fun r h => ih _ (h.call (.process .leapDay a))
  have hstart : review.start "run" [] = .ok (review.opening "run" []) := rfl
  exact hcalls answers _ (.start hstart)

theorem currentStep?_reviewed :
    review.currentStep? (reviewed [.text "no", .null, .text "back"]) = some askReady := by
  have hid : (review.currentStep? (reviewed [.text "no", .null, .text "back"])).map (·.id) =
      some askReady.id := by decide +kernel
  obtain ⟨s, hs, hid⟩ := Option.map_eq_some_iff.1 hid
  have hd : review.workflow.Distinct := by decide
  rw [hs, Workflow.eq_of_id_eq hd (Workflow.mem_of_stepAt? hs) (List.mem_cons_self ..) hid]

theorem lookup_answer_eq_sample :
    Led SteadyClock review (reviewed []) ∧
      (Workflow.writes askReady (reviewed []) (.text "no")).results.lookup "answer" = .text "no" ∧
      Led SteadyClock review (reviewed [.text "no", .null, .text "back"]) ∧
      (Workflow.writes askReady (reviewed [.text "no", .null, .text "back"])
        (.text "yes")).results.lookup "answer" = .text "back" := by
  refine ⟨led_reviewed _, ?_, led_reviewed _, ?_⟩
  · rw [lookup_answer_eq (led_reviewed _) rfl (by decide +kernel) (by decide +kernel)]
    exact if_pos (by decide +kernel)
  · rw [lookup_answer_eq (led_reviewed _) rfl (by decide +kernel) (by decide +kernel),
      if_neg (by decide +kernel)]
    exact Value.eq_text_of_same (by decide +kernel)

/-- An answer that is given again in a loop need not be what `answer` stands for. -/
theorem answer_not_recalled :
    ¬∀ (rn : Runner) (r : Run) (s : Step) (q : Question) (a : Value), Led SteadyClock rn r →
      r.status = .active → rn.currentStep? r = some s → s.body = .question q →
      q.names s.title ≠ [] → a.present = true →
      ((Workflow.writes s r a).results.get (.text "answer")).isNull = true →
      (Workflow.writes s r a).results.lookup "answer" = a := by
  intro h
  have hanswer := h review (reviewed [.text "no", .null, .text "back"]) askReady _ (.text "yes")
    (led_reviewed _) (by decide +kernel) currentStep?_reviewed rfl (by decide) (by decide +kernel)
    (by decide +kernel)
  have hlatest : ((Workflow.writes askReady (reviewed [.text "no", .null, .text "back"])
      (.text "yes")).results.lookup "answer").same (.text "back") = true := by decide +kernel
  rw [hanswer] at hlatest
  exact absurd hlatest (by decide)

end Runner
end Runbook
