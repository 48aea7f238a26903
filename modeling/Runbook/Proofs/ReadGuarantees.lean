import Runbook.Definition.Workflow
import Runbook.Limits
import Runbook.Proofs.RouteTargets

/-! What reading guarantees: a definition that is read without a fault has an id on every step, and
limits that are read leave room for a step. -/
namespace Runbook

namespace Text

theorem trimChars_ne_nil {p : Char → Bool} {cs : List Char} (h : cs.all p = false) :
    trimChars p cs ≠ [] := by
  have hfront : (cs.dropWhile p).any (!p ·) = true := by rw [List.any_dropWhile, h]; rfl
  have hall : (cs.dropWhile p).reverse.all p = false := by
    simpa [List.all_eq_not_any_not] using hfront
  have hback : ((cs.dropWhile p).reverse.dropWhile p).any (!p ·) = true := by
    rw [List.any_dropWhile, hall]; rfl
  intro hnil
  have hempty : (cs.dropWhile p).reverse.dropWhile p = [] := by simpa [trimChars] using hnil
  rw [hempty] at hback
  cases hback

theorem trim_ne_empty {s : String} (h : allBlank s = false) : trim s ≠ "" := by
  simpa [trim] using trimChars_ne_nil h

end Text

namespace Binary64

theorem writeDigits_ne_nil (style : Style) (ds : List Char) (place : Int) :
    writeDigits style ds place ≠ [] := by
  unfold writeDigits
  split
  · split <;> simp
  · simp

theorem write_ne_empty (style : Style) (x : Binary64) : x.write style ≠ "" := by
  cases x with
  | nan => simp [write]
  | inf negative => cases negative <;> simp [write]
  | finite negative c =>
    cases negative
    · by_cases hc : c.val = 0 <;> simp [write, hc, writeDigits_ne_nil]
    · simp [write]

end Binary64

theorem Number.display_ne_empty (n : Number) : n.display ≠ "" := by
  cases n with
  | real x => exact x.write_ne_empty _
  | whole n =>
    cases n with
    | ofNat n => exact Nat.repr_ne_empty
    | negSucc n => simp [Number.display, toString, Int.repr]

theorem Value.display_ne_empty {v : Value} (h : ∀ s, v ≠ .text s) : v.display ≠ "" := by
  cases v with
  | null => simp [display, quoted]
  | flag b => cases b <;> simp [display, quoted, flagText]
  | whole n => exact (Number.whole n).display_ne_empty
  | real x => exact (Number.real x).display_ne_empty
  | text s => exact absurd rfl (h s)
  | list items => simp [display, quoted]
  | record fields => simp [display, quoted]

theorem Reading.reference?_ne_empty {v : Value} {s : String} (h : reference? v = some s) :
    s ≠ "" := by
  cases v with
  | null => cases h
  | text t =>
    cases hb : Text.allBlank t with
    | true => simp [reference?, hb] at h
    | false =>
      simp only [reference?, hb, Bool.false_eq_true, if_false, Option.some.injEq] at h
      rw [← h]
      exact Text.trim_ne_empty hb
  | _ =>
    simp only [reference?, Option.some.injEq] at h
    rw [← h]
    exact Value.display_ne_empty (by simp)

namespace Reading
variable {α β : Type}

theorem faults_under (place : Place) (r : Reading α) :
    (r.under place).faults = [] ↔ r.faults = [] := by
  simp [under]

theorem toExcept_eq_ok {model : String} {r : Reading α} {a : α} :
    r.toExcept model = .ok a ↔ r.faults = [] ∧ r.value = a := by
  unfold toExcept
  split <;> simp_all

theorem field_cases {P : α → Prop} {fields : Fields} {names : List String} {absent : Reading α}
    {read : Value → Reading α} (ha : P absent.value)
    (hr : ∀ v, (read v).faults = [] → P (read v).value)
    (h : (field fields names absent read).faults = []) :
    P (field fields names absent read).value := by
  unfold field at h ⊢
  split
  · next n hn =>
    simp only [hn, faults_under] at h
    exact hr _ h
  · exact ha

end Reading

theorem freshId_ne_empty (n : Nat) : freshId n ≠ "" := by
  intro h
  have hdigits : String.ofList (Text.hexDigits 12 n) = "" := (String.append_eq_empty_iff.1 h).2
  have hlength := Text.length_hexDigits 12 n
  rw [String.ofList_eq_empty_iff.1 hdigits] at hlength
  cases hlength

namespace Definition

theorem statedId?_ne_empty {f : Fields} {s : String} (h : statedId? f = some s) : s ≠ "" := by
  obtain ⟨v, -, hv⟩ := Option.bind_eq_some_iff.1 h
  exact Reading.reference?_ne_empty hv

theorem readTyped_id {fresh : String} {type : StepType} {f : Fields} (hf : fresh ≠ "") :
    (readTyped fresh type f).value.id ≠ "" := by
  have hid : ∀ g : Fields, (statedId? g).getD fresh ≠ "" := by
    intro g
    cases hs : statedId? g with
    | none => exact hf
    | some s => exact statedId?_ne_empty hs
  exact hid _

theorem readStep_id {fresh : String} {v : Value} (hf : fresh ≠ "")
    (h : (readStep fresh v).faults = []) : (readStep fresh v).value.id ≠ "" := by
  cases v with
  | record f =>
    simp only [readStep] at h ⊢
    split at h
    · simp [Reading.fault] at h
    · exact readTyped_id hf
  | _ => simp [readStep, Reading.fault] at h

theorem readSteps_ids {fresh index : Nat} {vs : List Value}
    (h : (readSteps fresh index vs).faults = []) :
    ∀ s ∈ (readSteps fresh index vs).value, s.id ≠ "" := by
  induction vs generalizing fresh index with
  | nil => simp [readSteps]
  | cons v rest ih =>
    simp only [readSteps, Reading.faults_bind, Reading.faults_pure, List.append_nil,
      List.append_eq_nil_iff, Reading.faults_under] at h
    obtain ⟨hfirst, hrest⟩ := h
    intro s hs
    simp only [readSteps, Reading.value_bind, Reading.value_pure, List.mem_cons] at hs
    cases hs with
    | inl hs =>
      rw [hs]
      exact readStep_id (freshId_ne_empty fresh) hfirst
    | inr hs => exact ih hrest s hs

theorem readFields_ids {fresh : Nat} {fields : Fields}
    (h : (readFields fresh fields).faults = []) :
    ∀ s ∈ (readFields fresh fields).value.steps, s.id ≠ "" := by
  simp only [readFields, Reading.faults_bind, Reading.faults_pure, List.append_nil,
    List.append_eq_nil_iff] at h
  obtain ⟨-, -, -, hsteps⟩ := h
  simp only [readFields, Reading.value_bind, Reading.value_pure]
  refine Reading.field_cases (P := fun ss : List Step => ∀ s ∈ ss, s.id ≠ "") ?_ ?_ hsteps
  · simp
  · intro v hv
    cases v with
    | list items => exact readSteps_ids hv
    | _ => simp [Reading.fault] at hv

theorem hasContent_of_typeOf {f : Fields} {type : StepType} (h : typeOf f = .ok type) :
    hasContent (.record f) = true := by
  have hknown : ∀ s type, StepType.ofText? s = some type → (Value.text s).present = true := by
    intro s type hs
    unfold StepType.ofText? at hs
    split at hs <;> first | decide | cases hs
  have hpresent : (Fields.get f "type").present = true := by
    unfold typeOf at h
    split at h
    · cases h
    · next s hs =>
      rw [Fields.get, hs]
      split at h
      · next type' htype => exact hknown s type' htype
      · cases h
    · cases h
  exact List.any_eq_true.2 ⟨"type", by decide, hpresent⟩

theorem Naming.assign_ids (taken : List String) (ss : List Step) :
    (Naming.assign taken ss).map (·.id) = ss.map (·.id) := by
  induction ss generalizing taken with
  | nil => rfl
  | cons s rest ih =>
    have hname : ∀ name, (Naming.setName s name).id = s.id := by
      intro name
      unfold Naming.setName
      split <;> rfl
    unfold Naming.assign
    split <;> simp [ih, hname]

theorem assignNames_ids {ss ts : List Step} (h : Naming.assignNames ss = .ok ts) :
    ts.map (·.id) = ss.map (·.id) := by
  unfold Naming.assignNames at h
  split at h
  · cases h
  · cases h
    exact Naming.assign_ids ..

end Definition

/-- Whatever a definition leaves out or gets wrong, each of its steps is read with an id. -/
theorem Workflow.named_of_read {fresh : Nat} {raw : Value} {w : Workflow}
    (h : Workflow.read fresh raw = .ok w) : w.Named := by
  cases raw with
  | record fields =>
    simp only [Workflow.read] at h
    split at h
    · cases h
    · obtain ⟨v, hv, h⟩ := bind_eq_ok.1 h
      obtain ⟨steps, hsteps, h⟩ := bind_eq_ok.1 h
      obtain ⟨hfaults, rfl⟩ := Reading.toExcept_eq_ok.1 hv
      cases h
      intro s hs
      have hids := Definition.assignNames_ids hsteps
      have hmem : s.id ∈ (Definition.readFields fresh fields).value.steps.map (·.id) := by
        rw [← hids]
        exact List.mem_map_of_mem hs
      obtain ⟨t, ht, hid⟩ := List.mem_map.1 hmem
      rw [← hid]
      exact Definition.readFields_ids hfaults t ht
  | _ => cases h

namespace Limits

theorem positiveInteger_pos {v : Value} (h : (positiveInteger v).faults = []) :
    0 < (positiveInteger v).value := by
  simp only [positiveInteger, Reading.faults_bind, List.append_eq_nil_iff] at h
  obtain ⟨hread, hrest⟩ := h
  have hn : ¬(Reading.integer v).value ≤ 0 := by
    intro hn
    simp [hread, hn, Reading.fault] at hrest
  simp only [positiveInteger, Reading.value_bind, hread, hn]
  simp only [decide_false, Bool.and_false, Bool.false_eq_true, if_false, Reading.value_pure]
  omega

theorem maxIterations_pos {v : Value} {l : Limits} {model : String}
    (h : (Limits.read v).toExcept model = .ok l) : 0 < l.maxIterations := by
  obtain ⟨hfaults, rfl⟩ := Reading.toExcept_eq_ok.1 h
  cases v with
  | record f =>
    simp only [Limits.read, Reading.model, Reading.faults_bind, List.append_eq_nil_iff] at hfaults
    refine Reading.field_cases (P := fun n : Int => 0 < n) ?_ ?_ hfaults.1
    · decide
    · exact fun v => positiveInteger_pos
  | _ => simp [Limits.read, Reading.model, Reading.fault] at hfaults

end Limits

end Runbook
