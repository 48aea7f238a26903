import Runbook.Proofs.BatchCeiling
import Runbook.Proofs.FailedCalls

/-! Where the answers of a batch come from. They are values of the inputs that it starts with, and a
question is given what these hold for it. An answer that is recorded on the way stands among the
inputs as well, so it reaches another question just where the two share a name. -/
namespace Runbook

theorem Key.same_text_iff {k : Key} {name : String} :
    k.same (.text name) = true ↔ k = .text name := by
  cases k with
  | text s => simp [same_text]
  | _ => simp [same, toValue, Value.same, Value.number?]

namespace Store
variable {store : Store} {name other : String} {names : List String} {v x : Value} {k : Key}

theorem get?_put_ne (h : name ≠ other) :
    (store.put (.text name) v).get? (.text other) = store.get? (.text other) := by
  induction store with
  | nil => simp [put, get?, Key.same_text, h]
  | cons head rest ih =>
    by_cases hk : head.1 = .text name
    · simp [put, get?, hk, Key.same_text, h]
    · have hsame : head.1.same (.text name) = false :=
        Bool.eq_false_iff.2 (mt Key.same_text_iff.1 hk)
      simp [put, get?, hsame, ih]

theorem get_recordAll_of_not_mem (h : other ∉ names) :
    (store.recordAll names v).get (.text other) = store.get (.text other) := by
  induction names generalizing store with
  | nil => rfl
  | cons name names ih =>
    simp only [List.mem_cons, not_or] at h
    rw [recordAll_cons, ih h.2, get, get?_put_ne (Ne.symm h.1)]
    rfl

theorem get_recordAll_of_mem (h : name ∈ names) :
    (store.recordAll names v).get (.text name) = v := by
  induction names generalizing store with
  | nil => cases h
  | cons first names ih =>
    rw [recordAll_cons]
    by_cases hmem : name ∈ names
    · exact ih hmem
    · obtain rfl := (List.mem_cons.1 h).resolve_right hmem
      rw [get_recordAll_of_not_mem hmem, get_put_self]

theorem mem_recordAll (h : (k, x) ∈ store.recordAll names v) : x = v ∨ (k, x) ∈ store := by
  induction names generalizing store with
  | nil => exact .inr h
  | cons name names ih =>
    obtain hx | hmem := ih h
    · exact .inl hx
    · exact mem_put hmem

end Store

/-- Whether a batch takes a value for an answer: it is neither null nor the empty text. -/
def Value.isAnswer : Value → Bool
  | .null => false
  | .text t => !t.isEmpty
  | _ => true

theorem Value.isAnswer_of_present {v : Value} (h : v.present = true) : v.isAnswer = true := by
  cases v with
  | null => cases h
  | text t =>
    cases ht : t.isEmpty with
    | false => simp [isAnswer, ht]
    | true =>
      rw [String.isEmpty_iff.1 ht] at h
      cases h
  | _ => rfl

namespace Question
variable {q : Question} {title name : String} {p : Position} {m m' : Store} {a : Value}

/-- The names under which an answer to a question is looked up, in that order. -/
def inputNames (q : Question) (title : String) (p : Position) : List String :=
  [q.variableName.getD "", p.toValue.display, title].filter (!·.isEmpty)

/-- The answer that a store holds for a question: the first value that counts as one under the names
of the question, or null. -/
def answerIn (q : Question) (title : String) (p : Position) (m : Store) : Value :=
  (((q.inputNames title p).map fun name => m.get (.text name)).find? (·.isAnswer)).getD .null

theorem mem_inputNames :
    name ∈ q.inputNames title p ↔ name ≠ "" ∧ name ∈ p.toValue.display :: q.names title := by
  simp only [inputNames, names, List.mem_filter, List.mem_cons, List.not_mem_nil, or_false,
    Bool.not_eq_true', String.isEmpty_eq_false_iff]
  grind

theorem answerIn_congr
    (h : ∀ name ∈ q.inputNames title p, m'.get (.text name) = m.get (.text name)) :
    q.answerIn title p m' = q.answerIn title p m := by
  simp only [answerIn, List.map_congr_left h]

theorem answerIn_cases (q : Question) (title : String) (p : Position) (m : Store) :
    q.answerIn title p m = .null ∨
      ∃ name ∈ q.inputNames title p, m.get? (.text name) = some (q.answerIn title p m) := by
  unfold answerIn
  cases hfind : ((q.inputNames title p).map fun name => m.get (.text name)).find? (·.isAnswer) with
  | none => exact .inl rfl
  | some a =>
    obtain ⟨name, hname, hget⟩ := List.mem_map.1 (List.mem_of_find?_eq_some hfind)
    refine .inr ⟨name, hname, ?_⟩
    have hanswer : a.isAnswer = true := List.find?_some hfind
    cases hstored : m.get? (.text name) with
    | none =>
      rw [← hget, Store.get, hstored] at hanswer
      cases hanswer
    | some v => rw [← hget, Store.get, hstored]; rfl

theorem answerIn_const (ha : a.isAnswer = true) (hnames : q.inputNames title p ≠ [])
    (h : ∀ name ∈ q.inputNames title p, m.get (.text name) = a) : q.answerIn title p m = a := by
  unfold answerIn
  cases hnames' : q.inputNames title p with
  | nil => exact absurd hnames' hnames
  | cons name names =>
    have hfirst : m.get (.text name) = a := h name (by simp [hnames'])
    simp [hfirst, ha]

end Question

namespace Runner
variable {κ τ : Type} [Moment τ] [Clock κ τ] {rn : Runner} {deadline : τ} {r u u' v : Run}
  {clock c cu cu' : κ} {s : Step} {q : Question} {p : Position}

theorem answerFor_question (hq : s.body = .question q) :
    answerFor r s = q.answerIn s.title r.position r.inputs := by
  simp only [answerFor, hq]
  rfl

theorem answerFor_other (hq : ∀ q, s.body ≠ .question q) : answerFor r s = .null := by
  unfold answerFor
  split
  · next q hb => exact absurd hb (hq q)
  · rfl

theorem answerFor_cases (r : Run) (s : Step) :
    answerFor r s = .null ∨ ∃ k, (k, answerFor r s) ∈ r.inputs := by
  cases hb : s.body with
  | question q =>
    rw [answerFor_question hb]
    refine (q.answerIn_cases s.title r.position r.inputs).imp_right ?_
    rintro ⟨name, -, hget⟩
    exact Store.mem_of_get? hget
  | _ => exact .inl (answerFor_other (by simp [hb]))

/-- A question where the run stands, unless it is the one at a given position, records no answer
under any of the given names. -/
def Apart (rn : Runner) (p : Position) (names : List String) (u : Run) : Prop :=
  u.position ≠ p → ∀ t q, rn.currentStep? u = some t → t.body = .question q →
    (answerFor u t).present = true → ∀ name ∈ q.inputNames t.title u.position, name ∉ names

theorem inputs_stepped (h : rn.pass deadline u cu = .goesOn u' cu') :
    ∃ t, rn.currentStep? u = some t ∧ (u'.inputs = u.inputs ∨ ∃ q', t.body = .question q' ∧
      (answerFor u t).present = true ∧ u'.inputs = u.inputs.recordAll
        (u.position.toValue.display :: q'.names t.title) (answerFor u t)) := by
  obtain ⟨t, route, ht, -, rfl⟩ := pass_stepped h
  refine ⟨t, ht, ?_⟩
  rw [Run.stepped_inputs]
  cases hb : t.body with
  | question q' =>
    cases ha : (answerFor u t).present with
    | true =>
      refine .inr ⟨q', rfl, rfl, ?_⟩
      simp only [Workflow.writes, hb, q'.record_eq t.title u.position ha]
    | false => exact .inl (by simp [Workflow.writes, hb, Question.record, ha])
  | _ => exact .inl (by simp [Workflow.writes, hb])

/-- One pass leaves what the inputs hold for a question: an answer to the question itself is what they
held for it, and one to another question is recorded under other names. -/
theorem answerIn_pass (hs : rn.workflow.stepAt? p = some s) (hq : s.body = .question q)
    (h : rn.pass deadline u cu = .goesOn u' cu')
    (hapart : rn.Apart p (q.inputNames s.title p) u) :
    q.answerIn s.title p u'.inputs = q.answerIn s.title p u.inputs := by
  obtain ⟨t, ht, hsame | ⟨q', hb, ha, hrecorded⟩⟩ := inputs_stepped h
  · rw [hsame]
  · rw [hrecorded]
    by_cases hp : u.position = p
    · have hhere : rn.currentStep? u = some s := by rw [currentStep?, hp]; exact hs
      obtain rfl : t = s := Option.some.inj (ht.symm.trans hhere)
      obtain rfl : q' = q := by simpa [hb] using hq
      subst hp
      rw [← answerFor_question hb]
      refine Question.answerIn_const (Value.isAnswer_of_present ha) ?_ fun name hname => ?_
      · intro hnone
        rw [answerFor_question hb, Question.answerIn, hnone] at ha
        cases ha
      · exact Store.get_recordAll_of_mem (Question.mem_inputNames.1 hname).2
    · refine Question.answerIn_congr fun name hname => Store.get_recordAll_of_not_mem fun hmem => ?_
      have hshared : name ∈ q'.inputNames t.title u.position :=
        Question.mem_inputNames.2 ⟨(Question.mem_inputNames.1 hname).1, hmem⟩
      exact hapart hp t q' ht hb ha name hshared hname

theorem answerIn_passes (hs : rn.workflow.stepAt? p = some s) (hq : s.body = .question q)
    (h : Passes rn deadline r clock v c)
    (hapart : ∀ u cu, Passes rn deadline r clock u cu → Passes rn deadline u cu v c →
      rn.Apart p (q.inputNames s.title p) u) :
    q.answerIn s.title p v.inputs = q.answerIn s.title p r.inputs := by
  induction h with
  | here => rfl
  | next hpass hrest ih =>
    have hfirst := answerIn_pass hs hq hpass (hapart _ _ .here (.next hpass hrest))
    exact (ih fun u cu hto hfrom => hapart u cu (.next hpass hto) hfrom).trans hfirst

theorem mem_inputs_of_passes (h : Passes rn deadline r clock v c) :
    ∀ k x, (k, x) ∈ v.inputs → ∃ k, (k, x) ∈ r.inputs := by
  induction h with
  | here => exact fun k x hx => ⟨k, hx⟩
  | next hpass _ ih =>
    intro k x hx
    obtain ⟨k, hx⟩ := ih k x hx
    obtain ⟨t, ht, hsame | ⟨q', hb, ha, hrecorded⟩⟩ := inputs_stepped hpass
    · exact ⟨k, hsame ▸ hx⟩
    · rw [hrecorded] at hx
      obtain rfl | hx := Store.mem_recordAll hx
      · refine (answerFor_cases _ t).resolve_left fun hnull => ?_
        rw [hnull] at ha
        cases ha
      · exact ⟨k, hx⟩

/-- At every visit of a question in a batch, the answer that the step takes is null or a value of the
inputs that the batch starts with. It is what these hold for the question, unless an answer has been
recorded on the way for a question elsewhere that shares a name with it. -/
theorem answerFor_supplied {inputs : Store}
    (h : Passes rn deadline { r with inputs := r.inputs.merge inputs } clock v c)
    (hs : rn.currentStep? v = some s) (hq : s.body = .question q) :
    (∀ v' c', rn.pass deadline v c = .goesOn v' c' →
      ∃ e, v'.trail = v.trail ++ [e] ∧ e.answer = answerFor v s) ∧
    (answerFor v s = .null ∨ ∃ k, (k, answerFor v s) ∈ r.inputs.merge inputs) ∧
    ((∀ u cu, Passes rn deadline { r with inputs := r.inputs.merge inputs } clock u cu →
        Passes rn deadline u cu v c → rn.Apart v.position (q.inputNames s.title v.position) u) →
      answerFor v s = q.answerIn s.title v.position (r.inputs.merge inputs)) := by
  refine ⟨fun v' c' hpass => ?_, ?_, fun hapart => ?_⟩
  · obtain ⟨t, route, ht, -, rfl⟩ := pass_stepped hpass
    obtain rfl : t = s := Option.some.inj (ht.symm.trans hs)
    refine ⟨_, Run.stepped_trail .., ?_⟩
    simp [Workflow.entryAfter, Workflow.Entry.routed, Workflow.entryOf, hq]
  · obtain hnull | ⟨k, hk⟩ := answerFor_cases v s
    · exact .inl hnull
    · exact .inr (mem_inputs_of_passes h k _ hk)
  · rw [answerFor_question hq]
    exact answerIn_passes hs hq h hapart

def askAddress (id title : String) : Step :=
  ⟨id, title, none, [], [], .question ⟨none, some id, "text", []⟩, []⟩

def addresses (title other : String) : Runner where
  workflow := ⟨"addresses", "Addresses", false, none,
    [askAddress "billing" title, askAddress "shipping" other]⟩
  guard := ⟨10, .whole 5⟩

def addressed (title other : String) (inputs : Store) : Nat → Run
  | 0 => { (addresses title other).opening "run" [] with inputs := Store.merge [] inputs }
  | n + 1 =>
    let r := addressed title other inputs n
    ((addresses title other).process .leapDay r ((addresses title other).answerHere r)).1

variable {title other : String}

theorem passes_addressed (title other : String) (inputs : Store) :
    Passes (addresses title other) (.inf false) (addressed title other inputs 0)
      SteadyClock.stopped (addressed title other inputs 1) .stopped := by
  refine .next ?_ .here
  rw [pass_process rfl rfl rfl rfl rfl, addressed, process_eq rfl rfl rfl rfl]
  rfl

theorem stepAt?_addresses {t : Step}
    (h : (addresses title other).workflow.stepAt? p = some t) :
    p = .index 0 ∧ t = askAddress "billing" title ∨ p = .index 1 := by
  cases p with
  | index n =>
    match n, h with
    | 0, h => exact .inl ⟨rfl, (Option.some.inj h).symm⟩
    | 1, _ => exact .inr rfl
    | .ofNat (n + 2), h =>
      have hindex : ((n : Int) + 2).toNat = n + 2 := by omega
      simp [Workflow.stepAt?, addresses, hindex] at h
    | .negSucc n, h => simp [Workflow.stepAt?, addresses] at h
  | _ => simp [Workflow.stepAt?, addresses] at h

def delivery : Nat → Run :=
  addressed "Billing address?" "Shipping address?"
    [(.text "billing", .text "Elm Street"), (.text "1", .text "Oak Street")]

theorem answerFor_supplied_sample :
    Passes (addresses "Billing address?" "Shipping address?") (.inf false) (delivery 0)
        SteadyClock.stopped (delivery 1) .stopped ∧
      answerFor (delivery 1) (askAddress "shipping" "Shipping address?") = .text "Oak Street" := by
  have hpasses := passes_addressed "Billing address?" "Shipping address?"
    [(.text "billing", .text "Elm Street"), (.text "1", .text "Oak Street")]
  refine ⟨hpasses, ((answerFor_supplied hpasses rfl rfl).2.2 ?_).trans rfl⟩
  intro u cu _ _ hp t q ht hq _
  obtain ⟨hu, rfl⟩ | hu := stepAt?_addresses ht
  · cases hq
    rw [hu]
    decide
  · exact absurd hu hp

/-- A question that is given no answer takes the one of another question with its title. -/
theorem answerFor_not_supplied :
    ¬∀ (rn : Runner) (r v : Run) (inputs : Store) (deadline : Binary64) (clock c : SteadyClock)
      (s : Step) (q : Question), r.status = .active →
      Passes rn deadline { r with inputs := r.inputs.merge inputs } clock v c →
      rn.currentStep? v = some s → s.body = .question q →
      answerFor v s = q.answerIn s.title v.position (r.inputs.merge inputs) := by
  intro h
  have hsupplied := h (addresses "Address?" "Address?") _ _
    [(.text "billing", .text "Elm Street")] _ _ _ (askAddress "shipping" "Address?") _ rfl
    (passes_addressed "Address?" "Address?" _) rfl rfl
  have hrecorded : answerFor (addressed "Address?" "Address?"
      [(.text "billing", .text "Elm Street")] 1) (askAddress "shipping" "Address?") =
      .text "Elm Street" := rfl
  rw [hrecorded] at hsupplied
  cases hsupplied

end Runner
end Runbook
