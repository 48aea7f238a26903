import Runbook.Proofs.TitleNames

/-! The steps of a definition once it has been read. Their texts are tidy, no extra field has a name
that the step writes itself, and no question is left that wants a name: reading has nothing more to
do. -/
namespace Runbook

def Transition.Tidy (t : Transition) : Prop :=
  (∀ s ∈ t.target, Text.Tidy s) ∧ ∀ s ∈ t.condition, Text.Tidy s

def Branch.Tidy (b : Branch) : Prop :=
  (∀ s ∈ b.condition, Text.Tidy s) ∧ ∀ s ∈ b.target, Text.Tidy s

def Jump.Tidy (j : Jump) : Prop :=
  (∀ s ∈ j.condition, Text.Tidy s) ∧ ∀ s ∈ j.target, Text.Tidy s

def Body.Tidy : Body → Prop
  | .question q => ∀ s ∈ q.variableName, Text.Tidy s
  | .decision d => (∀ b ∈ d.branches, b.Tidy) ∧ ∀ s ∈ d.elseTarget, Text.Tidy s
  | .action a => ∀ o ∈ a.outputs, Text.allBlank o.name = false
  | .subFlow f => ∀ s ∈ f.target, Text.Tidy s
  | .escalate e => (∀ s ∈ e.targetType, Text.Tidy s) ∧ ∀ s ∈ e.priority, Text.Tidy s
  | .resolve r => ∀ s ∈ r.resolutionType, Text.Tidy s
  | .checkpoint _ | .message _ => True

namespace Definition

def typeOfBody : Body → StepType
  | .question _ => .question
  | .decision d => .decision d.simple
  | .action _ => .action
  | .checkpoint _ => .checkpoint
  | .subFlow _ => .subFlow
  | .message _ => .message
  | .escalate _ => .escalate
  | .resolve _ => .resolve

def legacyNames : List String := "condition" :: Decision.trueNames ++ Decision.falseNames

/-- The names that a step of a type writes its own fields under. -/
def writtenNames (type : StepType) : List String :=
  (baseNames ++ bodyNames type).filterMap (·.head?)

def ownNames : StepType → List String
  | .decision simple => writtenNames (.decision simple) ++ legacyNames
  | type => writtenNames type

end Definition

structure Step.Tidy (s : Step) : Prop where
  id : Text.Tidy s.id
  jumps : ∀ j ∈ s.jumps, j.Tidy
  transitions : ∀ t ∈ s.transitions, t.Tidy
  body : s.body.Tidy
  extras : ∀ kv ∈ s.extras, kv.1 ∉ Definition.ownNames (Definition.typeOfBody s.body)

namespace Reading
variable {α : Type}

theorem tidy_reference (v : Value) : ∀ s ∈ (reference v).value, Text.Tidy s :=
  fun _ hs => tidy_reference? hs

theorem forall_items {P : α → Prop} {read : Value → Reading α} {start : Nat} {vs : List Value}
    (hr : ∀ v ∈ vs, (read v).faults = [] → P (read v).value)
    (h : (items read start vs).faults = []) : ∀ a ∈ (items read start vs).value, P a := by
  induction vs generalizing start with
  | nil => exact nofun
  | cons v vs ih =>
    simp only [items, faults_bind, faults_pure, List.append_nil, List.append_eq_nil_iff,
      faults_under] at h
    intro a ha
    obtain rfl | ha := List.mem_cons.1 ha
    · exact hr v (.head _) h.1
    · exact ih (fun v hv => hr v (.tail _ hv)) h.2 a ha

theorem forall_list {P : α → Prop} {carrier : Carrier} {read : Value → Reading α} {v : Value}
    (hr : ∀ v, (read v).faults = [] → P (read v).value)
    (h : (list carrier read v).faults = []) : ∀ a ∈ (list carrier read v).value, P a := by
  cases v with
  | list vs => exact forall_items (fun v _ => hr v) h
  | _ => exact nofun

end Reading

namespace Definition
open Reading

theorem tidy_field {f : Fields} {names : List String} {read : Value → Reading (Option String)}
    (hr : ∀ v, (read v).faults = [] → ∀ s ∈ (read v).value, Text.Tidy s)
    (h : (field f names (pure none) read).faults = []) :
    ∀ s ∈ (field f names (pure none) read).value, Text.Tidy s :=
  field_cases (P := fun o => ∀ s ∈ o, Text.Tidy s) (by simp) hr h

theorem tidy_readTransition {v : Value} (h : (readTransition v).faults = []) :
    (readTransition v).value.Tidy := by
  cases v with
  | record f =>
    simp only [readTransition, model, faults_bind, faults_pure, List.append_nil,
      List.append_eq_nil_iff] at h
    simp only [readTransition, model, value_bind, value_pure]
    exact ⟨tidy_field (fun v _ => tidy_reference v) h.1,
      tidy_field (fun _ => tidy_trimmedText) h.2.1⟩
  | _ => simp [readTransition, model, fault] at h

theorem tidy_readBranch {v : Value} (h : (readBranch v).faults = []) :
    (readBranch v).value.Tidy := by
  cases v with
  | record f =>
    simp only [readBranch, model, faults_bind, faults_pure, List.append_nil,
      List.append_eq_nil_iff] at h
    simp only [readBranch, model, value_bind, value_pure]
    exact ⟨tidy_field (fun _ => tidy_trimmedText) h.1, tidy_field (fun v _ => tidy_reference v) h.2⟩
  | _ => simp [readBranch, model, fault] at h

theorem tidy_readJump {v : Value} (h : (readJump v).faults = []) : (readJump v).value.Tidy := by
  cases v with
  | record f =>
    simp only [readJump, model, faults_bind, faults_pure, List.append_nil,
      List.append_eq_nil_iff] at h
    simp only [readJump, model, value_bind, value_pure]
    exact ⟨tidy_field (fun _ => tidy_trimmedText) h.1, tidy_field (fun v _ => tidy_reference v) h.2⟩
  | _ => simp [readJump, model, fault] at h

theorem named_readOutput {v : Value} (hn : isNamed v = true) (h : (readOutput v).faults = []) :
    Text.allBlank (readOutput v).value.name = false := by
  cases v with
  | record f =>
    simp only [readOutput, model, faults_bind, faults_pure, List.append_nil,
      List.append_eq_nil_iff] at h
    simp only [readOutput, model, value_bind, value_pure]
    simp only [isNamed, Fields.get] at hn
    cases hf : Fields.get? f "name" with
    | none => simp [hf, Value.trimmed, Value.truthy] at hn
    | some v =>
      simp only [required, field, used?, List.find?, hf, Option.isSome_some, faults_under] at h
      simp only [required, field, used?, List.find?, hf, Option.isSome_some, Fields.get]
      cases v with
      | text t =>
        cases hb : Text.allBlank t with
        | true => simp [hf, Value.trimmed, hb, Value.truthy] at hn
        | false => exact hb
      | _ => simp [Fields.get, hf, text, fault] at h
  | _ => simp [readOutput, model, fault] at h

theorem named_readOutputs {v : Value} (h : (readOutputs v).faults = []) :
    ∀ o ∈ (readOutputs v).value, Text.allBlank o.name = false := by
  cases v with
  | list vs =>
    exact forall_items (P := fun o : OutputField => Text.allBlank o.name = false)
      (fun v hv hr => named_readOutput (List.mem_filter.1 hv).2 hr) h
  | _ => exact nofun

theorem tidy_readBody {f : Fields} {type : StepType} (h : (readBody f type).faults = []) :
    (readBody f type).value.Tidy ∧ typeOfBody (readBody f type).value = type := by
  refine ⟨?_, by cases type <;> rfl⟩
  cases type with
  | question =>
    simp only [readBody, faults_bind, List.append_eq_nil_iff] at h
    simp only [readBody, value_bind, value_pure, Body.Tidy]
    exact tidy_field (fun _ => tidy_trimmedText) h.2.1
  | decision simple =>
    simp only [readBody, faults_bind, List.append_eq_nil_iff] at h
    simp only [readBody, value_bind, value_pure, Body.Tidy]
    refine ⟨?_, tidy_field (fun v _ => tidy_reference v) h.2.1⟩
    exact field_cases (P := fun bs : List Branch => ∀ b ∈ bs, b.Tidy) (by simp)
      (fun _ => forall_list fun _ => tidy_readBranch) h.1
  | action =>
    simp only [readBody, faults_bind, List.append_eq_nil_iff] at h
    simp only [readBody, value_bind, value_pure, Body.Tidy]
    exact field_cases (P := fun os : List OutputField => ∀ o ∈ os, Text.allBlank o.name = false)
      (by simp) (fun _ => named_readOutputs) h.2.1
  | checkpoint => trivial
  | subFlow =>
    simp only [readBody, faults_bind, List.append_eq_nil_iff] at h
    simp only [readBody, value_bind, value_pure, Body.Tidy]
    exact tidy_field (fun v _ => tidy_reference v) h.1
  | message => trivial
  | escalate =>
    simp only [readBody, faults_bind, List.append_eq_nil_iff] at h
    simp only [readBody, value_bind, value_pure, Body.Tidy]
    exact ⟨tidy_field (fun _ => tidy_trimmedText) h.1, tidy_field (fun _ => tidy_trimmedText) h.2.2.1⟩
  | resolve =>
    simp only [readBody, faults_bind, List.append_eq_nil_iff] at h
    simp only [readBody, value_bind, value_pure, Body.Tidy]
    exact tidy_field (fun _ => tidy_trimmedText) h.1

theorem isSome_get? {f : Fields} {kv : String × Value} (h : kv ∈ f) : (f.get? kv.1).isSome := by
  induction f with
  | nil => cases h
  | cons head rest ih =>
    simp only [Fields.get?]
    split
    · rfl
    · next hne =>
      obtain rfl | h := List.mem_cons.1 h
      · simp at hne
      · exact ih h

theorem mem_put {f : Fields} {name : String} {v : Value} {kv : String × Value}
    (h : kv ∈ f.put name v) : kv.1 = name ∨ kv ∈ f := by
  induction f with
  | nil => exact .inl (congrArg Prod.fst (List.mem_singleton.1 h))
  | cons head rest ih =>
    simp only [Fields.put] at h
    split at h
    · next hname =>
      obtain rfl | h := List.mem_cons.1 h
      · exact .inl (by simpa using hname)
      · exact .inr (.tail _ h)
    · obtain rfl | h := List.mem_cons.1 h
      · exact .inr (.head _)
      · exact (ih h).imp_right (.tail _)

theorem mem_used {f : Fields} {type : StepType} {kv : String × Value} (hkv : kv ∈ f)
    (h : kv.1 ∈ writtenNames type) : kv.1 ∈ (baseNames ++ bodyNames type).filterMap (used? f) := by
  obtain ⟨names, hnames, hhead⟩ := List.mem_filterMap.1 h
  refine List.mem_filterMap.2 ⟨names, hnames, ?_⟩
  cases names with
  | nil => cases hhead
  | cons first rest =>
    obtain rfl : first = kv.1 := by simpa using hhead
    simp [used?, isSome_get? hkv]

theorem not_mem_writtenNames {f : Fields} {type : StepType} :
    ∀ kv ∈ extraFields f type, kv.1 ∉ writtenNames type := by
  intro kv hkv hname
  obtain ⟨hmem, hunused⟩ := List.mem_filter.1 hkv
  have hused : ((baseNames ++ bodyNames type).filterMap (used? f)).contains kv.1 = true :=
    List.contains_iff_mem.2 (mem_used hmem hname)
  have hunused : (!((baseNames ++ bodyNames type).filterMap (used? f)).contains kv.1) = true :=
    hunused
  rw [hused] at hunused
  cases hunused

theorem not_mem_legacyNames (given : Fields) :
    ∀ kv ∈ Decision.canonical given, kv.1 ∉ legacyNames := by
  have hput : ∀ {f : Fields} {name : String} (v : Value), name ∉ legacyNames →
      (∀ kv ∈ f, kv.1 ∉ legacyNames) → ∀ kv ∈ f.put name v, kv.1 ∉ legacyNames := by
    intro f name v hname hf kv hkv
    obtain heq | hkv := mem_put hkv
    · exact heq ▸ hname
    · exact hf kv hkv
  have hwithout : ∀ kv ∈ given.without legacyNames, kv.1 ∉ legacyNames := by
    intro kv hkv
    simpa using (List.mem_filter.1 hkv).2
  have hbranches : "branches" ∉ legacyNames := by decide
  have helse : "else_target" ∉ legacyNames := by decide
  have hkept := hput (.list (Decision.keptBranches given)) hbranches hwithout
  unfold Decision.canonical
  simp only
  split
  · exact hkept
  · split
    · split
      · exact hput _ helse (hput _ hbranches hkept)
      · exact hput _ hbranches hkept
    · split
      · exact hput _ helse hkept
      · exact hkept

theorem tidy_readTyped {fresh : String} {type : StepType} {given : Fields} (hf : Text.Tidy fresh)
    (h : (readTyped fresh type given).faults = []) : (readTyped fresh type given).value.Tidy := by
  have hid : ∀ f : Fields, Text.Tidy ((statedId? f).getD fresh) := by
    intro f
    cases hs : statedId? f with
    | none => exact hf
    | some s =>
      obtain ⟨v, -, hv⟩ := Option.bind_eq_some_iff.1 hs
      exact tidy_reference? hv
  simp only [readTyped, faults_bind, faults_pure, List.append_nil, List.append_eq_nil_iff] at h
  obtain ⟨-, -, hjumps, htransitions, hbody⟩ := h
  obtain ⟨htidy, htype⟩ := tidy_readBody hbody
  refine ⟨hid _, ?_, ?_, htidy, fun kv hkv => ?_⟩
  · exact field_cases (P := fun js : List Jump => ∀ j ∈ js, j.Tidy) (by simp)
      (fun _ => forall_list fun _ => tidy_readJump) hjumps
  · exact field_cases (P := fun ts : List Transition => ∀ t ∈ ts, t.Tidy) (by simp)
      (fun _ => forall_list fun _ => tidy_readTransition) htransitions
  · have hname : kv.1 ∉ ownNames type := by
      cases type with
      | decision simple =>
        intro hown
        obtain hown | hown := List.mem_append.1 hown
        · exact not_mem_writtenNames kv hkv hown
        · exact not_mem_legacyNames given kv (List.mem_filter.1 hkv).1 hown
      | _ => exact not_mem_writtenNames kv hkv
    simpa only [readTyped, value_bind, value_pure, htype] using hname

theorem tidy_readStep {fresh : String} {v : Value} (hf : Text.Tidy fresh)
    (h : (readStep fresh v).faults = []) : (readStep fresh v).value.Tidy := by
  cases v with
  | record f =>
    simp only [readStep] at h ⊢
    split at h
    · simp [fault] at h
    · exact tidy_readTyped hf ((faults_under _ _).1 h)
  | _ => simp [readStep, fault] at h

theorem tidy_freshId (n : Nat) : Text.Tidy (freshId n) := by
  have hdigit : ∀ m < 16, Text.isBlank (Text.hexDigit m) = false := by decide
  have hdigits : ∀ width n, ∀ c ∈ Text.hexDigits width n, Text.isBlank c = false := by
    intro width
    induction width with
    | zero => exact fun _ => nofun
    | succ width ih =>
      intro n c hc
      obtain hc | hc := List.mem_append.1 hc
      · exact ih _ c hc
      · exact List.mem_singleton.1 hc ▸ hdigit _ (by omega)
  refine Text.Tidy.append ⟨⟨'0', rfl, rfl⟩, '-', rfl, rfl⟩ (Text.tidy_of_forall ?_ ?_)
  · intro hnil
    have hlength := Text.length_hexDigits 12 n
    rw [String.ofList_eq_empty_iff.1 hnil] at hlength
    cases hlength
  · rw [String.toList_ofList]
    exact hdigits 12 n

theorem tidy_readSteps {fresh index : Nat} {vs : List Value}
    (h : (readSteps fresh index vs).faults = []) :
    ∀ s ∈ (readSteps fresh index vs).value, s.Tidy := by
  induction vs generalizing fresh index with
  | nil => simp [readSteps]
  | cons v rest ih =>
    simp only [readSteps, faults_bind, faults_pure, List.append_nil, List.append_eq_nil_iff,
      faults_under] at h
    intro s hs
    obtain rfl | hs := List.mem_cons.1 hs
    · exact tidy_readStep (tidy_freshId fresh) h.1
    · exact ih h.2 s hs

theorem tidy_readFields {fresh : Nat} {fields : Fields}
    (h : (readFields fresh fields).faults = []) :
    ∀ s ∈ (readFields fresh fields).value.steps, s.Tidy := by
  simp only [readFields, faults_bind, faults_pure, List.append_nil, List.append_eq_nil_iff] at h
  obtain ⟨-, -, -, hsteps⟩ := h
  refine field_cases (P := fun ss : List Step => ∀ s ∈ ss, s.Tidy) (by simp) (fun v hv => ?_) hsteps
  cases v with
  | list items => exact tidy_readSteps hv
  | _ => simp [fault] at hv

end Definition

/-- A step that needs no naming: if it is a question, it has a name or a title that gives none, and
what it holds as a variable name is no list or record. -/
structure Step.Settled (s : Step) : Prop where
  tidy : s.Tidy
  named : Definition.Naming.wanted? s = none
  hashable : Definition.Naming.unhashable? s.variableName = none

namespace Definition.Naming

theorem assign_cases {taken : List String} {ss : List Step} {t : Step} (h : t ∈ assign taken ss) :
    (t ∈ ss ∧ wanted? t = none) ∨
      ∃ s ∈ ss, ∃ base taken', wanted? s = some base ∧ t = setName s (firstFree base taken') := by
  induction ss generalizing taken with
  | nil => cases h
  | cons s rest ih =>
    unfold assign at h
    split at h
    · next base hbase =>
      obtain rfl | h := List.mem_cons.1 h
      · exact .inr ⟨s, .head _, base, taken, hbase, rfl⟩
      · obtain ⟨hmem, hnone⟩ | ⟨s, hs, hset⟩ := ih h
        · exact .inl ⟨.tail _ hmem, hnone⟩
        · exact .inr ⟨s, .tail _ hs, hset⟩
    · next hnone =>
      obtain rfl | h := List.mem_cons.1 h
      · exact .inl ⟨.head _, hnone⟩
      · obtain ⟨hmem, hnone⟩ | ⟨s, hs, hset⟩ := ih h
        · exact .inl ⟨.tail _ hmem, hnone⟩
        · exact .inr ⟨s, .tail _ hs, hset⟩

theorem settled_setName {s : Step} {base : String} (hs : s.Tidy) (h : wanted? s = some base)
    (taken : List String) : (setName s (firstFree base taken)).Settled := by
  unfold wanted? at h
  split at h
  · next q hq =>
    have hbase : Text.Tidy base := by
      split at h
      · exact VariableName.tidy_ofTitle? h
      · cases h
    simp only [setName, hq]
    refine ⟨⟨hs.id, hs.jumps, hs.transitions, ?_, ?_⟩, rfl, rfl⟩
    · intro name hname
      obtain rfl := Option.some.inj hname
      exact tidy_firstFree hbase taken
    · have hextras := hs.extras
      rw [hq] at hextras
      exact hextras
  · cases h

theorem settled_assignNames {ss ts : List Step} (hs : ∀ s ∈ ss, s.Tidy)
    (h : assignNames ss = .ok ts) : ∀ t ∈ ts, t.Settled := by
  unfold assignNames at h
  split at h
  · cases h
  · next hhashable =>
    cases h
    intro t ht
    obtain ⟨hmem, hnone⟩ | ⟨s, hmem, base, taken, hwanted, rfl⟩ := assign_cases ht
    · exact ⟨hs t hmem, hnone, List.findSome?_eq_none_iff.1 hhashable t hmem⟩
    · exact settled_setName (hs s hmem) hwanted taken

end Definition.Naming

/-- Whatever a raw definition holds, the steps read from it are settled. -/
theorem Workflow.settled_of_read {fresh : Nat} {raw : Value} {w : Workflow}
    (h : Workflow.read fresh raw = .ok w) : ∀ s ∈ w.steps, s.Settled := by
  cases raw with
  | record fields =>
    simp only [Workflow.read] at h
    split at h
    · cases h
    · obtain ⟨v, hv, h⟩ := bind_eq_ok.1 h
      obtain ⟨steps, hsteps, h⟩ := bind_eq_ok.1 h
      obtain ⟨hfaults, rfl⟩ := Reading.toExcept_eq_ok.1 hv
      cases h
      exact Definition.Naming.settled_assignNames (Definition.tidy_readFields hfaults) hsteps
  | _ => cases h

end Runbook
