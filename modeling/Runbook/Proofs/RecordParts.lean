import Runbook.Definition.Record
import Runbook.Proofs.ReadSteps

/-! Reading back the parts of a step from the records they are written as. The records have no
nulls: a field that is not set is not in them. -/
namespace Runbook

def Value.set? (v : Value) : Option Value := if v.isNull then none else some v

theorem Value.eq_none_of_set? {o : Option String} (h : (Value.ofText? o).set? = none) : o = none := by
  cases o with
  | none => rfl
  | some s => cases h

namespace Fields
variable {f g : Fields} {n : String} {v : Value} {names : List String}

theorem get?_append (f g : Fields) (n : String) : get? (f ++ g) n = (f.get? n).or (g.get? n) := by
  induction f with
  | nil => rfl
  | cons head rest ih =>
    simp only [List.cons_append, get?, ih]
    split <;> rfl

theorem get?_eq_none (h : ∀ kv ∈ f, kv.1 ≠ n) : f.get? n = none := by
  induction f with
  | nil => rfl
  | cons head rest ih =>
    have hne : (head.1 == n) = false := by simpa using h head (.head _)
    simp only [get?, hne, Bool.false_eq_true, if_false]
    exact ih fun kv hkv => h kv (.tail _ hkv)

theorem exists_of_get? (h : f.get? n = some v) : (n, v) ∈ f := by
  induction f with
  | nil => cases h
  | cons head rest ih =>
    simp only [get?] at h
    split at h
    · next hn =>
      obtain rfl : head.1 = n := by simpa using hn
      cases h
      exact .head _
    · exact .tail _ (ih h)

theorem mem_compact {kv : String × Value} : kv ∈ f.compact ↔ kv ∈ f ∧ kv.2.isNull = false := by
  simp [compact]

theorem compact_append (f g : Fields) : compact (f ++ g) = f.compact ++ g.compact :=
  List.filter_append ..

theorem get?_compact (h : (f.map (·.1)).Nodup) (n : String) :
    f.compact.get? n = (f.get? n).bind Value.set? := by
  induction f with
  | nil => rfl
  | cons head rest ih =>
    obtain ⟨hhead, hrest⟩ := List.nodup_cons.1 h
    have hcons : compact (head :: rest) =
        if head.2.isNull then compact rest else head :: compact rest := by
      cases hn : head.2.isNull <;> simp [compact, hn]
    by_cases hname : head.1 = n
    · have habsent : (compact rest).get? n = none := by
        refine get?_eq_none fun kv hkv heq => hhead ?_
        exact List.mem_map.2 ⟨kv, (mem_compact.1 hkv).1, heq.trans hname.symm⟩
      cases hn : head.2.isNull <;> simp [hcons, get?, hname, hn, Value.set?, habsent]
    · cases hn : head.2.isNull <;> simp [hcons, get?, hname, hn, ih hrest]

theorem get?_compact_some (hd : (f.map (·.1)).Nodup)
    (h : f.get? n = some v) : f.compact.get? n = v.set? := by
  rw [get?_compact hd, h]
  rfl

theorem get?_compact_none (hd : (f.map (·.1)).Nodup)
    (h : f.get? n = none) : f.compact.get? n = none := by
  rw [get?_compact hd, h]
  rfl

theorem put_eq_self (h : f.get? n = some v) : f.put n v = f := by
  induction f with
  | nil => cases h
  | cons head rest ih =>
    simp only [get?] at h
    simp only [put]
    split at h
    · next hn =>
      cases h
      rw [if_pos hn]
    · next hn => rw [if_neg hn, ih h]

theorem without_eq_self (h : ∀ kv ∈ f, kv.1 ∉ names) : f.without names = f :=
  List.filter_eq_self.2 fun kv hkv => by simpa using h kv hkv

theorem without_append (hf : ∀ kv ∈ f, kv.1 ∈ names) (hg : ∀ kv ∈ g, kv.1 ∉ names) :
    without names (f ++ g) = g := by
  have hnil : f.without names = [] :=
    List.filter_eq_nil_iff.2 fun kv hkv => by simpa using hf kv hkv
  calc without names (f ++ g)
      = f.without names ++ g.without names := List.filter_append ..
    _ = g := by rw [hnil, without_eq_self hg, List.nil_append]

end Fields

namespace Reading
variable {α β : Type} {f : Fields} {n : String} {names : List String}

@[simp] theorem pure_bind (a : α) (read : α → Reading β) : (pure a >>= read) = read a := rfl

@[simp] theorem under_pure (a : α) (place : Place) : (pure a : Reading α).under place = pure a := rfl

theorem field_some {absent : Reading α} {read : Value → Reading α} {v : Value} {a : α}
    (hn : f.get? n = some v) (hread : read v = pure a) :
    field f (n :: names) absent read = pure a := by
  simp [field, used?, Fields.get, hn, hread]

theorem field_ofText? {read : Value → Reading (Option String)} {o : Option String}
    (hn : f.get? n = (Value.ofText? o).set?) (hrest : o = none → ∀ m ∈ names, f.get? m = none)
    (hread : read (.ofText? o) = pure o) : field f (n :: names) (pure none) read = pure o := by
  cases o with
  | some s => exact field_some hn hread
  | none =>
    have hnone : used? f (n :: names) = none := by
      refine List.find?_eq_none.2 fun m hm => ?_
      obtain rfl | hm := List.mem_cons.1 hm
      · simp [hn, Value.ofText?, Value.set?, Value.isNull]
      · simp [hrest rfl m hm]
    simp [field, hnone]

theorem field_singleton {read : Value → Reading (Option String)} {o : Option String}
    (hn : f.get? n = (Value.ofText? o).set?) (hread : read (.ofText? o) = pure o) :
    field f [n] (pure none) read = pure o := field_ofText? hn (fun _ => nofun) hread

theorem items_map {read : Value → Reading α} (write : α → Value) {as : List α}
    (h : ∀ a ∈ as, read (write a) = pure a) (start : Nat) :
    items read start (as.map write) = pure as := by
  induction as generalizing start with
  | nil => rfl
  | cons a as ih =>
    simp only [List.map_cons, items, h a (.head _), under_pure, pure_bind,
      ih fun a ha => h a (.tail _ ha)]

theorem list_ofRecords {carrier : Carrier} {read : Value → Reading α} {write : α → Fields}
    {as : List α} (h : ∀ a ∈ as, read (.record (write a).compact) = pure a) :
    list carrier read (.ofRecords Fields.compact (as.map write)) = pure as := by
  have hitems := items_map _ h 0
  simpa [list, Value.ofRecords, Function.comp_def] using hitems

theorem entries_map {read : Value → Reading α} (write : α → Value) {kvs : List (String × α)}
    (h : ∀ kv ∈ kvs, read (write kv.2) = pure kv.2) :
    entries read (kvs.map fun (k, a) => (k, write a)) = pure kvs := by
  induction kvs with
  | nil => rfl
  | cons kv kvs ih =>
    simp only [List.map_cons, entries, h kv (.head _), under_pure, pure_bind,
      ih fun kv hkv => h kv (.tail _ hkv)]

theorem used?_cons {first m : String} (h : used? f (first :: names) = some m) :
    (m = first ∧ (f.get? first).isSome) ∨ (f.get? first = none ∧ used? f names = some m) := by
  cases hf : f.get? first with
  | none => exact .inr ⟨rfl, by simpa [used?, hf] using h⟩
  | some v => exact .inl ⟨by simpa [used?, hf, eq_comm] using h, rfl⟩

end Reading

def Body.openName? : Body → Option String
  | .decision ⟨_, _, none⟩ => some "else_path"
  | .checkpoint none => some "checkpoint_message"
  | _ => none

namespace Definition
open Reading Fields

theorem readTransition_toRecord {t : Transition} (ht : t.Tidy) :
    readTransition (.record t.toRecord.compact) = pure t := by
  have hd : (t.toRecord.map (·.1)).Nodup := by simp [Transition.toRecord]
  have hold : ∀ m ∈ ["target_uuid", "target"], t.toRecord.compact.get? m = none := by
    intro m hm
    refine get?_compact_none hd ?_
    simp only [List.mem_cons, List.not_mem_nil, or_false] at hm
    obtain rfl | rfl := hm <;> rfl
  have htarget : field t.toRecord.compact ["target_id", "target_uuid", "target"] (pure none)
      reference = pure t.target :=
    field_ofText? (get?_compact_some hd rfl) (fun _ => hold) (reference_ofText? ht.1)
  have hcondition : field t.toRecord.compact ["condition"] (pure none) trimmedText =
      pure t.condition :=
    field_singleton (get?_compact_some hd rfl) (trimmedText_ofText? ht.2)
  have hlabel : field t.toRecord.compact ["label"] (pure none) optionalText = pure t.label :=
    field_singleton (get?_compact_some hd rfl) (optionalText_ofText? _)
  simp only [readTransition, model, htarget, hcondition, hlabel, pure_bind]

theorem fields_edge {condition target : Option String} (hc : ∀ s ∈ condition, Text.Tidy s)
    (ht : ∀ s ∈ target, Text.Tidy s) {f : Fields}
    (hf : f = [("condition", .ofText? condition), ("target", .ofText? target)]) (older : String)
    (ho : "condition" ≠ older ∧ "target" ≠ older) :
    field f.compact ["condition"] (pure none) trimmedText = pure condition ∧
      field f.compact ["target", older] (pure none) reference = pure target := by
  subst hf
  have hd : (([("condition", .ofText? condition), ("target", .ofText? target)] : Fields).map
      (·.1)).Nodup := by simp
  refine ⟨field_singleton (get?_compact_some hd rfl) (trimmedText_ofText? hc), ?_⟩
  refine field_ofText? (get?_compact_some hd rfl) (fun _ m hm => ?_) (reference_ofText? ht)
  obtain rfl := List.mem_singleton.1 hm
  exact get?_compact_none hd (by simp [get?, ho.1, ho.2])

theorem readBranch_toRecord {b : Branch} (hb : b.Tidy) :
    readBranch (.record b.toRecord.compact) = pure b := by
  obtain ⟨hcondition, htarget⟩ := fields_edge hb.1 hb.2 (f := b.toRecord) rfl "path" (by decide)
  simp only [readBranch, model, hcondition, htarget, pure_bind]

theorem readJump_toRecord {j : Jump} (hj : j.Tidy) :
    readJump (.record j.toRecord.compact) = pure j := by
  obtain ⟨hcondition, htarget⟩ :=
    fields_edge hj.1 hj.2 (f := j.toRecord) rfl "next_step_id" (by decide)
  simp only [readJump, model, hcondition, htarget, pure_bind]

theorem readOutput_toRecord (o : OutputField) :
    readOutput (.record o.toRecord.compact) = pure o := by
  have hname : required o.toRecord.compact "name" text = pure o.name := field_some rfl rfl
  have htemplate : field o.toRecord.compact ["value_template", "value"] (pure "") textOrEmpty =
      pure o.template := field_some rfl rfl
  simp only [readOutput, model, hname, htemplate, pure_bind]

theorem readOutputs_ofRecords {os : List OutputField}
    (h : ∀ o ∈ os, Text.allBlank o.name = false) :
    readOutputs (.ofRecords Fields.compact (os.map (·.toRecord))) = pure os := by
  have hnamed : ∀ v ∈ (os.map (·.toRecord)).map fun r => Value.record (Fields.compact r),
      isNamed v = true := by
    simp only [List.map_map, List.mem_map, Function.comp_def]
    rintro v ⟨o, ho, rfl⟩
    have hname : Fields.get o.toRecord.compact "name" = .text o.name := rfl
    have hne : Text.trim o.name ≠ "" := Text.trim_ne_empty (h o ho)
    simp [isNamed, hname, Value.trimmed, h o ho, Value.truthy, hne]
  rw [Value.ofRecords, readOutputs, List.filter_eq_self.2 hnamed]
  exact list_ofRecords fun o _ => readOutput_toRecord o

theorem nodup_writtenNames (type : StepType) : (writtenNames type).Nodup := by
  cases type with
  | decision simple => cases simple <;> decide
  | _ => decide

theorem names_cases (type : StepType) :
    ∀ names ∈ baseNames ++ bodyNames type,
      names.tail = [] ∨ (names = elseNames ∧ ∃ simple, type = .decision simple) ∨
        (names = messageNames ∧ type = .checkpoint) := by
  cases type with
  | decision simple =>
    have hnames : ∀ simple, ∀ names ∈ baseNames ++ bodyNames (.decision simple),
        names.tail = [] ∨ names = elseNames := by decide
    exact fun names h => (hnames simple names h).imp_right fun h => .inl ⟨h, simple, rfl⟩
  | checkpoint =>
    have hnames : ∀ names ∈ baseNames ++ bodyNames .checkpoint,
        names.tail = [] ∨ names = messageNames := by decide
    exact fun names h => (hnames names h).imp_right fun h => .inr ⟨h, rfl⟩
  | _ => exact fun names h => .inl (by revert names; decide)

theorem decision_of_typeOfBody {b : Body} {simple : Bool}
    (h : typeOfBody b = .decision simple) : ∃ d, b = .decision d := by
  cases b with
  | decision d => exact ⟨d, rfl⟩
  | _ => cases h

theorem checkpoint_of_typeOfBody {b : Body} (h : typeOfBody b = .checkpoint) :
    ∃ m, b = .checkpoint m := by
  cases b with
  | checkpoint m => exact ⟨m, rfl⟩
  | _ => cases h

theorem mem_ownNames {type : StepType} {n : String} (h : n ∈ writtenNames type) :
    n ∈ ownNames type := by
  cases type with
  | decision simple => exact List.mem_append_left _ h
  | _ => exact h

theorem readBody_toRecord {f : Fields} {b : Body} (hb : b.Tidy)
    (hf : ∀ n v, (b.toRecord Fields.compact).get? n = some v → f.get? n = v.set?)
    (hopen : ∀ n ∈ b.openName?, f.get? n = none) : readBody f (typeOfBody b) = pure b := by
  cases b with
  | question q =>
    have hquestion := field_singleton (hf "question" _ rfl) (optionalText_ofText? q.question)
    have hname := field_singleton (hf "variable_name" _ rfl) (trimmedText_ofText? hb)
    have htype : field f ["answer_type"] (pure "text") text = pure q.answerType :=
      field_some (hf "answer_type" _ rfl) rfl
    have hoptions : field f ["options"] (pure []) (list .data pure) = pure q.options := by
      refine field_some (hf "options" _ rfl) ?_
      simpa [list] using items_map id (fun v (_ : v ∈ q.options) => rfl) 0
    simp only [readBody, typeOfBody, hquestion, hname, htype, hoptions, pure_bind]
  | decision d =>
    obtain ⟨simple, branches, elseTarget⟩ := d
    have hbranches : field f ["branches"] (pure []) (list .data readBranch) = pure branches :=
      field_some (hf "branches" _ rfl) (list_ofRecords fun b hmem => readBranch_toRecord (hb.1 b hmem))
    have helse : field f elseNames (pure none) reference = pure elseTarget := by
      refine field_ofText? (hf "else_target" _ rfl) (fun hnone m hm => ?_) (reference_ofText? hb.2)
      obtain rfl := List.mem_singleton.1 hm
      exact hopen _ (by rw [show elseTarget = none from hnone]; rfl)
    simp only [readBody, typeOfBody, hbranches, helse, pure_bind]
  | action a =>
    have hinstructions := field_singleton (hf "instructions" _ rfl)
      (optionalText_ofText? a.instructions)
    have houtputs : field f ["output_fields"] (pure []) readOutputs = pure a.outputs :=
      field_some (hf "output_fields" _ rfl) (readOutputs_ofRecords hb)
    simp only [readBody, typeOfBody, hinstructions, houtputs, pure_bind]
  | checkpoint m =>
    have hmessage : field f messageNames (pure none) optionalText = pure m := by
      refine field_ofText? (hf "message" _ rfl) (fun hnone n hn => ?_) (optionalText_ofText? m)
      obtain rfl := List.mem_singleton.1 hn
      exact hopen _ (by rw [show m = none from hnone]; rfl)
    simp only [readBody, typeOfBody, hmessage, pure_bind]
  | subFlow s =>
    have htarget := field_singleton (hf "target_workflow_id" _ rfl)
      (reference_ofText? hb)
    have hmapping : field f ["variable_mapping"] (pure []) (mapping .data text) =
        pure s.mapping := by
      refine field_some (hf "variable_mapping" _ rfl) ?_
      exact entries_map Value.text fun _ _ => rfl
    simp only [readBody, typeOfBody, htarget, hmapping, pure_bind]
  | message content =>
    have hcontent := field_singleton (hf "content" _ rfl)
      (optionalText_ofText? content)
    simp only [readBody, typeOfBody, hcontent, pure_bind]
  | escalate e =>
    have htype := field_singleton (hf "target_type" _ rfl)
      (trimmedText_ofText? hb.1)
    have hvalue := field_singleton (hf "target_value" _ rfl)
      (optionalText_ofText? e.targetValue)
    have hpriority := field_singleton (hf "priority" _ rfl)
      (trimmedText_ofText? hb.2)
    have hreason : field f ["reason_required"] (pure false) flag = pure e.reasonRequired :=
      field_some (hf "reason_required" _ rfl) rfl
    have hnotes := field_singleton (hf "notes" _ rfl)
      (optionalText_ofText? e.notes)
    simp only [readBody, typeOfBody, htype, hvalue, hpriority, hreason, hnotes, pure_bind]
  | resolve r =>
    have htype := field_singleton (hf "resolution_type" _ rfl)
      (trimmedText_ofText? hb)
    have hcode := field_singleton (hf "resolution_code" _ rfl)
      (optionalText_ofText? r.code)
    have hnotes : field f ["notes_required"] (pure false) flag = pure r.notesRequired :=
      field_some (hf "notes_required" _ rfl) rfl
    have hsurvey : field f ["survey_trigger"] (pure false) flag = pure r.surveyTrigger :=
      field_some (hf "survey_trigger" _ rfl) rfl
    simp only [readBody, typeOfBody, htype, hcode, hnotes, hsurvey, pure_bind]

end Definition

end Runbook
