import Runbook.Proofs.RouteAlignment
import Runbook.Proofs.StepRoundTrip

/-! A workflow kept as data. Writing it and reading it back gives the same workflow, null extra
fields aside, and with it the same routes. -/
namespace Runbook

namespace Value

theorem finiteItems_eq_self {vs : List Value} (h : ∀ v ∈ vs, v.finiteOnly = v) :
    finiteItems vs = vs := by
  induction vs with
  | nil => rfl
  | cons v vs ih => rw [finiteItems, h v (.head _), ih fun v hv => h v (.tail _ hv)]

theorem finiteFields_eq_self {f : Fields} (h : ∀ kv ∈ f, kv.2.finiteOnly = kv.2) :
    finiteFields f = f := by
  induction f with
  | nil => rfl
  | cons kv f ih => rw [finiteFields, h kv (.head _), ih fun kv hkv => h kv (.tail _ hkv)]

@[simp] theorem finiteOnly_ofText? (o : Option String) : (ofText? o).finiteOnly = ofText? o := by
  cases o <;> rfl

@[simp] theorem finiteOnly_text (t : String) : (text t).finiteOnly = text t := by simp [finiteOnly]

@[simp] theorem finiteOnly_flag (b : Bool) : (flag b).finiteOnly = flag b := by simp [finiteOnly]

theorem finiteOnly_record {f : Fields} (h : ∀ kv ∈ f, kv.2.finiteOnly = kv.2) :
    (record f.compact).finiteOnly = record f.compact := by
  rw [finiteOnly, finiteFields_eq_self fun kv hkv => h kv (Fields.mem_compact.1 hkv).1]

theorem finiteOnly_ofRecords {α : Type} {as : List α} {write : α → Fields}
    (h : ∀ a ∈ as, ∀ kv ∈ write a, kv.2.finiteOnly = kv.2) :
    (ofRecords Fields.compact (as.map write)).finiteOnly =
      ofRecords Fields.compact (as.map write) := by
  rw [ofRecords, finiteOnly, finiteItems_eq_self]
  simp only [List.map_map, List.mem_map, Function.comp_def]
  rintro v ⟨a, ha, rfl⟩
  exact finiteOnly_record (h a ha)

theorem retriedFlaw?_eq_none {v : Value} (h : v.height ≤ maxHeight - 1) :
    v.retriedFlaw? = none := by
  have hpart : ¬(v.partAt? (maxHeight - 1)).isSome := by
    rw [isSome_partAt?]
    omega
  rw [retriedFlaw?, Option.not_isSome_iff_eq_none.1 hpart]
  rfl

theorem depthFlaw?_eq_none {v : Value} (h : v.height ≤ maxHeight) : v.depthFlaw? = none := by
  simp [depthFlaw?, isWritable, h]

end Value

namespace Step
variable {s : Step}

theorem depthFlaw?_eq_none (hr : s.Restorable) : s.depthFlaw? = none := by
  have hshallow := hr.shallow
  unfold depthFlaw?
  split
  · next d hd =>
    rw [hd] at hshallow
    exact List.findSome?_eq_none_iff.2 fun v hv => Value.retriedFlaw?_eq_none (hshallow v hv)
  · have hle : s.body.maxHeight ≤ Value.maxHeight := by
      unfold Body.maxHeight
      split <;> decide
    exact List.findSome?_eq_none_iff.2 fun v hv =>
      Value.depthFlaw?_eq_none (Nat.le_trans (hshallow v hv) hle)

theorem finite_body (hr : s.Restorable) :
    ∀ kv ∈ s.body.toRecord Fields.compact, kv.2.finiteOnly = kv.2 := by
  cases hb : s.body with
  | question q =>
    have hoptions : (Value.list q.options).finiteOnly = .list q.options := by
      rw [Value.finiteOnly, Value.finiteItems_eq_self fun v hv => hr.finite v ?_]
      rw [givenValues, hb]
      exact List.mem_append_left _ hv
    simp [Body.toRecord, hoptions]
  | decision d =>
    have hbranches :
        (Value.ofRecords Fields.compact (d.branches.map (·.toRecord))).finiteOnly = _ :=
      Value.finiteOnly_ofRecords fun b _ => by simp [Branch.toRecord]
    simp [Body.toRecord, hbranches]
  | action a =>
    have houtputs :
        (Value.ofRecords Fields.compact (a.outputs.map (·.toRecord))).finiteOnly = _ :=
      Value.finiteOnly_ofRecords fun o _ => by simp [OutputField.toRecord]
    simp [Body.toRecord, houtputs]
  | subFlow f =>
    refine List.forall_mem_cons.2 ⟨Value.finiteOnly_ofText? _, List.forall_mem_singleton.2 ?_⟩
    refine congrArg Value.record (Value.finiteFields_eq_self fun kv hkv => ?_)
    obtain ⟨entry, -, rfl⟩ := List.mem_map.1 hkv
    exact Value.finiteOnly_text entry.2
  | _ => simp [Body.toRecord]

theorem finite_toRecord (hr : s.Restorable) :
    ∀ kv ∈ s.toRecord Fields.compact, kv.2.finiteOnly = kv.2 := by
  have hjumps : (Value.ofRecords Fields.compact (s.jumps.map (·.toRecord))).finiteOnly = _ :=
    Value.finiteOnly_ofRecords fun j _ => by simp [Jump.toRecord]
  have htransitions :
      (Value.ofRecords Fields.compact (s.transitions.map (·.toRecord))).finiteOnly = _ :=
    Value.finiteOnly_ofRecords fun t _ => by simp [Transition.toRecord]
  intro kv hkv
  obtain hown | hextra := List.mem_append.1 hkv
  · obtain hbase | hbody := List.mem_append.1 hown
    · simp only [List.mem_cons, List.not_mem_nil, or_false] at hbase
      obtain rfl | rfl | rfl | rfl | rfl | rfl := hbase <;> simp [hjumps, htransitions]
    · exact finite_body hr kv hbody
  · exact hr.finite _ (List.mem_append_right _ (List.mem_map_of_mem hextra))

end Step

def Workflow.written (w : Workflow) : Fields := (w.toRecord Fields.compact).compact

/-- A workflow as data holds it. -/
def Workflow.withoutNulls (w : Workflow) : Workflow :=
  { w with steps := w.steps.map (·.withoutNulls) }

namespace Definition
open Reading
variable {s : Step} {ss : List Step} {w : Workflow}

theorem readStep_written (hs : s.Tidy) (hr : s.Restorable) (fresh : String) :
    readStep fresh (.record s.written) = pure s.withoutNulls := by
  simp only [readStep, Step.typeOf_written hs, Step.readTyped_written hs hr, under_pure]

theorem readSteps_written (hs : ∀ s ∈ ss, s.Tidy) (hr : ∀ s ∈ ss, s.Restorable)
    (fresh index : Nat) :
    readSteps fresh index (ss.map fun s => .record s.written) =
      pure (ss.map (·.withoutNulls)) := by
  induction ss generalizing fresh index with
  | nil => rfl
  | cons s ss ih =>
    simp only [List.map_cons, readSteps, under_pure, Reading.pure_bind,
      readStep_written (hs s (.head _)) (hr s (.head _)),
      ih (fun s hmem => hs s (.tail _ hmem)) fun s hmem => hr s (.tail _ hmem)]

theorem hasContent_written (hs : s.Tidy) : hasContent (.record s.written) = true :=
  hasContent_of_typeOf (Step.typeOf_written hs)

theorem brokenBranches?_written (hs : s.Tidy) :
    brokenBranches? (.record s.written) = none := by
  simp only [brokenBranches?, Step.typeOf_written hs]
  split
  · next simple htype =>
    obtain ⟨d, hd⟩ := decision_of_typeOfBody (Except.ok.inj htype)
    rw [Decision.scalarBranches?, Step.get?_branches hs hd]
    rfl
  · rfl

theorem keptSteps_ofRecords (hs : ∀ s ∈ ss, s.Tidy) :
    keptSteps (.ofRecords Fields.compact (ss.map (·.toRecord Fields.compact))) =
      ss.map fun s => .record s.written := by
  rw [Value.ofRecords, keptSteps, List.map_map, List.filter_eq_self.2]
  · rfl
  · simp only [List.mem_map, Function.comp_def]
    rintro v ⟨s, hmem, rfl⟩
    exact hasContent_written (hs s hmem)

theorem get?_written {n : String} {v : Value} (h : (w.toRecord Fields.compact).get? n = some v) :
    w.written.get? n = v.set? :=
  Fields.get?_compact_some (by simp [Workflow.toRecord]) h

theorem get?_steps (w : Workflow) : w.written.get? "steps" =
    some (.ofRecords Fields.compact (w.steps.map (·.toRecord Fields.compact))) :=
  get?_written (v := .ofRecords Fields.compact (w.steps.map (·.toRecord Fields.compact))) rfl

theorem readFields_written (hs : ∀ s ∈ w.steps, s.Tidy) (hr : ∀ s ∈ w.steps, s.Restorable)
    (fresh : Nat) : readFields fresh w.written = pure w.withoutNulls := by
  have hid : workflowId? w.written = some w.id := by
    have hget := get?_written (w := w) (n := "id") (v := .text w.id) rfl
    rw [workflowId?, hget]
    rfl
  have htitle : field w.written ["title"] (pure "") text =
      pure w.title := field_some (get?_written (v := .text w.title) rfl) rfl
  have hgraph : field w.written ["graph_mode"] (pure false) flag =
      pure w.isGraph := field_some (get?_written (v := .flag w.isGraph) rfl) rfl
  have hstart : field w.written startNames (pure none) optionalText =
      pure w.startId := by
    refine field_ofText? (get?_written rfl) (fun _ m hm => ?_) (optionalText_ofText? _)
    obtain rfl := List.mem_singleton.1 hm
    exact Fields.get?_compact_none (by simp [Workflow.toRecord]) rfl
  have hread := readSteps_written hs hr fresh 0
  rw [← keptSteps_ofRecords hs] at hread
  simp only [readFields, hid, htitle, hgraph, hstart, Reading.pure_bind, Option.getD_some,
    Option.isSome_some, if_true]
  rw [field_some (get?_steps w) hread]
  rfl

namespace Naming

theorem assign_eq_self (h : ∀ s ∈ ss, wanted? s = none) (taken : List String) :
    assign taken ss = ss := by
  induction ss with
  | nil => rfl
  | cons s ss ih =>
    simp only [assign, h s (.head _), ih fun s hmem => h s (.tail _ hmem)]

theorem assignNames_eq_self (hn : ∀ s ∈ ss, wanted? s = none)
    (hh : ∀ s ∈ ss, unhashable? s.variableName = none) : assignNames ss = .ok ss := by
  rw [assignNames, List.findSome?_eq_none_iff.2 hh, assign_eq_self hn]

theorem unhashable?_withoutNulls (hr : s.Restorable) (h : unhashable? s.variableName = none) :
    unhashable? s.withoutNulls.variableName = none := by
  have hget := Fields.get?_compact hr.distinct "variable_name"
  obtain ⟨id, title, description, jumps, transitions, body, extras⟩ := s
  cases body with
  | question q => exact h
  | _ =>
    simp only [Step.variableName, Step.withoutNulls, hget] at h ⊢
    cases hv : extras.get? "variable_name" with
    | none => rfl
    | some v =>
      rw [hv] at h
      cases hnull : v.isNull with
      | true => simp [Value.set?, hnull, unhashable?]
      | false => simpa [Value.set?, hnull] using h

end Naming
end Definition

namespace Workflow
variable {w : Workflow}

theorem toData_eq (hr : ∀ s ∈ w.steps, s.Restorable) :
    w.toData = .ok (.record w.written) := by
  have hdepth : w.steps.findSome? (·.depthFlaw?) = none :=
    List.findSome?_eq_none_iff.2 fun s hs => Step.depthFlaw?_eq_none (hr s hs)
  have hsteps : (Value.ofRecords Fields.compact
      (w.steps.map (·.toRecord Fields.compact))).finiteOnly = _ :=
    Value.finiteOnly_ofRecords fun s hs => Step.finite_toRecord (hr s hs)
  have hfinite : ∀ kv ∈ w.toRecord Fields.compact, kv.2.finiteOnly = kv.2 := by
    simp [toRecord, hsteps]
  simp only [toData, hdepth, Value.finiteOnly_record hfinite, written]

theorem read_written (hs : ∀ s ∈ w.steps, s.Settled) (hr : ∀ s ∈ w.steps, s.Restorable)
    (fresh : Nat) :
    Workflow.read fresh (.record w.written) = .ok w.withoutNulls := by
  have htidy : ∀ s ∈ w.steps, s.Tidy := fun s hmem => (hs s hmem).tidy
  have hbroken : (Definition.keptSteps (Fields.get w.written
      "steps")).findSome? Definition.brokenBranches? = none := by
    rw [Fields.get, Definition.get?_steps, Option.getD_some, Definition.keptSteps_ofRecords htidy]
    refine List.findSome?_eq_none_iff.2 fun v hv => ?_
    obtain ⟨s, hmem, rfl⟩ := List.mem_map.1 hv
    exact Definition.brokenBranches?_written (htidy s hmem)
  have hnames : Definition.Naming.assignNames w.withoutNulls.steps = .ok w.withoutNulls.steps :=
    Definition.Naming.assignNames_eq_self
      (List.forall_mem_map.2 fun s hmem => (hs s hmem).named)
      (List.forall_mem_map.2 fun s hmem =>
        Definition.Naming.unhashable?_withoutNulls (hr s hmem) (hs s hmem).hashable)
  simp only [Workflow.read, hbroken, Definition.readFields_written htidy hr]
  change (do
    let steps ← Definition.Naming.assignNames w.withoutNulls.steps
    pure { w.withoutNulls with steps }) = _
  rw [hnames]
  rfl

section Routes
variable (w) (s : Step) (rs : Store)

theorem aligned_withoutNulls : w.withoutNulls.Aligned w := by
  refine ⟨rfl, ?_⟩
  rw [withoutNulls, List.map_map]
  rfl

theorem nextRoute_withoutNulls (strategy : Strategy) :
    w.withoutNulls.nextRoute strategy s.withoutNulls rs = w.nextRoute strategy s rs := by
  have halike : s.withoutNulls.Alike s := ⟨rfl, rfl, rfl, .same s.body⟩
  exact w.aligned_withoutNulls.nextRoute_eq halike strategy rs

end Routes

/-- Writing a workflow and reading it back, with whatever ids at hand, gives the workflow itself
without the null extra fields, and the routes from each step are the same. -/
theorem read_toData {fresh : Nat} {raw : Value} (h : Workflow.read fresh raw = .ok w)
    (hr : ∀ s ∈ w.steps, s.Restorable) :
    ∃ data, w.toData = .ok data ∧
      (∀ next, Workflow.read next data = .ok w.withoutNulls) ∧
      ∀ strategy, ∀ s ∈ w.steps, ∀ rs,
        w.withoutNulls.nextRoute strategy s.withoutNulls rs = w.nextRoute strategy s rs :=
  ⟨_, toData_eq hr, read_written (settled_of_read h) hr,
    fun strategy s _ rs => nextRoute_withoutNulls w s rs strategy⟩

def triageRaw : Value := .record
  [("id", .text "triage"), ("graph_mode", .flag true), ("start_node_uuid", .text "ask"),
    ("steps", .list [
      .record [("id", .text "ask"), ("type", .text "question"), ("title", .text "How bad?"),
        ("options", .list [.text "low", .text "high"]), ("owner", .null), ("team", .text "ops"),
        ("transitions", .list [.record [("target", .text " pick ")]])],
      .record [("id", .text "pick"), ("type", .text "decision"),
        ("condition", .text "how_bad == 'high'"), ("true_path", .text "call"),
        ("false_target", .text "ask")],
      .record [("id", .text "call"), ("type", .text "checkpoint"),
        ("checkpoint_message", .text "Call them.")]])]

def triage : Workflow where
  id := "triage"
  title := ""
  isGraph := true
  startId := some "ask"
  steps := [
    { id := "ask", title := "How bad?", description := none, jumps := [],
      transitions := [⟨some "pick", none, none⟩],
      body := .question ⟨none, some "how_bad", "text", [.text "low", .text "high"]⟩,
      extras := [("owner", .null), ("team", .text "ops")] },
    { id := "pick", title := "", description := none, jumps := [], transitions := [],
      body := .decision ⟨false, [⟨some "how_bad == 'high'", some "call"⟩], some "ask"⟩,
      extras := [] },
    { id := "call", title := "", description := none, jumps := [], transitions := [],
      body := .checkpoint (some "Call them."), extras := [] }]

theorem restorable_triage : ∀ s ∈ triage.steps, s.Restorable := by
  simp only [triage, List.forall_mem_cons]
  refine ⟨?ask, ?pick, ?call, by simp⟩
  all_goals constructor <;>
    simp [Step.givenValues, Value.finiteOnly, Value.height, Body.maxHeight, Value.maxHeight,
      Body.openName?]

theorem read_toData_triage :
    (Workflow.read 0 triageRaw = .ok triage ∧ ∀ s ∈ triage.steps, s.Restorable) ∧
      ∃ data, triage.toData = .ok data ∧
        (∀ next, Workflow.read next data = .ok triage.withoutNulls) ∧
        ∀ strategy, ∀ s ∈ triage.steps, ∀ rs,
          triage.withoutNulls.nextRoute strategy s.withoutNulls rs =
            triage.nextRoute strategy s rs :=
  have hread : Workflow.read 0 triageRaw = .ok triage := by rfl
  ⟨⟨hread, restorable_triage⟩, read_toData hread restorable_triage⟩

def soleRaw (fields : Fields) : Value := .record
  [("id", .text "w"), ("steps", .list [.record (("id", .text "s") :: fields)])]

def sole (body : Body) (extras : Fields) : Workflow where
  id := "w"
  title := ""
  isGraph := false
  startId := none
  steps := [{ id := "s", title := "", description := none, jumps := [], transitions := [], body, extras }]

def nested : Nat → Value
  | 0 => .list []
  | n + 1 => .list [nested n]

theorem height_nested (n : Nat) : (nested n).height = n + 1 := by
  induction n with
  | zero => rfl
  | succ n ih => simp [nested, Value.height, Value.heightOfItems, ih]

/-- A workflow that data brings back. -/
def Kept (w : Workflow) : Prop :=
  ∃ data, w.toData = .ok data ∧ Workflow.read 0 data = .ok w.withoutNulls

theorem not_kept {w : Workflow} {data : Value} (back : Workflow) (hdata : w.toData = .ok data)
    (hread : Workflow.read 0 data = .ok back) (hne : back ≠ w.withoutNulls) : ¬w.Kept := by
  rintro ⟨data', hdata', hread'⟩
  obtain rfl := Except.ok.inj (hdata.symm.trans hdata')
  exact hne (Except.ok.inj (hread.symm.trans hread'))

def boundless : Workflow := sole (.question ⟨none, some "q", "text", [.real (.inf false)]⟩) []

def bottomless : Workflow := sole (.action ⟨none, []⟩) [("spec", nested 255)]

def hidden : Workflow := sole (.decision ⟨false, [], none⟩) [("else_path", .text "s")]

def blank : Workflow := sole (.decision ⟨false, [⟨none, none⟩], none⟩) []

/-- Data has no infinity and takes nothing that is too deep. It has no null either, so that a name
comes to light which a null hid before, and a branch that says nothing is left out. -/
theorem not_read_toData :
    (Workflow.read 0 (soleRaw [("type", .text "question"), ("variable_name", .text "q"),
        ("options", .list [.real (.inf false)])]) = .ok boundless ∧ ¬boundless.Kept) ∧
      (Workflow.read 0 (soleRaw [("type", .text "action"), ("spec", nested 255)]) =
        .ok bottomless ∧ ¬bottomless.Kept) ∧
      (Workflow.read 0 (soleRaw [("type", .text "decision"), ("else_target", .null),
        ("else_path", .text "s")]) = .ok hidden ∧ ¬hidden.Kept) ∧
      (Workflow.read 0 (soleRaw [("type", .text "decision"),
        ("branches", .list [.record [("target", .null), ("path", .text "s")]])]) = .ok blank ∧
        ¬blank.Kept) := by
  refine ⟨⟨by rfl, ?boundless⟩, ⟨by rfl, ?bottomless⟩, ⟨by rfl, ?hidden⟩, ⟨by rfl, ?blank⟩⟩
  case boundless =>
    refine not_kept (sole (.question ⟨none, some "q", "text", [.null]⟩) []) rfl rfl ?_
    simp [boundless, sole, withoutNulls, Step.withoutNulls]
  case bottomless =>
    have hflaw : (nested 255).depthFlaw? = some .tooDeep := by
      simp [Value.depthFlaw?, Value.isWritable, height_nested, Value.maxHeight]
    rintro ⟨data, hdata, -⟩
    simp [toData, bottomless, sole, Step.depthFlaw?, Step.givenValues, hflaw] at hdata
  case hidden =>
    refine not_kept (sole (.decision ⟨false, [], some "s"⟩) []) rfl rfl ?_
    simp [hidden, sole, withoutNulls, Step.withoutNulls]
  case blank =>
    refine not_kept (sole (.decision ⟨false, [], none⟩) []) rfl rfl ?_
    simp [blank, sole, withoutNulls, Step.withoutNulls]

end Workflow
end Runbook
