import Runbook.Proofs.JsonLimits
import Runbook.Proofs.RecordParts
import Runbook.Proofs.TimestampText
import Runbook.Run.Saved

/-! Saved runs: what a run must be like for its record to be read back as the run itself, and which
of these records the reader of JSON takes at all. -/
namespace Runbook
open Reading Value

namespace Value
variable {p : Value → Bool}

theorem everyItem_iff {vs : List Value} : everyItem p vs = true ↔ ∀ v ∈ vs, every p v = true := by
  induction vs with
  | nil => simp [everyItem]
  | cons v vs ih => simp [everyItem, ih]

theorem everyField_iff {f : Fields} :
    everyField p f = true ↔ ∀ kv ∈ f, every p kv.2 = true := by
  induction f with
  | nil => simp [everyField]
  | cons kv f ih =>
    obtain ⟨k, v⟩ := kv
    simp [everyField, ih]

theorem isData_list {vs : List Value} : (list vs).isData = true ↔ ∀ v ∈ vs, v.isData = true := by
  simp [isData, every, isSound, everyItem_iff]

theorem isData_record {f : Fields} : (record f).isData = true ↔
    (f.map (·.1)).Nodup ∧ ∀ kv ∈ f, kv.2.isData = true := by
  simp only [isData, every, isSound, Bool.and_eq_true, decide_eq_true_eq, everyField_iff]

theorem isShort_list {vs : List Value} :
    (list vs).isShort = true ↔ ∀ v ∈ vs, v.isShort = true := by
  simp [isShort, every, isLegible, everyItem_iff]

theorem isShort_record {f : Fields} :
    (record f).isShort = true ↔ ∀ kv ∈ f, kv.2.isShort = true := by
  simp [isShort, every, isLegible, everyField_iff]

@[simp] theorem isData_null : null.isData = true := rfl

@[simp] theorem isData_text (s : String) : (text s).isData = true := rfl

@[simp] theorem isData_whole (n : Int) : (whole n).isData = true := rfl

@[simp] theorem isData_flag (b : Bool) : (flag b).isData = true := rfl

@[simp] theorem isShort_null : null.isShort = true := rfl

@[simp] theorem isShort_text (s : String) : (text s).isShort = true := rfl

theorem isShort_whole {n : Int} :
    (whole n).isShort = true ↔ n.natAbs < tenTo Numeral.maxDigits := by
  simp [isShort, every, isLegible]

@[simp] theorem isData_ofText? (o : Option String) : (ofText? o).isData = true := by cases o <;> rfl

@[simp] theorem isData_ofFlag? (o : Option Bool) : (ofFlag? o).isData = true := by cases o <;> rfl

theorem height_lt_list {v : Value} {vs : List Value} (h : v ∈ vs) :
    v.height < (list vs).height := by
  have hitem : v.height ≤ heightOfItems vs := by
    induction vs with
    | nil => cases h
    | cons w vs ih =>
      rw [heightOfItems]
      obtain rfl | h := List.mem_cons.1 h
      · exact Nat.le_max_left _ _
      · have hrest := ih h
        omega
  rw [height]
  omega

theorem height_lt_record {k : String} {v : Value} {f : Fields} (h : (k, v) ∈ f) :
    v.height < (record f).height := by
  have hfield : v.height ≤ heightOfFields f := by
    induction f with
    | nil => cases h
    | cons head f ih =>
      obtain ⟨k', w⟩ := head
      rw [heightOfFields]
      obtain h | h := List.mem_cons.1 h
      · cases h
        exact Nat.le_max_left _ _
      · have hrest := ih h
        omega
  rw [height]
  omega

end Value

namespace Position

/-- An index, an id or nowhere. -/
def isPlain : Position → Bool
  | .foreign _ => false
  | _ => true

variable {p : Position}

theorem saved_eq (h : p.isPlain = true) : p.saved = p.toValue := by
  cases p with
  | foreign v => cases h
  | _ => rfl

theorem isData_saved (h : p.isPlain = true) : p.saved.isData = true := by
  cases p with
  | foreign v => cases h
  | _ => rfl

theorem read_saved (h : p.isPlain = true) : Position.read p.saved = pure p := by
  cases p with
  | foreign v => cases h
  | _ => rfl

end Position

namespace Store
variable {s : Store}

def ofFields (fields : Fields) : Store := fields.map fun (name, v) => (.text name, v)

/-- The keys of a store are texts and distinct, and its values are data. -/
def IsData (s : Store) : Prop :=
  ∃ fields, s = ofFields fields ∧ (Value.record fields).isData = true

theorem ofStore_ofFields (fields : Fields) :
    Json.ofStore (ofFields fields) = .record fields := by
  simp [Json.ofStore, ofFields, Json.keyText, Function.comp_def]

theorem read_ofStore (h : s.IsData) : Run.readStore .json (Json.ofStore s) = pure s := by
  obtain ⟨fields, rfl, -⟩ := h
  have hentries : entries pure fields = pure fields := by
    have hread := @entries_map _ pure (fun v : Value => v) fields fun _ _ => rfl
    simpa using hread
  rw [ofStore_ofFields, Run.readStore, mapping, hentries, pure_bind]
  rfl

end Store

theorem Reading.optional_ofFlag? (o : Option Bool) : optional flag (ofFlag? o) = pure o := by
  cases o <;> rfl

/-- An entry with a position of the usual kinds, an answer that is data, and any time that a clock can
show. -/
structure Entry.Storable (e : Entry) : Prop where
  position : e.position.isPlain = true
  answer : e.answer.isData = true
  time : e.time.Sound

namespace Entry
variable {e : Entry}

theorem readTime_write {t : Timestamp} (h : t.Sound) : readTime .json (.text t.write) = pure t := by
  have hyear : t.date.year ≠ 0 := Nat.one_le_iff_ne_zero.1 h.date.1.1
  simp only [readTime, Timestamp.ofText_write h, timed, hyear, if_false]

theorem read_toRecord (h : e.Storable) (now : Instant) :
    Entry.read .json now (.record e.toRecord) = pure e := by
  have hposition : field e.toRecord ["position"] (pure .nowhere) Position.read =
      pure e.position := field_some rfl (Position.read_saved h.position)
  have hid : field e.toRecord ["step_id"] (pure none) optionalText = pure e.stepId :=
    field_some rfl (optionalText_ofText? _)
  have htitle : field e.toRecord ["step_title"] (pure "") text = pure e.stepTitle :=
    field_some rfl rfl
  have htype : required e.toRecord "step_type" text = pure e.stepType := field_some rfl rfl
  have hreason : field e.toRecord ["condition_result"] (pure none) optionalText = pure e.reason :=
    field_some rfl (optionalText_ofText? _)
  have hbranch : field e.toRecord ["matched_branch"] (pure none) optionalText = pure e.branch :=
    field_some rfl (optionalText_ofText? _)
  have hresolved : field e.toRecord ["resolved"] (pure none) (optional flag) = pure e.resolved :=
    field_some rfl (optional_ofFlag? _)
  have hnotes : field e.toRecord ["notes"] (pure none) optionalText = pure e.notes :=
    field_some rfl (optionalText_ofText? _)
  have hflow : field e.toRecord ["subflow_target"] (pure none) optionalText = pure e.subFlow :=
    field_some rfl (optionalText_ofText? _)
  have hcontent : field e.toRecord ["content"] (pure none) optionalText = pure e.content :=
    field_some rfl (optionalText_ofText? _)
  have hescalated : field e.toRecord ["escalated"] (pure none) (optional flag) =
      pure e.escalated := field_some rfl (optional_ofFlag? _)
  have htime : field e.toRecord ["timestamp"] (pure now.stamp) (readTime .json) = pure e.time :=
    field_some rfl (readTime_write h.time)
  have hanswer : Fields.get e.toRecord "answer" = e.answer := rfl
  simp only [Entry.read, model, hposition, hid, htitle, htype, hreason, hbranch, hresolved, hnotes,
    hflow, hcontent, hescalated, htime, hanswer, pure_bind]

theorem isData_toRecord (h : e.Storable) : (Value.record e.toRecord).isData = true := by
  refine isData_record.2 ⟨by simp [toRecord], ?_⟩
  simp [toRecord, Position.isData_saved h.position, h.answer]

end Entry

theorem Entry.height_answer (e : Entry) : e.answer.height < (Value.record e.toRecord).height :=
  height_lt_record (k := "answer") (by simp [Entry.toRecord])

/-- A run that can be told from its record: nothing in it is of a kind that JSON has no place for. -/
structure Run.Storable (r : Run) : Prop where
  position : r.position.isPlain = true
  stoppedAt : r.stoppedAt.isPlain = true
  trail : ∀ e ∈ r.trail, e.Storable
  results : r.results.IsData
  inputs : r.inputs.IsData

namespace Run
variable {r : Run}

theorem read_toRecord (h : r.Storable) (fresh : String) (now : Instant) :
    Run.read .json fresh now (.record r.toRecord) = pure r := by
  have hid : field r.toRecord ["id"] (pure fresh) text = pure r.id := field_some rfl rfl
  have hworkflow : field r.toRecord ["workflow_id"] (pure none) optionalText = pure r.workflowId :=
    field_some rfl (optionalText_ofText? _)
  have hstatus : field r.toRecord ["status"] (pure .active) readStatus = pure r.status :=
    field_some rfl (by cases r.status <;> rfl)
  have hposition : field r.toRecord ["current_position"] (pure (.index 0)) Position.read =
      pure r.position := field_some rfl (Position.read_saved h.position)
  have hstopped : field r.toRecord ["stopped_at"] (pure .nowhere) Position.read =
      pure r.stoppedAt := field_some rfl (Position.read_saved h.stoppedAt)
  have htrail : field r.toRecord ["execution_path"] (pure []) (list .json (Entry.read .json now)) =
      pure r.trail :=
    field_some rfl (items_map _ (fun e he => Entry.read_toRecord (h.trail e he) now) 0)
  have hresults : field r.toRecord ["results"] (pure []) (readStore .json) = pure r.results :=
    field_some rfl (Store.read_ofStore h.results)
  have hinputs : field r.toRecord ["inputs"] (pure []) (readStore .json) = pure r.inputs :=
    field_some rfl (Store.read_ofStore h.inputs)
  have hcount : field r.toRecord ["iteration_count"] (pure 0) integer = pure r.iterations :=
    field_some rfl rfl
  simp only [Run.read, model, hid, hworkflow, hstatus, hposition, hstopped, htrail, hresults,
    hinputs, hcount, pure_bind]

theorem isData_toRecord (h : r.Storable) : (Value.record r.toRecord).isData = true := by
  have htrail : (Value.list (r.trail.map fun e => .record e.toRecord)).isData = true := by
    refine isData_list.2 fun v hv => ?_
    obtain ⟨e, he, rfl⟩ := List.mem_map.1 hv
    exact Entry.isData_toRecord (h.trail e he)
  obtain ⟨results, hresults, hresultsData⟩ := h.results
  obtain ⟨inputs, hinputs, hinputsData⟩ := h.inputs
  refine isData_record.2 ⟨by simp [toRecord], ?_⟩
  simp [toRecord, Position.isData_saved h.position, Position.isData_saved h.stoppedAt, htrail,
    hresults, hinputs, Store.ofStore_ofFields, hresultsData, hinputsData]

/-- The record of the run is no deeper than the reader allows, and its whole numbers are not too
long for it. -/
structure Legible (r : Run) : Prop where
  shallow : (Value.record r.toRecord).height ≤ maxOpen + 1
  short : (Value.record r.toRecord).isShort = true

theorem height_entry {e : Entry} (he : e ∈ r.trail) :
    (Value.record e.toRecord).height + 2 ≤ (Value.record r.toRecord).height := by
  have htrail : (Value.record e.toRecord).height <
      (Value.list (r.trail.map fun e => .record e.toRecord)).height :=
    height_lt_list (List.mem_map_of_mem he)
  have hfield : (Value.list (r.trail.map fun e => .record e.toRecord)).height <
      (Value.record r.toRecord).height :=
    height_lt_record (k := "execution_path") (by simp [toRecord])
  omega

theorem Legible.height_answer (h : r.Legible) {e : Entry} (he : e ∈ r.trail) :
    e.answer.height + 3 ≤ maxOpen + 1 := by
  have hanswer := Entry.height_answer e
  have hentry := height_entry he
  have hrun := h.shallow
  omega

theorem Legible.short_answer (h : r.Legible) {e : Entry} (he : e ∈ r.trail) :
    e.answer.isShort = true := by
  have htrail : (Value.list (r.trail.map fun e => .record e.toRecord)).isShort = true :=
    isShort_record.1 h.short ("execution_path", _) (by simp [toRecord])
  have hentry : (Value.record e.toRecord).isShort = true :=
    isShort_list.1 htrail _ (List.mem_map_of_mem he)
  exact isShort_record.1 hentry ("answer", _) (by simp [Entry.toRecord])

theorem height_given (h : r.Storable) {v : Value} (hv : v ∈ r.givenValues) :
    v.height < (Value.record r.toRecord).height := by
  have hstore : ∀ (s : Store) (name : String), (name, Json.ofStore s) ∈ r.toRecord →
      ∀ kv ∈ s, kv.2.height < (Value.record r.toRecord).height := fun s name hs kv hkv => by
    have hvalue : kv.2.height < (Json.ofStore s).height :=
      height_lt_record (List.mem_map_of_mem hkv)
    have hfield := height_lt_record hs
    omega
  simp only [givenValues, List.mem_append, List.mem_cons, List.not_mem_nil, or_false,
    List.mem_flatMap, List.mem_map] at hv
  obtain (((rfl | rfl) | ⟨e, he, rfl | rfl⟩) | ⟨kv, hkv, rfl⟩) | ⟨kv, hkv, rfl⟩ := hv
  · rw [← Position.saved_eq h.position]
    exact height_lt_record (k := "current_position") (by simp [toRecord])
  · rw [← Position.saved_eq h.stoppedAt]
    exact height_lt_record (k := "stopped_at") (by simp [toRecord])
  · have hposition : e.position.saved.height < (Value.record e.toRecord).height :=
      height_lt_record (k := "position") (by simp [Entry.toRecord])
    have hentry := height_entry he
    rw [← Position.saved_eq (h.trail e he).position]
    omega
  · have hanswer := Entry.height_answer e
    have hentry := height_entry he
    omega
  · exact hstore r.results "results" (by simp [toRecord]) kv hkv
  · exact hstore r.inputs "inputs" (by simp [toRecord]) kv hkv

theorem toJson_eq (h : r.Storable) (hr : r.Legible) :
    r.toJson = .ok (Json.print (.record r.toRecord)) := by
  have hdepth : r.givenValues.findSome? (·.depthFlaw?) = none := by
    refine List.findSome?_eq_none_iff.2 fun v hv => ?_
    have hheight := height_given h hv
    have hshallow := hr.shallow
    -- the reader allows less depth than the writer does
    have hfit : v.height ≤ Value.maxHeight := by
      simp only [maxOpen] at hshallow
      simp only [Value.maxHeight]
      omega
    simp [depthFlaw?, isWritable, hfit]
  rw [toJson, hdepth]

theorem print_of_toJson {text : String} (h : r.toJson = .ok text) :
    text = Json.print (.record r.toRecord) := by
  unfold toJson at h
  split at h
  · cases h
    rfl
  · cases h

theorem read_saved_iff (h : r.Storable) {x : Value} :
    Json.read (some maxOpen) (Json.print (.record r.toRecord)) = .ok x ↔
      x = .record r.toRecord ∧ r.Legible := by
  rw [Json.read_print_iff (isData_toRecord h)]
  exact and_congr_right fun _ => ⟨fun h => ⟨h.1, h.2⟩, fun h => ⟨h.1, h.2⟩⟩

/-- A run is restored from the text that it is saved as. -/
theorem ofJson_print (h : r.Storable) (hr : r.Legible) (fresh : String) (now : Instant) :
    Run.ofJson fresh now (Json.print (.record r.toRecord)) = .ok r := by
  rw [Run.ofJson, (read_saved_iff h).2 ⟨rfl, hr⟩]
  simp only [read_toRecord h]
  rfl

theorem legible_of_ofJson (h : r.Storable) {s : Run} {fresh : String} {now : Instant}
    (hread : Run.ofJson fresh now (Json.print (.record r.toRecord)) = .ok s) : r.Legible := by
  unfold Run.ofJson at hread
  cases hx : Json.read (some maxOpen) (Json.print (.record r.toRecord)) with
  | ok x => exact ((read_saved_iff h).1 hx).2
  | error mistake =>
    rw [hx] at hread
    cases hread

/-- A run is saved as a text that restores it, whenever that is read, just if its record is legible. -/
theorem restored_iff (h : r.Storable) :
    (∃ text, r.toJson = .ok text ∧ ∀ fresh now, Run.ofJson fresh now text = .ok r) ↔
      r.Legible := by
  constructor
  · rintro ⟨text, htext, hread⟩
    rw [print_of_toJson htext] at hread
    exact legible_of_ofJson h (hread r.id default)
  · intro hr
    exact ⟨_, toJson_eq h hr, ofJson_print h hr⟩

end Run
end Runbook
