import Runbook.Definition.Workflow
import Runbook.Proofs.RecordParts

/-! Reading back a step from its record. Its own fields are found there, a decision is in branch form
already, and what is left over are the extra fields that are not null. -/
namespace Runbook

/-- The levels that a value its author chose may have in a step. A decision goes by two type names,
and is tried as either one level down. -/
def Body.maxHeight : Body → Nat
  | .decision _ => Value.maxHeight - 1
  | _ => Value.maxHeight

/-- Data can hold the step, and says no more of it than the step does: the values that its author
chose are within what data can hold; each branch of a decision has a condition or a target; and no
field that is not set has a value under an older name. -/
structure Step.Restorable (s : Step) : Prop where
  finite : ∀ v ∈ s.givenValues, v.finiteOnly = v
  shallow : ∀ v ∈ s.givenValues, v.height ≤ s.body.maxHeight
  distinct : (s.extras.map (·.1)).Nodup
  branches : ∀ d, s.body = .decision d → ∀ b ∈ d.branches, b.condition.isSome ∨ b.target.isSome
  unshadowed : ∀ n ∈ s.body.openName?, ∀ v, (n, v) ∈ s.extras → v = .null

namespace Step
variable {s : Step}

def withoutNulls (s : Step) : Step := { s with extras := s.extras.compact }

def ownRecord (s : Step) : Fields :=
  [("id", .text s.id), ("title", .text s.title), ("description", .ofText? s.description),
    ("jumps", .ofRecords Fields.compact (s.jumps.map (·.toRecord))),
    ("transitions", .ofRecords Fields.compact (s.transitions.map (·.toRecord))),
    ("type", .text s.kind)] ++ s.body.toRecord Fields.compact

def written (s : Step) : Fields := (s.toRecord Fields.compact).compact

theorem written_eq (s : Step) : s.written = s.ownRecord.compact ++ s.extras.compact :=
  Fields.compact_append s.ownRecord s.extras

theorem keys_ownRecord (s : Step) :
    s.ownRecord.map (·.1) = Definition.writtenNames (Definition.typeOfBody s.body) := by
  obtain ⟨id, title, description, jumps, transitions, body, extras⟩ := s
  cases body <;> rfl

theorem nodup_ownRecord (s : Step) : (s.ownRecord.map (·.1)).Nodup := by
  rw [keys_ownRecord]
  exact Definition.nodup_writtenNames _

theorem mem_written {kv : String × Value} (h : kv ∈ s.written) :
    kv.1 ∈ Definition.writtenNames (Definition.typeOfBody s.body) ∨ kv ∈ s.extras.compact := by
  rw [written_eq] at h
  obtain h | h := List.mem_append.1 h
  · rw [← keys_ownRecord]
    exact .inl (List.mem_map_of_mem (Fields.mem_compact.1 h).1)
  · exact .inr h

theorem get?_written (hs : s.Tidy) {n : String} {v : Value} (h : s.ownRecord.get? n = some v) :
    s.written.get? n = v.set? := by
  have hown : n ∈ Definition.writtenNames (Definition.typeOfBody s.body) := by
    rw [← keys_ownRecord]
    exact List.mem_map_of_mem (f := (·.1)) (Fields.exists_of_get? h)
  have hextra : s.extras.compact.get? n = none := by
    refine Fields.get?_eq_none fun kv hkv heq => hs.extras kv (Fields.mem_compact.1 hkv).1 ?_
    exact heq ▸ Definition.mem_ownNames hown
  rw [written_eq, Fields.get?_append, hextra, Option.or_none,
    Fields.get?_compact_some (nodup_ownRecord s) h]

theorem get?_body (hs : s.Tidy) {n : String} {v : Value}
    (h : (s.body.toRecord Fields.compact).get? n = some v) : s.written.get? n = v.set? := by
  refine get?_written hs ?_
  have hnodup := nodup_ownRecord s
  rw [ownRecord, List.map_append] at hnodup
  rw [ownRecord, Fields.get?_append, Fields.get?_eq_none, Option.none_or, h]
  intro kv hkv heq
  exact (List.nodup_append.1 hnodup).2.2 _ (List.mem_map_of_mem hkv) n
    (List.mem_map_of_mem (f := (·.1)) (Fields.exists_of_get? h)) heq

theorem legacy_written (hs : s.Tidy) {d : Decision} (hd : s.body = .decision d) :
    ∀ kv ∈ s.written, kv.1 ∉ Definition.legacyNames := by
  intro kv hkv hlegacy
  have hwritten : ∀ simple, ∀ n ∈ Definition.legacyNames,
      n ∉ Definition.writtenNames (.decision simple) := by decide
  obtain hown | hextra := mem_written hkv
  · rw [hd] at hown
    exact hwritten _ _ hlegacy hown
  · have hnot := hs.extras kv (Fields.mem_compact.1 hextra).1
    rw [hd] at hnot
    exact hnot (List.mem_append_right _ hlegacy)

theorem isKept_toRecord {b : Branch} (hb : b.Tidy) (h : b.condition.isSome ∨ b.target.isSome) :
    Definition.Decision.isKept (.record b.toRecord.compact) = true := by
  obtain ⟨condition, target⟩ := b
  cases condition with
  | some c =>
    have hc : (Fields.get (Branch.toRecord ⟨some c, target⟩).compact "condition") = .text c := rfl
    simp [Definition.Decision.isKept, hc, Value.present, (hb.1 c rfl).allBlank_eq]
  | none =>
    cases target with
    | none => simp at h
    | some t =>
      have ht : (Fields.get (Branch.toRecord ⟨none, some t⟩).compact "target") = .text t := rfl
      simp [Definition.Decision.isKept, ht, Value.present, Value.truthy, (hb.2 t rfl).allBlank_eq,
        (hb.2 t rfl).ne_empty]

theorem get?_branches (hs : s.Tidy) {d : Decision} (hd : s.body = .decision d) :
    s.written.get? "branches" =
      some (.ofRecords Fields.compact (d.branches.map (·.toRecord))) :=
  get?_body hs (v := .ofRecords Fields.compact (d.branches.map (·.toRecord))) (by rw [hd]; rfl)

theorem keptBranches_written (hs : s.Tidy) (hr : s.Restorable) {d : Decision}
    (hd : s.body = .decision d) : Definition.Decision.keptBranches s.written =
      (d.branches.map (·.toRecord)).map fun r => .record (Fields.compact r) := by
  have htidy : (Body.decision d).Tidy := hd ▸ hs.body
  rw [Definition.Decision.keptBranches, Fields.get, get?_branches hs hd]
  refine List.filter_eq_self.2 fun v hv => ?_
  obtain ⟨f, hf, rfl⟩ := List.mem_map.1 hv
  obtain ⟨b, hb, rfl⟩ := List.mem_map.1 hf
  exact isKept_toRecord (htidy.1 b hb) (hr.branches d hd b hb)

theorem firstPresent_written (hs : s.Tidy) {d : Decision} (hd : s.body = .decision d)
    (names : List String) (hnames : ∀ n ∈ names, n ∈ Definition.legacyNames) :
    (Definition.Decision.firstPresent s.written names).present = false := by
  have hfind : (names.map s.written.get).find? (·.present) = none := by
    refine List.find?_eq_none.2 fun v hv => ?_
    obtain ⟨n, hn, rfl⟩ := List.mem_map.1 hv
    have habsent : s.written.get? n = none := Fields.get?_eq_none fun kv hkv heq =>
      legacy_written hs hd kv hkv (heq ▸ hnames n hn)
    simp [Fields.get, habsent, Value.present]
  rw [Definition.Decision.firstPresent, hfind]
  rfl

theorem canonical_written (hs : s.Tidy) (hr : s.Restorable) {d : Decision}
    (hd : s.body = .decision d) : Definition.Decision.canonical s.written = s.written := by
  have hkept := keptBranches_written hs hr hd
  have htrue := firstPresent_written hs hd Definition.Decision.trueNames (by decide)
  have hfalse := firstPresent_written hs hd Definition.Decision.falseNames (by decide)
  have hwithout : s.written.without
      ("condition" :: Definition.Decision.trueNames ++ Definition.Decision.falseNames) =
      s.written := Fields.without_eq_self (legacy_written hs hd)
  simp only [Definition.Decision.canonical, hkept, htrue, hfalse, hwithout, Bool.or_self,
    Bool.not_false, Bool.or_true, if_true]
  exact Fields.put_eq_self (get?_branches hs hd)

theorem openName_not_written {n : String} (hn : n ∈ s.body.openName?) :
    n ∉ Definition.writtenNames (Definition.typeOfBody s.body) := by
  have helse : ∀ simple, "else_path" ∉ Definition.writtenNames (.decision simple) := by decide
  have hmessage : "checkpoint_message" ∉ Definition.writtenNames .checkpoint := by decide
  unfold Body.openName? at hn
  split at hn
  · next hb =>
    obtain rfl := Option.some.inj hn
    rw [hb]
    exact helse _
  · next hb =>
    obtain rfl := Option.some.inj hn
    rw [hb]
    exact hmessage
  · cases hn

theorem get?_openName (hr : s.Restorable) : ∀ n ∈ s.body.openName?, s.written.get? n = none := by
  intro n hn
  refine Fields.get?_eq_none fun kv hkv heq => ?_
  obtain hown | hextra := mem_written hkv
  · exact openName_not_written hn (heq ▸ hown)
  · obtain ⟨hmem, hset⟩ := Fields.mem_compact.1 hextra
    have hnull : kv.2 = .null := hr.unshadowed n hn kv.2 (heq ▸ hmem)
    simp [hnull, Value.isNull] at hset

theorem mem_openName (hs : s.Tidy) {first n : String} {rest : List String}
    (hnames : first :: rest ∈
      Definition.baseNames ++ Definition.bodyNames (Definition.typeOfBody s.body))
    (hfirst : s.written.get? first = none) (hn : n ∈ rest) : n ∈ s.body.openName? := by
  obtain hnil | ⟨heq, simple, htype⟩ | ⟨heq, htype⟩ := Definition.names_cases _ _ hnames
  · obtain rfl : rest = [] := hnil
    cases hn
  · obtain ⟨rfl, rfl⟩ := List.cons.inj heq
    obtain rfl := List.mem_singleton.1 hn
    obtain ⟨⟨_, _, elseTarget⟩, hd⟩ := Definition.decision_of_typeOfBody htype
    have helse := get?_body hs (n := "else_target") (v := .ofText? elseTarget) (by rw [hd]; rfl)
    obtain rfl := Value.eq_none_of_set? (helse.symm.trans hfirst)
    rw [hd]
    rfl
  · obtain ⟨rfl, rfl⟩ := List.cons.inj heq
    obtain rfl := List.mem_singleton.1 hn
    obtain ⟨m, hm⟩ := Definition.checkpoint_of_typeOfBody htype
    have hmessage := get?_body hs (n := "message") (v := .ofText? m) (by rw [hm]; rfl)
    obtain rfl := Value.eq_none_of_set? (hmessage.symm.trans hfirst)
    rw [hm]
    rfl

theorem used_written (hs : s.Tidy) (hr : s.Restorable) {names : List String} {n : String}
    (hnames : names ∈ Definition.baseNames ++ Definition.bodyNames (Definition.typeOfBody s.body))
    (hn : Reading.used? s.written names = some n) :
    n ∈ Definition.writtenNames (Definition.typeOfBody s.body) := by
  have hset : (s.written.get? n).isSome = true :=
    List.find?_some (p := fun n => (s.written.get? n).isSome) hn
  cases names with
  | nil => cases hn
  | cons first rest =>
    obtain ⟨rfl, -⟩ | ⟨hfirst, hn⟩ := Reading.used?_cons hn
    · exact List.mem_filterMap.2 ⟨_, hnames, rfl⟩
    · have hopen := mem_openName hs hnames hfirst (List.mem_of_find?_eq_some hn)
      simp [get?_openName hr n hopen] at hset

theorem extraFields_written (hs : s.Tidy) (hr : s.Restorable) :
    Definition.extraFields s.written (Definition.typeOfBody s.body) = s.extras.compact := by
  have hown : ∀ kv ∈ s.ownRecord.compact, kv.1 ∈
      (Definition.baseNames ++ Definition.bodyNames (Definition.typeOfBody s.body)).filterMap
        (Reading.used? s.written) := by
    intro kv hkv
    have hmem : kv ∈ s.written := by
      rw [written_eq]
      exact List.mem_append_left _ hkv
    refine Definition.mem_used hmem ?_
    rw [← keys_ownRecord]
    exact List.mem_map_of_mem (Fields.mem_compact.1 hkv).1
  have hextra : ∀ kv ∈ s.extras.compact, kv.1 ∉
      (Definition.baseNames ++ Definition.bodyNames (Definition.typeOfBody s.body)).filterMap
        (Reading.used? s.written) := by
    intro kv hkv hused
    obtain ⟨names, hnames, hn⟩ := List.mem_filterMap.1 hused
    exact hs.extras kv (Fields.mem_compact.1 hkv).1
      (Definition.mem_ownNames (used_written hs hr hnames hn))
  exact (congrArg (Fields.without _) s.written_eq).trans (Fields.without_append hown hextra)

theorem typeOf_written (hs : s.Tidy) :
    Definition.typeOf s.written = .ok (Definition.typeOfBody s.body) := by
  have htype : s.written.get? "type" = some (.text s.kind) :=
    get?_written hs (v := .text s.kind) rfl
  have hkind : Definition.StepType.ofText? s.kind = some (Definition.typeOfBody s.body) := by
    rw [Step.kind]
    cases s.body with
    | decision d =>
      obtain ⟨simple, branches, elseTarget⟩ := d
      cases simple <;> rfl
    | _ => rfl
  simp only [Definition.typeOf, htype, hkind]

open Reading in
/-- What is read from the record of a step is that step, whatever id is at hand for it. -/
theorem readTyped_written (hs : s.Tidy) (hr : s.Restorable) (fresh : String) :
    Definition.readTyped fresh (Definition.typeOfBody s.body) s.written = pure s.withoutNulls := by
  have hid : Definition.statedId? s.written = some s.id := by
    have hget := get?_written hs (n := "id") (v := .text s.id) rfl
    rw [Definition.statedId?, hget]
    have hread := reference_ofText? (o := some s.id) (by simpa using hs.id)
    exact congrArg Reading.value hread
  have htitle : field s.written ["title"] (pure "") Definition.textOrEmpty = pure s.title :=
    field_some (get?_written hs (v := .text s.title) rfl) rfl
  have hdescription : field s.written ["description"] (pure none) optionalText =
      pure s.description :=
    field_singleton (get?_written hs rfl) (optionalText_ofText? _)
  have hjumps : field s.written ["jumps"] (pure []) (list .data Definition.readJump) =
      pure s.jumps :=
    field_some (get?_written hs (v := .ofRecords Fields.compact (s.jumps.map (·.toRecord))) rfl)
      (list_ofRecords fun j hj => Definition.readJump_toRecord (hs.jumps j hj))
  have htransitions : field s.written ["transitions"] (pure [])
      (list .data Definition.readTransition) = pure s.transitions :=
    field_some
      (get?_written hs (v := .ofRecords Fields.compact (s.transitions.map (·.toRecord))) rfl)
      (list_ofRecords fun t ht => Definition.readTransition_toRecord (hs.transitions t ht))
  have hbody : Definition.readBody s.written (Definition.typeOfBody s.body) = pure s.body :=
    Definition.readBody_toRecord hs.body (fun _ _ => get?_body hs) (get?_openName hr)
  unfold Definition.readTyped
  extract_lets f
  have hform : f = s.written := by
    simp only [f]
    split
    · next simple htype =>
      obtain ⟨d, hd⟩ := Definition.decision_of_typeOfBody htype
      exact canonical_written hs hr hd
    · rfl
  simp only [hform, hid, htitle, hdescription, hjumps, htransitions, hbody,
    extraFields_written hs hr, Reading.pure_bind, Option.getD_some]
  rfl

end Step
end Runbook
