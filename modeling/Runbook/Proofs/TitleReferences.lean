import Runbook.Proofs.DecisionExchange

/-! What a reference that is written out refers to. A reference is read without the blanks around it
and a title with them, so that a title that is spelled out as it stands is found only where it has
none, or where something else goes by the text that is left. -/
namespace Runbook

/-- A place where a step can refer to another. -/
inductive Slot where
  | jump (i : Nat)
  | transition (i : Nat)
  | branch (i : Nat)
  | otherwise

/-- The target that a step has in a place. -/
def Step.targetAt? (s : Step) : Slot → Option String
  | .jump i => s.jumps[i]?.bind (·.target)
  | .transition i => s.transitions[i]?.bind (·.target)
  | .branch i =>
    match s.body with
    | .decision d => d.branches[i]?.bind (·.target)
    | _ => none
  | .otherwise =>
    match s.body with
    | .decision d => d.elseTarget
    | _ => none

/-- A step with the same title and the same targets. -/
structure Step.Refers (s t : Step) : Prop where
  title : s.title = t.title
  targets : ∀ slot, s.targetAt? slot = t.targetAt? slot

namespace Definition
open Reading

/-- The record gives a text under the first of the names that it has. -/
def Gives (f : Fields) (names : List String) (t : String) : Prop :=
  ∃ n, used? f names = some n ∧ f.get? n = some (.text t)

/-- The record of a step has the text as the target in a place, in either form of a decision. -/
inductive Writes (f : Fields) (t : String) : Slot → Prop where
  | jump {js : List Value} {j : Fields} {i : Nat} : f.get? "jumps" = some (.list js) →
      js[i]? = some (.record j) → Gives j ["target", "next_step_id"] t → Writes f t (.jump i)
  | transition {es : List Value} {e : Fields} {i : Nat} :
      f.get? "transitions" = some (.list es) → es[i]? = some (.record e) →
      Gives e ["target_id", "target_uuid", "target"] t → Writes f t (.transition i)
  | branch {simple : Bool} {b : Fields} {i : Nat} : typeOf f = .ok (.decision simple) →
      (Decision.keptBranches f)[i]? = some (.record b) → Gives b ["target", "path"] t →
      Writes f t (.branch i)
  | whenTrue {simple : Bool} : typeOf f = .ok (.decision simple) →
      Decision.keptBranches f = [] → (Decision.firstPresent f ["condition"]).present = true →
      Decision.firstPresent f Decision.trueNames = .text t → Writes f t (.branch 0)
  | otherwise {simple : Bool} : typeOf f = .ok (.decision simple) → Gives f elseNames t →
      Writes f t .otherwise
  | whenFalse {simple : Bool} : typeOf f = .ok (.decision simple) →
      Decision.keptBranches f = [] → Decision.firstPresent f Decision.falseNames = .text t →
      (Decision.firstPresent f elseNames).present = false → Writes f t .otherwise

variable {f g : Fields} {names : List String} {t : String} {slot : Slot}

theorem field_gives {α : Type} {absent : Reading α} {read : Value → Reading α}
    (h : Gives f names t) : (field f names absent read).value = (read (.text t)).value := by
  obtain ⟨n, hn, hget⟩ := h
  simp [field, hn, Fields.get, hget, under]

theorem getElem?_items {α : Type} (read : Value → Reading α) (start : Nat) (vs : List Value)
    (i : Nat) : (items read start vs).value[i]? = vs[i]?.map fun v => (read v).value := by
  induction vs generalizing start i with
  | nil => rfl
  | cons v vs ih =>
    cases i with
    | zero => rfl
    | succ i => simpa [items] using ih (start + 1) i

theorem getElem?_list {α : Type} {carrier : Carrier} {read : Value → Reading α} {n : String}
    {absent : Reading (List α)} {vs : List Value} (h : f.get? n = some (.list vs)) (i : Nat) :
    (field f [n] absent (list carrier read)).value[i]? = vs[i]?.map fun v => (read v).value := by
  rw [field_first h]
  exact getElem?_items read 0 vs i

namespace Decision

theorem firstPresent_congr (h : ∀ n ∈ names, f.get? n = g.get? n) :
    firstPresent f names = firstPresent g names := by
  have hmap : names.map f.get = names.map g.get :=
    List.map_congr_left fun n hn => by rw [Fields.get, Fields.get, h n hn]
  rw [firstPresent, firstPresent, hmap]

theorem present_firstPresent (h : Gives f names t) (ht : Text.allBlank t = false) :
    (firstPresent f names).present = true := by
  obtain ⟨n, hn, hget⟩ := h
  have hmem : Value.text t ∈ names.map f.get :=
    List.mem_map.2 ⟨n, List.mem_of_find?_eq_some hn, by rw [Fields.get, hget]; rfl⟩
  have hpresent : (Value.text t).present = true := by simp [Value.present, ht]
  unfold firstPresent
  cases hfind : (names.map f.get).find? (·.present) with
  | none => simp [List.find?_eq_none.1 hfind _ hmem] at hpresent
  | some v => exact List.find?_some hfind

def rest (f : Fields) : Fields := (f.without legacyNames).put "branches" (.list (keptBranches f))

theorem rest_else : ∀ n ∈ elseNames, (rest f).get? n = f.get? n := by
  intro n hn
  obtain ⟨hbranches, hlegacy⟩ := elseNames_apart n hn
  exact get?_rest f _ hbranches hlegacy

def olderBranch (f : Fields) : Fields :=
  [("condition", firstPresent f ["condition"]), ("target", firstPresent f trueNames)]

def branched (f : Fields) : Fields :=
  if (firstPresent f ["condition"]).present then
    (rest f).put "branches" (.list [.record (olderBranch f)])
  else rest f

theorem branched_else : ∀ n ∈ elseNames, (branched f).get? n = f.get? n := by
  intro n hn
  unfold branched
  split
  · rw [Fields.get?_put_ne _ _ (elseNames_apart n hn).1, rest_else n hn]
  · exact rest_else n hn

theorem canonical_eq (f : Fields) : canonical f =
    if !(keptBranches f).isEmpty ||
        !((firstPresent f trueNames).present || (firstPresent f falseNames).present) then rest f
    else if (firstPresent f falseNames).present && !(firstPresent f elseNames).present then
      (branched f).put "else_target" (firstPresent f falseNames)
    else branched f := by
  have helse : firstPresent (branched f) elseNames = firstPresent f elseNames :=
    firstPresent_congr branched_else
  rw [← helse]
  rfl

theorem canonical_kept (h : keptBranches f ≠ []) : canonical f = rest f := by
  rw [canonical_eq, if_pos]
  simp [h]

theorem canonical_else (h : (firstPresent f elseNames).present = true) :
    ∀ n ∈ elseNames, (canonical f).get? n = f.get? n := by
  intro n hn
  rw [canonical_eq]
  simp only [h, Bool.not_true, Bool.and_false, Bool.false_eq_true, if_false]
  split
  · exact rest_else n hn
  · exact branched_else n hn

theorem canonical_whenTrue (hkept : keptBranches f = [])
    (hcondition : (firstPresent f ["condition"]).present = true)
    (htrue : (firstPresent f trueNames).present = true) :
    (canonical f).get? "branches" = some (.list [.record (olderBranch f)]) := by
  have hbranches : (branched f).get? "branches" = some (.list [.record (olderBranch f)]) := by
    rw [branched, if_pos hcondition, Fields.get?_put_self]
  rw [canonical_eq, hkept, htrue]
  simp only [List.isEmpty_nil, Bool.not_true, Bool.true_or, Bool.or_self, Bool.false_eq_true,
    if_false]
  split
  · rw [Fields.get?_put_ne _ _ (by decide), hbranches]
  · exact hbranches

theorem canonical_whenFalse (hkept : keptBranches f = [])
    (hfalse : (firstPresent f falseNames).present = true)
    (helse : (firstPresent f elseNames).present = false) :
    (canonical f).get? "else_target" = some (firstPresent f falseNames) := by
  rw [canonical_eq, hkept, hfalse, helse]
  simp only [List.isEmpty_nil, Bool.not_true, Bool.or_true, Bool.or_self, Bool.false_eq_true,
    if_false, Bool.not_false, Bool.and_self, if_true]
  rw [Fields.get?_put_self]

end Decision

variable {id : String} {type : StepType}

def plainFields (f : Fields) : StepType → Fields
  | .decision _ => Decision.canonical f
  | _ => f

theorem get?_plainFields (f : Fields) (type : StepType) {n : String} (h : n ∉ decisionNames) :
    (plainFields f type).get? n = f.get? n := by
  cases type with
  | decision simple => exact Decision.get?_canonical f h
  | _ => rfl

theorem readTyped_value (id : String) (type : StepType) (f : Fields) :
    (readTyped id type f).value.title = (field f ["title"] (pure "") textOrEmpty).value ∧
    (readTyped id type f).value.jumps = (field f ["jumps"] (pure []) (list .data readJump)).value ∧
    (readTyped id type f).value.transitions =
      (field f ["transitions"] (pure []) (list .data readTransition)).value ∧
    (readTyped id type f).value.body = (readBody (plainFields f type) type).value := by
  have hfield : ∀ {α : Type} (n : String) (absent : Reading α) (read : Value → Reading α),
      n ∉ decisionNames → field f [n] absent read = field (plainFields f type) [n] absent read :=
    fun n _ _ hn => field_congr fun m hm => by
      rw [List.mem_singleton.1 hm, get?_plainFields f type hn]
  rw [hfield "title" _ _ (by decide), hfield "jumps" _ _ (by decide),
    hfield "transitions" _ _ (by decide)]
  exact ⟨rfl, rfl, rfl, rfl⟩

theorem readJump_target {j : Fields} (h : Gives j ["target", "next_step_id"] t) :
    (readJump (.record j)).value.target = reference? (.text t) := by
  simp only [readJump, model, value_bind, value_pure]
  exact field_gives h

theorem readTransition_target {e : Fields} (h : Gives e ["target_id", "target_uuid", "target"] t) :
    (readTransition (.record e)).value.target = reference? (.text t) := by
  simp only [readTransition, model, value_bind, value_pure]
  exact field_gives h

theorem readBranch_target {b : Fields} (h : Gives b ["target", "path"] t) :
    (readBranch (.record b)).value.target = reference? (.text t) := by
  simp only [readBranch, model, value_bind, value_pure]
  exact field_gives h

theorem targetAt?_readTyped (htype : typeOf f = .ok type) (h : Writes f t slot)
    (ht : Text.allBlank t = false) :
    (readTyped id type f).value.targetAt? slot = some (Text.trim t) := by
  have hreference : reference? (.text t) = some (Text.trim t) := by simp [reference?, ht]
  have hpresent : (Value.text t).present = true := by simp [Value.present, ht]
  obtain ⟨-, hjumps, htransitions, hbody⟩ := readTyped_value id type f
  rw [← hreference]
  cases h with
  | jump hjs hj hgives =>
    simp only [Step.targetAt?, hjumps, getElem?_list hjs, hj, Option.map_some, Option.bind_some]
    exact readJump_target hgives
  | transition hes he hgives =>
    simp only [Step.targetAt?, htransitions, getElem?_list hes, he, Option.map_some,
      Option.bind_some]
    exact readTransition_target hgives
  | @branch simple b i hsimple hb hgives =>
    obtain rfl : type = .decision simple := Except.ok.inj (htype.symm.trans hsimple)
    have hkept : Decision.keptBranches f ≠ [] := by
      rintro hnil
      simp [hnil] at hb
    have hbranches : (Decision.canonical f).get? "branches" =
        some (.list (Decision.keptBranches f)) := by
      rw [Decision.canonical_kept hkept, Decision.rest, Fields.get?_put_self]
    simp only [Step.targetAt?, hbody, plainFields, readBody, value_bind, value_pure,
      getElem?_list hbranches, hb, Option.map_some, Option.bind_some]
    exact readBranch_target hgives
  | @whenTrue simple hsimple hkept hcondition htrue =>
    obtain rfl : type = .decision simple := Except.ok.inj (htype.symm.trans hsimple)
    have hbranches := Decision.canonical_whenTrue hkept hcondition (by rw [htrue, hpresent])
    simp only [Step.targetAt?, hbody, plainFields, readBody, value_bind, value_pure,
      getElem?_list hbranches, List.getElem?_cons_zero, Option.map_some, Option.bind_some]
    exact readBranch_target ⟨"target", rfl, by rw [Decision.olderBranch, htrue]; rfl⟩
  | @otherwise simple hsimple hgives =>
    obtain rfl : type = .decision simple := Except.ok.inj (htype.symm.trans hsimple)
    have hsame := Decision.canonical_else (Decision.present_firstPresent hgives ht)
    simp only [Step.targetAt?, hbody, plainFields, readBody, value_bind, value_pure]
    rw [field_congr hsame]
    exact field_gives hgives
  | @whenFalse simple hsimple hkept hfalse helse =>
    obtain rfl : type = .decision simple := Except.ok.inj (htype.symm.trans hsimple)
    have hgiven := Decision.canonical_whenFalse hkept (by rw [hfalse, hpresent]) helse
    simp only [Step.targetAt?, hbody, plainFields, readBody, value_bind, value_pure]
    rw [elseNames, field_first hgiven, hfalse]
    rfl

/-- The step has the title and the targets that its record is read with. -/
def ReadAs (v : Value) (s : Step) : Prop :=
  ∃ id f type, v = .record f ∧ typeOf f = .ok type ∧ s.Refers (readTyped id type f).value

theorem readAs_readStep {fresh : String} {v : Value} (h : (readStep fresh v).faults = []) :
    ReadAs v (readStep fresh v).value := by
  cases v with
  | record f =>
    cases htype : typeOf f with
    | error cause => simp [readStep, htype, fault] at h
    | ok type =>
      refine ⟨fresh, f, type, rfl, htype, ?_⟩
      simp only [readStep, htype]
      exact ⟨rfl, fun _ => rfl⟩
  | _ => simp [readStep, fault] at h

theorem readAs_readSteps {fresh index : Nat} {vs : List Value}
    (h : (readSteps fresh index vs).faults = []) :
    List.Forall₂ ReadAs vs (readSteps fresh index vs).value := by
  induction vs generalizing fresh index with
  | nil => exact .nil
  | cons v vs ih =>
    simp only [readSteps, faults_bind, faults_pure, List.append_nil, List.append_eq_nil_iff,
      faults_under] at h
    exact .cons (readAs_readStep h.1) (ih h.2)

theorem readAs_readFields {fresh : Nat} {fields : Fields}
    (h : (readFields fresh fields).faults = []) :
    List.Forall₂ ReadAs (keptSteps (fields.get "steps")) (readFields fresh fields).value.steps := by
  simp only [readFields, faults_bind, faults_pure, List.append_nil, List.append_eq_nil_iff] at h
  obtain ⟨-, -, -, h⟩ := h
  simp only [readFields, value_bind, value_pure]
  cases hsteps : fields.get? "steps" with
  | none =>
    rw [field_none (by simpa using hsteps), Fields.get, hsteps]
    exact .nil
  | some v =>
    rw [field_first hsteps] at h ⊢
    rw [faults_under] at h
    rw [Fields.get, hsteps, Option.getD_some]
    cases v with
    | list items => exact readAs_readSteps h
    | _ => simp [fault] at h

theorem readAs_setName {v : Value} {s : Step} (h : ReadAs v s) (name : String) :
    ReadAs v (Naming.setName s name) := by
  obtain ⟨id, f, type, hv, htype, htitle, htargets⟩ := h
  refine ⟨id, f, type, hv, htype, ?_, fun slot => (htargets slot).symm ▸ ?_⟩
  · rw [← htitle]
    unfold Naming.setName
    split <;> rfl
  · unfold Naming.setName
    split
    · next q hq => cases slot <;> simp [Step.targetAt?, hq]
    · rfl

theorem readAs_assign {vs : List Value} {ss : List Step} (h : List.Forall₂ ReadAs vs ss)
    (taken : List String) : List.Forall₂ ReadAs vs (Naming.assign taken ss) := by
  induction h generalizing taken with
  | nil => exact .nil
  | cons hs _ ih =>
    unfold Naming.assign
    split
    · exact .cons (readAs_setName hs _) (ih _)
    · exact .cons hs (ih _)

end Definition

namespace Workflow
open Definition
variable {w : Workflow} {s u : Step} {reference t : String} {fresh : Nat} {fields : Fields}

theorem readAs_of_read (h : Workflow.read fresh (.record fields) = .ok w) :
    List.Forall₂ ReadAs (keptSteps (fields.get "steps")) w.steps := by
  simp only [Workflow.read] at h
  split at h
  · cases h
  · obtain ⟨v, hv, h⟩ := bind_eq_ok.1 h
    obtain ⟨steps, hsteps, h⟩ := bind_eq_ok.1 h
    obtain ⟨hfaults, rfl⟩ := Reading.toExcept_eq_ok.1 hv
    cases h
    unfold Naming.assignNames at hsteps
    split at hsteps
    · cases hsteps
    · cases hsteps
      exact readAs_assign (readAs_readFields hfaults) _

theorem exists_readAs (h : Workflow.read fresh (.record fields) = .ok w) {k : Nat} {f : Fields}
    (hk : (keptSteps (fields.get "steps"))[k]? = some (.record f)) :
    ∃ s id type, w.steps[k]? = some s ∧ typeOf f = .ok type ∧
      s.Refers (readTyped id type f).value := by
  have hread := readAs_of_read h
  obtain ⟨hlt, hf⟩ := List.getElem?_eq_some_iff.1 hk
  have hlt' : k < w.steps.length := hread.length_eq ▸ hlt
  have hone : ReadAs (keptSteps (fields.get "steps"))[k] w.steps[k] := hread.get hlt hlt'
  rw [hf] at hone
  obtain ⟨id, f', type, hv, htype, hrefers⟩ := hone
  cases hv
  exact ⟨_, id, type, List.getElem?_eq_getElem hlt', htype, hrefers⟩

/-- The step goes by the reference, in the order in which steps are searched: by its id, or by its
title where no step has that id, or by its title in another case where no step has that title. -/
def GoesBy (w : Workflow) (reference : String) (u : Step) : Prop :=
  u.id = reference ∨ (∀ v ∈ w.steps, v.id ≠ reference) ∧
    (u.title = reference ∨ (∀ v ∈ w.steps, v.title ≠ reference) ∧
      Text.lower u.title = Text.lower reference)

theorem goesBy_of_resolve? (h : w.resolve? reference = some u) :
    u ∈ w.steps ∧ w.GoesBy reference u := by
  refine ⟨mem_of_resolve? h, ?_⟩
  have hne : reference.isEmpty = false := by
    cases hempty : reference.isEmpty with
    | false => rfl
    | true => simp [resolve?, stepById?, stepByTitle?, hempty] at h
  rw [resolve?_eq_or, stepByTitle?_eq_or, stepById?, hne] at h
  simp only [Bool.false_eq_true, if_false, Option.or_eq_some_iff] at h
  obtain hid | ⟨hnoId, htitle | ⟨hnoTitle, hcase⟩⟩ := h
  · exact .inl (by simpa using List.find?_some hid)
  · refine .inr ⟨by simpa using List.find?_eq_none.1 hnoId, .inl ?_⟩
    simpa using List.find?_some htitle
  · refine .inr ⟨by simpa using List.find?_eq_none.1 hnoId,
      .inr ⟨by simpa using List.find?_eq_none.1 hnoTitle, ?_⟩⟩
    simpa using List.find?_some hcase

theorem resolve?_eq_none_iff (hne : reference ≠ "") : w.resolve? reference = none ↔
    ∀ v ∈ w.steps, v.id ≠ reference ∧ Text.lower v.title ≠ Text.lower reference := by
  have hempty : reference.isEmpty = false := by simpa using hne
  rw [resolve?_eq_or, stepByTitle?_eq_or, stepById?, hempty]
  simp only [Bool.false_eq_true, if_false, Option.or_eq_none_iff, List.find?_eq_none, beq_iff_eq]
  constructor
  · rintro ⟨hid, -, hcase⟩ v hv
    exact ⟨hid v hv, hcase v hv⟩
  · intro h
    refine ⟨fun v hv => (h v hv).1, fun v hv htitle => (h v hv).2 (by rw [htitle]), fun v hv =>
      (h v hv).2⟩

theorem exists_title (h : Workflow.read fresh (.record fields) = .ok w) {g : Fields}
    {items : List Value} (hitems : fields.get "steps" = .list items) (hg : .record g ∈ items)
    (htitle : g.get? "title" = some (.text t)) (ht : Text.allBlank t = false) :
    ∃ u ∈ w.steps, u.title = t := by
  have hcontent : hasContent (.record g) = true :=
    List.any_eq_true.2 ⟨"title", by decide, by simp [Fields.get, htitle, Value.present, ht]⟩
  have hmem : .record g ∈ keptSteps (fields.get "steps") := by
    rw [hitems]
    exact List.mem_filter.2 ⟨hg, hcontent⟩
  obtain ⟨k, hk⟩ := List.getElem?_of_mem hmem
  obtain ⟨u, id, type, hu, -, hrefers⟩ := exists_readAs h hk
  refine ⟨u, List.mem_of_getElem? hu, ?_⟩
  rw [hrefers.title, (readTyped_value id type g).1, Reading.field_first htitle]
  rfl

/-- A title that is spelled out as a target, in any place of a step that is kept, is looked for
without the blanks around it. What is found goes by the text that is left, and nothing is found
exactly if no step does. So a title that has no blanks around it is always found. -/
theorem resolve?_title {items : List Value} {k : Nat} {f g : Fields} {slot : Slot}
    (h : Workflow.read fresh (.record fields) = .ok w) (hitems : fields.get "steps" = .list items)
    (hk : (keptSteps (.list items))[k]? = some (.record f)) (hwrites : Writes f t slot)
    (hg : .record g ∈ items) (htitle : g.get? "title" = some (.text t))
    (ht : Text.allBlank t = false) :
    ∃ s, w.steps[k]? = some s ∧ s.targetAt? slot = some (Text.trim t) ∧
      (∃ u ∈ w.steps, u.title = t) ∧
      (∀ u, w.resolve? (Text.trim t) = some u → u ∈ w.steps ∧ w.GoesBy (Text.trim t) u) ∧
      (w.resolve? (Text.trim t) = none ↔
        ∀ v ∈ w.steps, v.id ≠ Text.trim t ∧ Text.lower v.title ≠ Text.lower (Text.trim t)) ∧
      (Text.trim t = t → ∃ u ∈ w.steps, w.resolve? t = some u ∧ w.GoesBy t u) := by
  have hstated := exists_title h hitems hg htitle ht
  rw [← hitems] at hk
  obtain ⟨s, id, type, hs, htype, hrefers⟩ := exists_readAs h hk
  refine ⟨s, hs, ?_, hstated, fun u => goesBy_of_resolve?,
    resolve?_eq_none_iff (Text.trim_ne_empty ht), fun hplain => ?_⟩
  · rw [hrefers.targets, targetAt?_readTyped htype hwrites ht]
  · obtain ⟨u, hu, htitle⟩ := hstated
    cases hfound : w.resolve? t with
    | none =>
      have hne : t ≠ "" := hplain ▸ Text.trim_ne_empty ht
      exact absurd (by rw [htitle]) ((resolve?_eq_none_iff hne).1 hfound u hu).2
    | some v =>
      obtain ⟨hv, hgoes⟩ := goesBy_of_resolve? hfound
      exact ⟨v, hv, rfl, hgoes⟩

def pickTitled (title : String) : Fields :=
  [("id", .text "pick"), ("type", .text "decision"), ("branches", .list
    [.record [("condition", .text "level == 'high'"), ("target", .text title)]])]

def doneTitled (title : String) : Fields :=
  [("id", .text "done"), ("type", .text "action"), ("title", .text title)]

def titledRaw (title : String) : Fields :=
  [("id", .text "titled"),
    ("steps", .list [.record (pickTitled title), .record (doneTitled title)])]

def titled (title : String) : Workflow :=
  ⟨"titled", "", false, none,
    [⟨"pick", "", none, [], [],
        .decision ⟨false, [⟨some "level == 'high'", some "Wrap Up"⟩], none⟩, []⟩,
      ⟨"done", title, none, [], [], .action ⟨none, []⟩, []⟩]⟩

theorem resolve?_title_sample :
    Workflow.read 0 (.record (titledRaw "Wrap Up")) = .ok (titled "Wrap Up") ∧
      Writes (pickTitled "Wrap Up") "Wrap Up" (.branch 0) ∧
      ∃ u, (titled "Wrap Up").resolve? "Wrap Up" = some u ∧ (titled "Wrap Up").GoesBy "Wrap Up" u := by
  have hread : Workflow.read 0 (.record (titledRaw "Wrap Up")) = .ok (titled "Wrap Up") := by rfl
  have hwrites : Writes (pickTitled "Wrap Up") "Wrap Up" (.branch 0) :=
    .branch rfl rfl ⟨"target", rfl, rfl⟩
  obtain ⟨-, -, -, -, -, -, hplain⟩ := resolve?_title hread rfl (k := 0) rfl hwrites
    (g := doneTitled "Wrap Up") (.tail _ (.head _)) rfl (by decide)
  obtain ⟨u, -, hfound, hgoes⟩ := hplain (by decide +kernel)
  exact ⟨hread, hwrites, u, hfound, hgoes⟩

/-- With a blank before it, the title is not found, though the target is the very same text. -/
theorem title_lost :
    ¬∀ (fresh : Nat) (fields f g : Fields) (w : Workflow) (items : List Value) (k : Nat)
      (slot : Slot) (t : String), Workflow.read fresh (.record fields) = .ok w →
      fields.get "steps" = .list items → (keptSteps (.list items))[k]? = some (.record f) →
      Writes f t slot → .record g ∈ items → g.get? "title" = some (.text t) →
      Text.allBlank t = false →
      ∃ s reference u, w.steps[k]? = some s ∧ s.targetAt? slot = some reference ∧
        w.resolve? reference = some u := by
  intro h
  obtain ⟨s, reference, u, hs, htarget, hfound⟩ := h 0 (titledRaw " Wrap Up") (pickTitled " Wrap Up")
    (doneTitled " Wrap Up") (titled " Wrap Up") _ 0 (.branch 0) " Wrap Up" (by rfl) rfl rfl
    (.branch rfl rfl ⟨"target", rfl, rfl⟩) (.tail _ (.head _)) rfl (by decide)
  cases hs
  cases htarget
  have hnone : (titled " Wrap Up").resolve? "Wrap Up" = none := by
    have htitles : Text.lower "" ≠ Text.lower "Wrap Up" ∧
        Text.lower " Wrap Up" ≠ Text.lower "Wrap Up" := by
      decide +kernel
    rw [resolve?_eq_none_iff (by decide)]
    simpa [titled] using htitles
  rw [hnone] at hfound
  cases hfound

end Workflow
end Runbook
