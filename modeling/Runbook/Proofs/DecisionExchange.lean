import Mathlib.Data.List.Forall2
import Runbook.Proofs.DecisionForms

/-! Definitions that differ in the form of their decisions only. Both are read, or both fail with the
same faults, and the steps that are read route alike, each at its place. -/
namespace Runbook

/-- Two attempts that fail alike, or succeed with related values. -/
inductive Agree {ε α β : Type} (R : α → β → Prop) : Except ε α → Except ε β → Prop where
  | error (e : ε) : Agree R (.error e) (.error e)
  | ok {a : α} {b : β} : R a b → Agree R (.ok a) (.ok b)

theorem map_eq_map {α β γ : Type} {R : α → β → Prop} {as : List α} {bs : List β} {f : α → γ}
    {g : β → γ} (h : List.Forall₂ R as bs) (hfg : ∀ a b, R a b → f a = g b) :
    as.map f = bs.map g := by
  have hmap : List.Forall₂ (· = ·) (as.map f) (bs.map g) := List.rel_map hfg h
  rwa [List.forall₂_eq_eq_eq] at hmap

namespace Agree
variable {ε α β γ δ : Type} {R : α → β → Prop} {S : γ → δ → Prop} {x : Except ε α} {y : Except ε β}

theorem bind {f : α → Except ε γ} {g : β → Except ε δ} (h : Agree R x y)
    (hfg : ∀ a b, R a b → Agree S (f a) (g b)) : Agree S (x >>= f) (y >>= g) := by
  cases h with
  | error e => exact .error e
  | ok hab => exact hfg _ _ hab

end Agree

namespace Reading
variable {α β : Type} {R : α → β → Prop} {r : Reading α} {r' : Reading β}

/-- Two readings with the same faults and related values. -/
structure Matches (R : α → β → Prop) (r : Reading α) (r' : Reading β) : Prop where
  faults : r.faults = r'.faults
  value : R r.value r'.value

theorem Matches.under (h : r.Matches R r') (place : Place) :
    (r.under place).Matches R (r'.under place) := by
  refine ⟨?_, h.value⟩
  simp only [Reading.under, h.faults]

theorem Matches.toExcept (h : r.Matches R r') (model : String) :
    Agree R (r.toExcept model) (r'.toExcept model) := by
  unfold Reading.toExcept
  rw [h.faults]
  split
  · exact .ok h.value
  · exact .error _

end Reading

/-- Steps that route alike and stand for the same variable. -/
structure Step.Twin (s t : Step) : Prop extends s.Alike t where
  variableName : s.variableName = t.variableName

theorem Step.Twin.refl (s : Step) : s.Twin s := ⟨.refl s, rfl⟩

namespace Definition
open Reading Definition.Decision

/-- One decision as two records: in its older form and in branch form. One of its targets at least
is not blank. -/
structure Decision.Forms (f g : Fields) (condition whenTrue whenFalse : String) : Prop where
  typed : ∃ simple, typeOf f = .ok (.decision simple)
  older : Older f condition whenTrue whenFalse
  branched : Branched g condition whenTrue whenFalse
  leads : ¬(Text.allBlank whenTrue ∧ Text.allBlank whenFalse)
  others : ∀ n ∉ decisionNames, f.get? n = g.get? n

/-- A raw step, and the same one or another form of it. -/
inductive Recast : Value → Value → Prop where
  | same (v : Value) : Recast v v
  | decision {f g : Fields} {c t e : String} : Forms f g c t e → Recast (.record f) (.record g)

theorem get?_extraFields (f : Fields) (simple : Bool) :
    (extraFields f (.decision simple)).get? "variable_name" = f.get? "variable_name" := by
  refine Fields.get?_without f fun hused => ?_
  obtain ⟨names, hnames, hn⟩ := List.mem_filterMap.1 hused
  have hmem : "variable_name" ∈ names := List.mem_of_find?_eq_some hn
  have hnone : ∀ simple, ∀ names ∈ baseNames ++ bodyNames (.decision simple),
      "variable_name" ∉ names := by decide
  exact hnone simple names hnames hmem

namespace Decision.Forms
variable {f g : Fields} {c t e : String}

theorem typeOf_eq (h : Forms f g c t e) : typeOf f = typeOf g := by
  unfold typeOf
  rw [h.others "type" (by decide)]

theorem get?_canonical_eq (h : Forms f g c t e) {n : String} (hn : n ∉ decisionNames) :
    (canonical f).get? n = (canonical g).get? n := by
  rw [get?_canonical f hn, get?_canonical g hn, h.others n hn]

theorem field_eq {α : Type} (h : Forms f g c t e) (names : List String)
    (hnames : ∀ n ∈ names, n ∉ decisionNames) (absent : Reading α) (read : Value → Reading α) :
    field (canonical f) names absent read = field (canonical g) names absent read :=
  field_congr fun n hn => h.get?_canonical_eq (hnames n hn)

theorem readTyped_matches (h : Forms f g c t e) (fresh : String) (simple : Bool) :
    (readTyped fresh (.decision simple) f).Matches Step.Twin
      (readTyped fresh (.decision simple) g) := by
  obtain ⟨b, hb, hchooses⟩ := h.older.readBody h.leads simple
  obtain ⟨b', hb', hchooses'⟩ := h.branched.readBody simple
  have hid : statedId? (canonical f) = statedId? (canonical g) :=
    congrArg (·.bind reference?) (h.get?_canonical_eq (by decide))
  simp only [readTyped, hb, hb', hid, Reading.pure_bind, h.field_eq ["title"] (by decide),
    h.field_eq ["description"] (by decide), h.field_eq ["jumps"] (by decide),
    h.field_eq ["transitions"] (by decide)]
  refine ⟨rfl, ⟨rfl, rfl, rfl, hchooses.alike hchooses'⟩, ?_⟩
  obtain ⟨d, rfl, -⟩ := hchooses
  obtain ⟨d', rfl, -⟩ := hchooses'
  have hvariable : (canonical f).get? "variable_name" = (canonical g).get? "variable_name" :=
    h.get?_canonical_eq (by decide)
  simp only [Step.variableName, value_bind, value_pure, get?_extraFields, hvariable]

theorem brokenBranches?_older (h : Forms f g c t e) : brokenBranches? (.record f) = none := by
  obtain ⟨simple, htype⟩ := h.typed
  simp only [brokenBranches?, htype, scalarBranches?, h.older.noBranches]
  rfl

theorem brokenBranches?_branched (h : Forms f g c t e) : brokenBranches? (.record g) = none := by
  obtain ⟨simple, htype⟩ := h.typed
  obtain ⟨b, hbranches, -⟩ := h.branched.branch
  simp only [brokenBranches?, ← h.typeOf_eq, htype, scalarBranches?, hbranches]
  rfl

end Decision.Forms

namespace Recast
variable {v v' : Value} {vs vs' : List Value}

theorem hasContent_eq (h : Recast v v') : hasContent v = hasContent v' := by
  cases h with
  | same v => rfl
  | decision h =>
    obtain ⟨simple, htype⟩ := h.typed
    rw [hasContent_of_typeOf htype, hasContent_of_typeOf (h.typeOf_eq ▸ htype)]

theorem brokenBranches?_eq (h : Recast v v') : brokenBranches? v = brokenBranches? v' := by
  cases h with
  | same v => rfl
  | decision h => rw [h.brokenBranches?_older, h.brokenBranches?_branched]

theorem takesFresh_eq (h : Recast v v') : takesFresh v = takesFresh v' := by
  cases h with
  | same v => rfl
  | decision h => simp only [takesFresh, statedId?, h.typeOf_eq, h.others "id" (by decide)]

theorem readStep_matches (h : Recast v v') (fresh : String) :
    (readStep fresh v).Matches Step.Twin (readStep fresh v') := by
  cases h with
  | same v => exact ⟨rfl, .refl _⟩
  | decision h =>
    obtain ⟨simple, htype⟩ := h.typed
    simp only [readStep, ← h.typeOf_eq, htype, Fields.get, h.others "type" (by decide)]
    exact (h.readTyped_matches fresh simple).under _

theorem readSteps_matches (h : List.Forall₂ Recast vs vs') (fresh index : Nat) :
    (readSteps fresh index vs).Matches (List.Forall₂ Step.Twin) (readSteps fresh index vs') := by
  induction h generalizing fresh index with
  | nil => exact ⟨rfl, .nil⟩
  | @cons v v' vs vs' hv _ ih =>
    have hfirst := (hv.readStep_matches (freshId fresh)).under (.item index)
    have hrest := ih (if takesFresh v then fresh + 1 else fresh) (index + 1)
    simp only [readSteps, ← hv.takesFresh_eq]
    refine ⟨?_, .cons hfirst.value hrest.value⟩
    simp only [faults_bind, faults_pure, hfirst.faults, hrest.faults]

theorem keptSteps (h : List.Forall₂ Recast vs vs') :
    List.Forall₂ Recast (keptSteps (.list vs)) (keptSteps (.list vs')) :=
  List.rel_filter (fun _ _ hv => by simp only [hv.hasContent_eq]) h

end Recast

namespace Naming
variable {s t : Step} {ss ts : List Step}

theorem wanted?_eq (h : s.Alike t) : wanted? s = wanted? t := by
  have htitle := h.title_eq
  have hbody := h.body
  obtain ⟨_, title, _, _, _, body, _⟩ := s
  obtain ⟨_, title', _, _, _, body', _⟩ := t
  obtain rfl : title = title' := htitle
  cases hbody <;> rfl

theorem setName_alike (h : s.Alike t) (name : String) :
    (setName s name).Alike (setName t name) := by
  obtain ⟨hhandle, hjumps, htransitions, hbody⟩ := h
  obtain ⟨_, _, _, _, _, body, _⟩ := s
  obtain ⟨_, _, _, _, _, body', _⟩ := t
  cases hbody with
  | same => cases body <;> exact ⟨hhandle, hjumps, htransitions, .same _⟩
  | decision hfirst helse => exact ⟨hhandle, hjumps, htransitions, .decision hfirst helse⟩

theorem assign_alike (h : List.Forall₂ Step.Twin ss ts) (taken : List String) :
    List.Forall₂ Step.Alike (assign taken ss) (assign taken ts) := by
  induction h generalizing taken with
  | nil => exact .nil
  | @cons s t ss ts hst _ ih =>
    simp only [assign, ← wanted?_eq hst.toAlike]
    split
    · exact .cons (setName_alike hst.toAlike _) (ih _)
    · exact .cons hst.toAlike (ih _)

theorem namesInUse_eq (h : List.Forall₂ Step.Twin ss ts) : namesInUse ss = namesInUse ts := by
  induction h with
  | nil => rfl
  | cons hst _ ih =>
    unfold namesInUse at ih ⊢
    simp only [List.filterMap_cons, hst.variableName, ih]

theorem assignNames_agree (h : List.Forall₂ Step.Twin ss ts) :
    Agree (List.Forall₂ Step.Alike) (assignNames ss) (assignNames ts) := by
  have hunhashable : (ss.findSome? fun s => unhashable? s.variableName) =
      ts.findSome? fun s => unhashable? s.variableName := by
    have hmap := congrArg (List.findSome? unhashable?)
      (map_eq_map h fun _ _ hst => hst.variableName)
    rwa [List.findSome?_map, List.findSome?_map] at hmap
  unfold assignNames
  rw [hunhashable, namesInUse_eq h]
  split
  · exact .error _
  · exact .ok (assign_alike h _)

end Naming

variable {vs vs' : List Value}

theorem findSome?_brokenBranches? (h : List.Forall₂ Recast vs vs') :
    vs.findSome? brokenBranches? = vs'.findSome? brokenBranches? := by
  have hmap := congrArg (List.findSome? id) (map_eq_map h fun _ _ hv => hv.brokenBranches?_eq)
  rwa [List.findSome?_map, List.findSome?_map] at hmap

theorem readFields_matches (h : List.Forall₂ Recast vs vs') (fields : Fields) (fresh : Nat) :
    (readFields fresh (fields.put "steps" (.list vs))).Matches
      (fun w v => w.isGraph = v.isGraph ∧ List.Forall₂ Step.Twin w.steps v.steps)
      (readFields fresh (fields.put "steps" (.list vs'))) := by
  have hget : ∀ n, "steps" ≠ n →
      (fields.put "steps" (.list vs)).get? n = (fields.put "steps" (.list vs')).get? n :=
    fun n hn => by rw [Fields.get?_put_ne _ _ hn, Fields.get?_put_ne _ _ hn]
  have hfield : ∀ {α : Type} (names : List String) (absent : Reading α) (read : Value → Reading α),
      "steps" ∉ names → field (fields.put "steps" (.list vs)) names absent read =
        field (fields.put "steps" (.list vs')) names absent read :=
    fun names _ _ hnames => field_congr fun n hn => hget n fun heq => hnames (heq ▸ hn)
  have hid : workflowId? (fields.put "steps" (.list vs)) =
      workflowId? (fields.put "steps" (.list vs')) := by
    simp only [workflowId?, hget "id" (by decide)]
  simp only [readFields, hid, hfield ["title"] _ _ (by decide),
    hfield ["graph_mode"] _ _ (by decide), hfield startNames _ _ (by decide),
    field_first (Fields.get?_put_self fields "steps" _)]
  have hsteps := fun fresh => (Recast.readSteps_matches (Recast.keptSteps h) fresh 0).under
    (.field "steps")
  refine ⟨?_, rfl, (hsteps _).value⟩
  simp only [faults_bind, faults_pure, (hsteps _).faults]

theorem length_readSteps (fresh index : Nat) (vs : List Value) :
    (readSteps fresh index vs).value.length = vs.length := by
  induction vs generalizing fresh index with
  | nil => rfl
  | cons v vs ih =>
    simp only [readSteps, value_bind, value_pure, List.length_cons, ih]

end Definition

namespace Workflow
open Definition
variable {vs vs' : List Value}

theorem length_of_read {fields : Fields} {fresh : Nat} {w : Workflow}
    (h : Workflow.read fresh (.record (fields.put "steps" (.list vs))) = .ok w) :
    w.steps.length = (vs.filter hasContent).length := by
  simp only [Workflow.read] at h
  split at h
  · cases h
  · obtain ⟨v, hv, h⟩ := bind_eq_ok.1 h
    obtain ⟨steps, hsteps, h⟩ := bind_eq_ok.1 h
    obtain ⟨-, rfl⟩ := Reading.toExcept_eq_ok.1 hv
    cases h
    have hids := congrArg List.length (assignNames_ids hsteps)
    rw [List.length_map, List.length_map] at hids
    simp only [readFields, Reading.value_bind, Reading.value_pure,
      Reading.field_first (Fields.get?_put_self fields "steps" _)] at hids
    exact hids.trans (length_readSteps _ 0 _)

/-- Twice the same definition, but for the form of any of its decisions: it is read alike. -/
theorem read_agree (h : List.Forall₂ Recast vs vs') (fields : Fields) (fresh : Nat) :
    Agree (fun w v => w.Aligned v ∧ List.Forall₂ Step.Alike w.steps v.steps)
      (Workflow.read fresh (.record (fields.put "steps" (.list vs))))
      (Workflow.read fresh (.record (fields.put "steps" (.list vs')))) := by
  have hsteps : ∀ us : List Value, Fields.get (fields.put "steps" (.list us)) "steps" = .list us :=
    fun us => by rw [Fields.get, Fields.get?_put_self]; rfl
  simp only [Workflow.read, hsteps, findSome?_brokenBranches? (Recast.keptSteps h)]
  split
  · exact .error _
  · refine ((readFields_matches h fields fresh).toExcept "Workflow").bind fun w v hwv => ?_
    refine (Naming.assignNames_agree hwv.2).bind fun ss ts hst => .ok ⟨⟨hwv.1, ?_⟩, hst⟩
    exact map_eq_map hst fun _ _ halike => halike.handle

/-- A decision in its older form and the same decision in branch form: put in the same place of a
workflow, they lead to the same route from there in either mode, whatever the results are, or to the
same failure. -/
theorem nextRoute_forms {f g : Fields} {condition whenTrue whenFalse : String}
    (h : Decision.Forms f g condition whenTrue whenFalse) (fields : Fields)
    (before after : List Value) (fresh : Nat) :
    Agree (fun w v => w.strategy = v.strategy ∧
        ∃ s t, w.steps[(before.filter hasContent).length]? = some s ∧
          v.steps[(before.filter hasContent).length]? = some t ∧
          ∀ strategy rs, w.nextRoute strategy s rs = v.nextRoute strategy t rs)
      (Workflow.read fresh (.record
        (fields.put "steps" (.list (before ++ .record f :: after)))))
      (Workflow.read fresh (.record
        (fields.put "steps" (.list (before ++ .record g :: after))))) := by
  have hsame : ∀ us : List Value, List.Forall₂ Recast us us :=
    fun us => List.forall₂_same.2 fun v _ => .same v
  have hrecast : List.Forall₂ Recast (before ++ .record f :: after) (before ++ .record g :: after) :=
    List.rel_append (hsame before) (.cons (.decision h) (hsame after))
  have hagree := read_agree hrecast fields fresh
  obtain ⟨simple, htype⟩ := h.typed
  have hkept : (before.filter hasContent).length <
      ((before ++ .record f :: after).filter hasContent).length := by
    simp [hasContent_of_typeOf htype]
  have hlength : ∀ w, Workflow.read fresh (.record
      (fields.put "steps" (.list (before ++ .record f :: after)))) = .ok w →
      w.steps.length = ((before ++ .record f :: after).filter hasContent).length :=
    fun _ => length_of_read
  generalize Workflow.read fresh (.record
    (fields.put "steps" (.list (before ++ .record f :: after)))) = x at hagree hlength
  generalize Workflow.read fresh (.record
    (fields.put "steps" (.list (before ++ .record g :: after)))) = y at hagree
  cases hagree with
  | error failure => exact .error failure
  | @ok w v hwv =>
    obtain ⟨haligned, halike⟩ := hwv
    rw [← hlength w rfl] at hkept
    have hkept' := halike.length_eq ▸ hkept
    refine .ok ⟨by rw [strategy, strategy, haligned.mode], _, _,
      List.getElem?_eq_getElem hkept, List.getElem?_eq_getElem hkept', fun strategy rs => ?_⟩
    exact haligned.nextRoute_eq (halike.get hkept hkept') strategy rs

def pickFields : Fields :=
  [("type", .text "decision"), ("id", .text "pick"),
    ("jumps", .list [.record [("condition", .text "skip"), ("target", .text "stop")]]),
    ("transitions", .list [.record [("target_id", .text "go")]])]

def pickOlder : Fields := pickFields ++
  [("condition", .text " ready == 'yes' "), ("true_path", .text " "), ("false_target", .text "stop")]

def pickBranched : Fields := pickFields ++
  [("branches", .list [.record [("condition", .text " ready == 'yes' "), ("target", .text " ")]]),
    ("else_target", .text "stop")]

theorem forms_pick : Decision.Forms pickOlder pickBranched " ready == 'yes' " " " "stop" where
  typed := ⟨false, rfl⟩
  older :=
    { condition := rfl
      whenTrue := ⟨"true_path", by decide, rfl, by decide⟩
      whenFalse := ⟨"false_target", by decide, rfl, by decide⟩
      noBranches := rfl
      noElse := by decide }
  branched := ⟨⟨_, rfl, rfl, rfl⟩, rfl, by decide⟩
  leads := by decide
  others := by
    intro n hn
    have hnone : ∀ part : Fields, (∀ kv ∈ part, kv.1 ∈ decisionNames) → part.get? n = none :=
      fun part hpart => Fields.get?_eq_none fun kv hkv heq => hn (heq ▸ hpart kv hkv)
    rw [pickOlder, pickBranched, Fields.get?_append, Fields.get?_append]
    refine congrArg (Option.or _) ?_
    rw [hnone _ (by decide), hnone _ (by decide)]

def pickIn (decision : Fields) : Value := .record
  (Fields.put [("graph_mode", .flag true)] "steps" (.list
    ([.record [("type", .text "question"), ("id", .text "ask"), ("variable_name", .text "ready")],
        .record [("id", .text "nothing")]] ++
      .record decision ::
        [.record [("type", .text "action"), ("id", .text "go")],
          .record [("type", .text "action"), ("id", .text "stop")]])))

theorem nextRoute_forms_pick :
    Decision.Forms pickOlder pickBranched " ready == 'yes' " " " "stop" ∧
      ∃ w v s t, Workflow.read 0 (pickIn pickOlder) = .ok w ∧
        Workflow.read 0 (pickIn pickBranched) = .ok v ∧
        w.steps[1]? = some s ∧ v.steps[1]? = some t ∧
        ∀ strategy rs, w.nextRoute strategy s rs = v.nextRoute strategy t rs := by
  have hagree := nextRoute_forms forms_pick [("graph_mode", .flag true)]
    [.record [("type", .text "question"), ("id", .text "ask"), ("variable_name", .text "ready")],
      .record [("id", .text "nothing")]]
    [.record [("type", .text "action"), ("id", .text "go")],
      .record [("type", .text "action"), ("id", .text "stop")]] 0
  have hread : (Workflow.read 0 (pickIn pickOlder)).isOk = true := by rfl
  refine ⟨forms_pick, ?_⟩
  change Agree _ (Workflow.read 0 (pickIn pickOlder)) (Workflow.read 0 (pickIn pickBranched))
    at hagree
  generalize Workflow.read 0 (pickIn pickOlder) = x at hagree hread
  generalize Workflow.read 0 (pickIn pickBranched) = y at hagree
  cases hagree with
  | error failure => cases hread
  | ok hroutes =>
    obtain ⟨-, s, t, hs, ht, hroute⟩ := hroutes
    exact ⟨_, _, s, t, rfl, rfl, hs, ht, hroute⟩

end Workflow
end Runbook
