import Mathlib.Data.List.TakeWhile
import Runbook.Proofs.TidyText
import Runbook.Workflow.Edit

/-! Editing the edges of a graph. An edge is looked for by a target as it is given, and kept with the
target as it is read, without the blanks around it. Where the two are the same text, targets stay
single and an edge that was added can be taken back. -/
namespace Runbook

theorem Text.trim_of_allBlank {s : String} (h : allBlank s = true) : trim s = "" := by
  have hdrop : s.toList.dropWhile isBlank = [] :=
    List.dropWhile_eq_nil_iff.2 (List.all_eq_true.1 h)
  simp [trim, trimChars, hdrop]

theorem Reading.reference?_eq_self_iff {s : String} :
    reference? (.text s) = some s ↔ s ≠ "" ∧ Text.trim s = s := by
  cases hb : Text.allBlank s with
  | true =>
    have htrim := Text.trim_of_allBlank hb
    simp only [reference?, hb, if_true, htrim]
    grind
  | false =>
    have hne : s ≠ "" := by
      rintro rfl
      cases hb
    simp [reference?, hb, hne]

theorem Transition.leadsTo_text_iff {e : Transition} {target : String} :
    e.leadsTo (.text target) = true ↔ e.target = some target := by
  unfold leadsTo
  cases e.target with
  | none => simp
  | some id =>
    change (target == id) = true ↔ some id = some target
    rw [beq_iff_eq, Option.some.injEq]
    exact eq_comm

namespace Workflow

/-- No step has two edges to the same target. -/
def SingleTargets (w : Workflow) : Prop :=
  ∀ s ∈ w.steps, (s.transitions.map (·.target)).Nodup

instance (w : Workflow) : Decidable w.SingleTargets :=
  inferInstanceAs (Decidable (∀ s ∈ w.steps, (s.transitions.map (·.target)).Nodup))

/-- The edge that the given texts are read as. -/
def newEdge (target : String) (condition label : Option String) : Transition :=
  ⟨Reading.reference? (.text target), (Reading.trimmedText (.ofText? condition)).value, label⟩

/-- The workflow with other edges out of one step. -/
def rewired (w : Workflow) (s : Step) (es : List Transition) : Workflow :=
  { w with steps := setTransitions s.id es w.steps }

variable {w v : Workflow} {s : Step} {es fs : List Transition} {id source target : String}
  {condition label : Option String}

theorem readTransition_edge (target : String) (condition label : Option String) :
    (Definition.readTransition
      (edgeRecord (.text target) (.ofText? condition) (.ofText? label))).toExcept "Transition" =
        .ok (newEdge target condition label) := by
  have hcondition : (Reading.trimmedText (.ofText? condition)).faults = [] := by
    cases condition with
    | none => rfl
    | some c =>
      cases hb : Text.allBlank c <;>
        simp [Reading.trimmedText, Value.ofText?, Value.trimmed, hb, Reading.optionalText,
          Reading.optional, Reading.text]
  have hlabel : Reading.optionalText (.ofText? label) = pure label := by
    cases label <;> rfl
  refine Reading.toExcept_eq_ok.2 ⟨?_, ?_⟩
  · simp [Definition.readTransition, edgeRecord, Reading.model, Reading.field, Reading.used?,
      Fields.get?, Fields.get, Reading.under, Reading.reference, hcondition, hlabel]
  · simp [Definition.readTransition, edgeRecord, Reading.model, Reading.field, Reading.used?,
      Fields.get?, Fields.get, Reading.under, Reading.reference, hlabel, newEdge]

theorem setTransitions_split (h : w.stepById? id = some s) :
    ∃ before after, w.steps = before ++ s :: after ∧ (∀ t ∈ before, t.id ≠ s.id) ∧
      ∀ (u : Step) es, u.id = s.id →
        setTransitions s.id es (before ++ u :: after) =
          before ++ { u with transitions := es } :: after := by
  obtain ⟨-, rfl⟩ := stepById?_eq_some h
  unfold stepById? at h
  split at h
  · cases h
  · obtain ⟨-, before, after, hsplit, hother⟩ := List.find?_eq_some_iff_append.1 h
    have hbefore : ∀ t ∈ before, t.id ≠ s.id := by simpa using hother
    refine ⟨before, after, hsplit, hbefore, fun u es hu => ?_⟩
    clear hsplit hother
    induction before with
    | nil => simp [setTransitions, hu]
    | cons t rest ih =>
      have ht : t.id ≠ s.id := hbefore t List.mem_cons_self
      simp [setTransitions, ht, ih fun t' ht' => hbefore t' (List.mem_cons_of_mem _ ht')]

theorem stepById?_rewired (h : w.stepById? id = some s) (es : List Transition) :
    (w.rewired s es).stepById? id = some { s with transitions := es } := by
  obtain ⟨before, after, hsplit, hbefore, hset⟩ := setTransitions_split h
  obtain ⟨-, rfl⟩ := stepById?_eq_some h
  have hne : s.id.isEmpty = false := by
    cases hid : s.id.isEmpty with
    | false => rfl
    | true => simp [stepById?, hid] at h
  have hnone : before.find? (·.id == s.id) = none :=
    List.find?_eq_none.2 fun t ht => by simpa using hbefore t ht
  simp [stepById?, hne, rewired, hsplit, hset s es rfl, List.find?_append, hnone]

theorem rewired_rewired (h : w.stepById? id = some s) (es fs : List Transition) :
    (w.rewired s es).rewired { s with transitions := es } fs = w.rewired s fs := by
  obtain ⟨before, after, hsplit, -, hset⟩ := setTransitions_split h
  simp only [rewired, hsplit, hset s es rfl, hset s fs rfl]
  rw [hset { s with transitions := es } fs rfl]

theorem rewired_self (h : w.stepById? id = some s) : w.rewired s s.transitions = w := by
  obtain ⟨before, after, hsplit, -, hset⟩ := setTransitions_split h
  simp only [rewired, hsplit, hset s _ rfl]
  rw [← hsplit]

theorem singleTargets_rewired (h : w.stepById? id = some s) (hw : w.SingleTargets) :
    (w.rewired s es).SingleTargets ↔ (es.map (·.target)).Nodup := by
  obtain ⟨before, after, hsplit, -, hset⟩ := setTransitions_split h
  simp only [SingleTargets, hsplit, List.forall_mem_append, List.forall_mem_cons] at hw
  simp only [SingleTargets, rewired, hsplit, hset s es rfl, List.forall_mem_append,
    List.forall_mem_cons]
  exact ⟨fun h => h.2.1, fun h => ⟨hw.1, h, hw.2.2⟩⟩

/-- All that adding an edge can come to. -/
inductive Added (w : Workflow) (source target : String) (edge : Transition) :
    Workflow × Bool → Prop where
  | refused : (∀ s, w.isGraph = true → w.stepById? source = some s → target ≠ "" →
      ∃ e ∈ s.transitions, e.target = some target) → Added w source target edge (w, false)
  | done {s : Step} : w.isGraph = true → w.stepById? source = some s → target ≠ "" →
      (∀ e ∈ s.transitions, e.target ≠ some target) →
      Added w source target edge (w.rewired s (s.transitions ++ [edge]), true)

theorem added (w : Workflow) (source target : String) (condition label : Option String) :
    ∃ x, w.addTransition source (.text target) (.ofText? condition) (.ofText? label) = .ok x ∧
      Added w source target (newEdge target condition label) x := by
  unfold addTransition
  cases hg : w.isGraph with
  | false => exact ⟨_, rfl, .refused (by simp [hg])⟩
  | true =>
    cases hs : w.stepById? source with
    | none => exact ⟨_, rfl, .refused (by simp [hs])⟩
    | some s =>
      by_cases ht : target = ""
      · subst ht
        exact ⟨_, rfl, .refused (by simp)⟩
      · by_cases hany : s.transitions.any (·.leadsTo (.text target)) = true
        · refine ⟨(w, false), by simp [hany, pure, Except.pure], .refused fun t _ ht' _ => ?_⟩
          obtain rfl : s = t := Option.some.inj (hs.symm.trans ht')
          obtain ⟨e, he, hleads⟩ := List.any_eq_true.1 hany
          exact ⟨e, he, Transition.leadsTo_text_iff.1 hleads⟩
        · refine ⟨_, ?_, .done hg hs ht fun e he htarget => hany
            (List.any_eq_true.2 ⟨e, he, Transition.leadsTo_text_iff.2 htarget⟩)⟩
          simp [hg, hany, Value.truthy, ht, readTransition_edge, rewired, bind, Except.bind, pure,
            Except.pure]

theorem removeTransition_eq (hg : w.isGraph = true) (hs : w.stepById? source = some s) :
    w.removeTransition source (.text target) =
      if s.transitions.any (·.leadsTo (.text target)) = true then
        (w.rewired s (s.transitions.filter (!·.leadsTo (.text target))), true)
      else (w, false) := by
  simp [removeTransition, hg, hs, rewired]

/-- An edit of the edges, as a caller gives it. -/
inductive Edit where
  | add (source target : String) (condition label : Option String)
  | remove (source target : String)

/-- No target to be added has blanks around it. -/
def Edit.Plain : Edit → Prop
  | .add _ target _ _ => Text.trim target = target
  | .remove _ _ => True

def edit (w : Workflow) : Edit → Except Failure (Workflow × Bool)
  | .add source target condition label =>
    w.addTransition source (.text target) (.ofText? condition) (.ofText? label)
  | .remove source target => .ok (w.removeTransition source (.text target))

def editAll (w : Workflow) : List Edit → Except Failure Workflow
  | [] => .ok w
  | e :: es => do
    let (v, _) ← w.edit e
    v.editAll es

theorem Added.singleTargets {edge : Transition} {x : Workflow × Bool} (hw : w.SingleTargets)
    (h : Added w source target edge x) (hx : x.2 = true) :
    x.1.SingleTargets ↔ ∀ e ∈ w.transitionsFrom source, e.target ≠ edge.target := by
  cases h with
  | refused _ => cases hx
  | @done s hg hs ht hother =>
    obtain ⟨hmem, -⟩ := stepById?_eq_some hs
    rw [singleTargets_rewired hs hw, transitionsFrom, hs]
    simp [List.nodup_append, hw s hmem]

theorem SingleTargets.removeTransition (hw : w.SingleTargets) (source target : String) :
    (w.removeTransition source (.text target)).1.SingleTargets := by
  unfold Workflow.removeTransition
  split
  · next s hg hs =>
    split
    · obtain ⟨hmem, -⟩ := stepById?_eq_some hs
      exact (singleTargets_rewired hs hw).2 ((hw s hmem).sublist (List.filter_sublist.map _))
    · exact hw
  · exact hw

theorem edit_singleTargets (w : Workflow) (e : Edit) :
    ∃ x, w.edit e = .ok x ∧ (w.SingleTargets → e.Plain → x.1.SingleTargets) := by
  cases e with
  | remove source target => exact ⟨_, rfl, fun hw _ => hw.removeTransition source target⟩
  | add source target condition label =>
    obtain ⟨x, hx, hadded⟩ := added w source target condition label
    refine ⟨x, hx, fun hw hplain => ?_⟩
    have hsingle := hadded.singleTargets hw
    cases hadded with
    | refused _ => exact hw
    | @done s hg hs ht hother =>
      refine (hsingle rfl).2 fun e he => ?_
      rw [transitionsFrom, hs] at he
      rw [newEdge, Reading.reference?_eq_self_iff.2 ⟨ht, hplain⟩]
      exact hother e he

theorem editAll_returns (w : Workflow) (edits : List Edit) :
    ∃ v, w.editAll edits = .ok v ∧
      (w.SingleTargets → (∀ e ∈ edits, e.Plain) → v.SingleTargets) := by
  induction edits generalizing w with
  | nil => exact ⟨w, rfl, fun hw _ => hw⟩
  | cons e es ih =>
    obtain ⟨⟨u, b⟩, hu, hsingle⟩ := edit_singleTargets w e
    obtain ⟨v, hv, hrest⟩ := ih u
    refine ⟨v, by simp [editAll, hu, hv, bind, Except.bind], fun hw hplain => ?_⟩
    obtain ⟨hfirst, hothers⟩ := List.forall_mem_cons.1 hplain
    exact hrest (hsingle hw hfirst) hothers

theorem Added.removed {x : Workflow × Bool}
    (h : Added w source target (newEdge target condition label) x) (hx : x.2 = true) :
    x.1.removeTransition source (.text target) =
      if Text.trim target = target then (w, true) else (x.1, false) := by
  cases h with
  | refused _ => cases hx
  | @done s hg hs ht hother =>
    have hread : (newEdge target condition label).leadsTo (.text target) = true ↔
        Text.trim target = target := by
      rw [Transition.leadsTo_text_iff, newEdge, Reading.reference?_eq_self_iff]
      exact and_iff_right ht
    have hnone : s.transitions.any (·.leadsTo (.text target)) = false :=
      List.any_eq_false.2 fun e he => mt Transition.leadsTo_text_iff.1 (hother e he)
    have hkept : s.transitions.filter (!·.leadsTo (.text target)) = s.transitions := by
      simpa using hnone
    have hgraph : (w.rewired s (s.transitions ++ [newEdge target condition label])).isGraph = true :=
      hg
    rw [removeTransition_eq hgraph (stepById?_rewired hs _)]
    simp only [List.any_append, List.any_cons, List.any_nil, hnone, Bool.false_or, Bool.or_false,
      hread]
    split
    · next hplain =>
      have hback : (s.transitions ++ [newEdge target condition label]).filter
          (!·.leadsTo (.text target)) = s.transitions := by
        simp [List.filter_append, hkept, hread.2 hplain]
      rw [hback, rewired_rewired hs, rewired_self hs]
    · rfl

/-- Edits never fail. As long as no target that is added has blanks around it, targets stay single.
After any edits, an edge is added where none has the target as it is given, and targets are single
then just if none had the target as it is read. The edge can be taken back, which leaves the workflow
as it was, exactly if the two are the same text. -/
theorem editAll_reversible (hw : w.SingleTargets) (edits : List Edit) :
    ∃ v, w.editAll edits = .ok v ∧ ((∀ e ∈ edits, e.Plain) → v.SingleTargets) ∧
      ∀ source target condition label, ∃ v' done,
        v.edit (.add source target condition label) = .ok (v', done) ∧
        (done = true ↔ v.isGraph = true ∧ (∃ s, v.stepById? source = some s) ∧ target ≠ "" ∧
          ∀ e ∈ v.transitionsFrom source, e.target ≠ some target) ∧
        (done = false → v' = v) ∧
        (done = true →
          (v.SingleTargets → (v'.SingleTargets ↔
            ∀ e ∈ v.transitionsFrom source, e.target ≠ Reading.reference? (.text target))) ∧
          v'.removeTransition source (.text target) =
            if Text.trim target = target then (v, true) else (v', false)) := by
  obtain ⟨v, hv, hsingle⟩ := editAll_returns w edits
  refine ⟨v, hv, hsingle hw, fun source target condition label => ?_⟩
  obtain ⟨⟨v', done⟩, hx, hadded⟩ := added v source target condition label
  refine ⟨v', done, hx, ?_, ?_, fun hdone => ⟨fun hv => hadded.singleTargets hv hdone,
    hadded.removed hdone⟩⟩
  · cases hadded with
    | refused hwhy =>
      simp only [Bool.false_eq_true, false_iff]
      rintro ⟨hg, ⟨s, hs⟩, ht, hother⟩
      obtain ⟨e, he, htarget⟩ := hwhy s hg hs ht
      rw [transitionsFrom, hs] at hother
      exact hother e he htarget
    | done hg hs ht hother =>
      simp only [true_iff]
      rw [transitionsFrom, hs]
      exact ⟨hg, ⟨_, rfl⟩, ht, hother⟩
  · intro hdone
    cases hadded with
    | refused _ => rfl
    | done _ _ _ _ => cases hdone

def pair (es : List Transition) : Workflow :=
  ⟨"pair", "Pair", true, none,
    [⟨"a", "A", none, [], es, .action ⟨none, []⟩, []⟩,
      ⟨"b", "B", none, [], [], .action ⟨none, []⟩, []⟩]⟩

theorem editAll_reversible_sample :
    (pair [⟨some "b", none, none⟩]).SingleTargets ∧
      ∃ v v', (pair [⟨some "b", none, none⟩]).editAll [.remove "a" "b"] = .ok v ∧
        v.SingleTargets ∧ v.edit (.add "a" "b" (some " x > 1 ") none) = .ok (v', true) ∧
        v'.SingleTargets ∧ v'.removeTransition "a" (.text "b") = (v, true) := by
  have hsingle : (pair [⟨some "b", none, none⟩]).SingleTargets := by decide
  obtain ⟨v, hv, hplain, hedits⟩ := editAll_reversible hsingle [.remove "a" "b"]
  cases hv
  obtain ⟨v', done, hadd, hdone, -, hback⟩ := hedits "a" "b" (some " x > 1 ") none
  have hv : (pair []).SingleTargets := by decide
  obtain rfl : done = true := hdone.2 ⟨rfl, ⟨_, rfl⟩, by decide, by decide⟩
  obtain ⟨hkept, hrestored⟩ := hback rfl
  exact ⟨hsingle, _, v', rfl, hplain (by simp [Edit.Plain]), hadd, (hkept hv).2 (by decide),
    hrestored⟩

/-- With a blank before it, a target is added twice, and is not found to be taken back. -/
theorem padded_edits :
    (¬∀ (w v : Workflow) (edits : List Edit), w.isGraph = true → w.SingleTargets →
      w.editAll edits = .ok v → v.SingleTargets) ∧
    ¬∀ (w v v' : Workflow) (edits : List Edit) (source target : String)
      (condition label : Option String), w.isGraph = true → w.SingleTargets →
      w.editAll edits = .ok v → v.edit (.add source target condition label) = .ok (v', true) →
      v'.removeTransition source (.text target) = (v, true) := by
  constructor
  · intro h
    have hsingle := h (pair [⟨some "b", none, none⟩]) _ [.add "a" " b" none none] rfl (by decide) rfl
    revert hsingle
    decide
  · intro h
    have hback := congrArg Prod.snd
      (h (pair []) _ _ [] "a" " b" none none rfl (by decide) rfl rfl)
    cases hback

end Workflow
end Runbook
