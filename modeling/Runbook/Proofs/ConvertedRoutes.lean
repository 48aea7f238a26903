import Runbook.Conversion
import Runbook.Proofs.RouteTargets

/-! Conversion of a sequence into a graph keeps its routes: the steps keep their names, and what
follows a step, by whichever way out, is the same step under its id. -/
namespace Runbook

namespace Conversion
theorem getElem?_steps (w : Workflow) (ss : List Step) (i : Nat) :
    (steps w ss)[i]? = ss[i]?.map fun s => step w s (ss[i + 1]?.map (·.id)) := by
  induction ss generalizing i with
  | nil => rfl
  | cons s rest ih =>
    cases i with
    | zero => simp [steps, List.head?_eq_getElem?]
    | succ i => simpa [steps] using ih i

end Conversion

/-- A branch that counts, but leads nowhere of its own. -/
def Branch.isOpen (b : Branch) : Bool := b.condition.any (!·.isEmpty) && b.target.isNone

namespace Workflow
open Conversion

def idAfter (w : Workflow) (s : Step) : Option String :=
  ((w.indexOf? s.id).bind fun i => w.steps[i + 1]?).map (·.id)

def converted (w : Workflow) (s : Step) : Step := (step w s (w.idAfter s)).2

section Converted
variable (w : Workflow) (s : Step)

@[simp] theorem converted_id : (w.converted s).id = s.id := by
  unfold converted step; split <;> rfl

@[simp] theorem converted_title : (w.converted s).title = s.title := by
  unfold converted step; split <;> rfl

@[simp] theorem converted_description : (w.converted s).description = s.description := by
  unfold converted step; split <;> rfl

@[simp] theorem converted_extras : (w.converted s).extras = s.extras := by
  unfold converted step; split <;> rfl

@[simp] theorem converted_jumps : (w.converted s).jumps = s.jumps := by
  unfold converted step; split <;> rfl

@[simp] theorem converted_kind : (w.converted s).kind = s.kind := by
  cases hb : s.body <;> simp [converted, step, hb, Step.kind, Body.kind]

theorem converted_body (hb : ∀ d, s.body ≠ .decision d) : (w.converted s).body = s.body := by
  cases h : s.body with
  | decision d => exact absurd h (hb d)
  | _ => simp [converted, step, h]

theorem converted_decision {d : Decision} (hb : s.body = .decision d) :
    (w.converted s).body = .decision { d with branches := [], elseTarget := none } := by
  simp [converted, step, hb]

@[simp] theorem converted_isCheckpoint : (w.converted s).isCheckpoint = s.isCheckpoint := by
  cases hb : s.body <;> simp [converted, step, hb, Step.isCheckpoint]

@[simp] theorem converted_isResolve : (w.converted s).isResolve = s.isResolve := by
  cases hb : s.body <;> simp [converted, step, hb, Step.isResolve]

@[simp] theorem converted_jumpHolds (condition : String) (results : Store) :
    (w.converted s).jumpHolds condition results = s.jumpHolds condition results := by
  cases hb : s.body <;> simp [converted, step, hb, Step.jumpHolds]

end Converted

def drawn (w : Workflow) : Workflow :=
  { w with
    isGraph := true
    startId := w.steps.head?.map (·.id)
    steps := w.steps.map w.converted }

/-- The graph has the steps of the sequence, none of which met a problem. -/
structure Redrawn (w g : Workflow) : Prop where
  linear : w.isGraph = false
  graph : g.isGraph = true
  start : g.startId = w.steps.head?.map (·.id)
  steps : g.steps = w.steps.map w.converted
  clean : ∀ s ∈ w.steps, (step w s (w.idAfter s)).1 = []

/-- Where the graph stands when the sequence stands at a position. -/
def mirror (w : Workflow) : Position → Position
  | .index n =>
    match w.steps[n.toNat]? with
    | some s => .node s.id
    | none => .nowhere
  | p => p

def otherwise (w : Workflow) (s : Step) (d : Decision) : Position :=
  match d.elseTarget.filter (!·.isEmpty) with
  | some target => (w.routeTo .linear s (some target) "else" none).position
  | none => w.sequential s .linear

/-- The last step is no decision with an open branch. -/
def EndsClosed (w : Workflow) : Prop :=
  ∀ s d, w.steps.getLast? = some s → s.body = .decision d → d.branches.any (·.isOpen) = false

variable {w g : Workflow} {s t : Step} {i : Nat}

theorem idAfter_eq (hd : w.Distinct) (hs : w.steps[i]? = some s) :
    w.idAfter s = w.steps[i + 1]?.map (·.id) := by
  rw [idAfter, indexOf?_id hd hs]
  rfl

theorem conversion_steps (hd : w.Distinct) :
    Conversion.steps w w.steps = w.steps.map fun s => step w s (w.idAfter s) := by
  refine List.ext_getElem? fun (i : Nat) => ?_
  rw [getElem?_steps, List.getElem?_map]
  cases hs : w.steps[i]? with
  | none => rfl
  | some s => simp [idAfter_eq hd hs]

theorem toGraph_eq (hd : w.Distinct) (hw : w.isGraph = false) :
    w.toGraph =
      if w.steps.isEmpty then .error (.problems ["Workflow has no steps"])
      else
        let problems := (w.steps.flatMap fun s => (step w s (w.idAfter s)).1) ++
          Check.graphProblems w.drawn true
        if problems.isEmpty then .ok w.drawn else .error (.problems problems) := by
  cases hhead : w.steps.head? with
  | none =>
    have hsteps : w.steps = [] := List.head?_eq_none_iff.1 hhead
    simp [toGraph, hw, hsteps]
  | some first =>
    have hsteps : w.steps.isEmpty = false := by
      cases hsteps : w.steps <;> simp_all
    have hdrawn : { w with
        isGraph := true
        startId := some first.id
        steps := (w.steps.map fun s => step w s (w.idAfter s)).map (·.2) } = w.drawn := by
      simp [drawn, hhead, converted]
    simp only [toGraph, hw, hhead, hsteps, conversion_steps hd, hdrawn, List.flatMap_map,
      Bool.false_eq_true, if_false]

theorem redrawn_of_toGraph (hd : w.Distinct) (hw : w.isGraph = false) (h : w.toGraph = .ok g) :
    w.Redrawn g := by
  rw [toGraph_eq hd hw] at h
  split at h
  · cases h
  · simp only at h
    split at h
    · next hproblems =>
      simp only [List.isEmpty_iff, List.append_eq_nil_iff, List.flatMap_eq_nil_iff] at hproblems
      cases h
      exact ⟨hw, rfl, rfl, rfl, hproblems.1⟩
    · cases h

theorem mirror_index (w : Workflow) (i : Nat) :
    w.mirror (.index i) = ((w.steps[i]?).map (Position.node ·.id)).getD .nowhere := by
  simp only [mirror, Int.toNat_natCast]
  cases w.steps[i]? <;> rfl

theorem mirror_positionOf (hd : w.Distinct) (hw : w.isGraph = false) (ht : t ∈ w.steps) :
    w.mirror (w.positionOf t) = .node t.id := by
  obtain ⟨i, hi⟩ := List.getElem?_of_mem ht
  simp [positionOf, hw, indexOf?_id hd hi, mirror_index, hi]

theorem mirror_sequential (hd : w.Distinct) (hs : s ∈ w.steps) :
    w.mirror (w.sequential s .linear) = ((w.idAfter s).map Position.node).getD .nowhere := by
  obtain ⟨i, hi⟩ := List.getElem?_of_mem hs
  have hlt : i < w.steps.length := (List.getElem?_eq_some_iff.1 hi).1
  have hmin : min (i + 1) w.steps.length = i + 1 := by omega
  rw [idAfter_eq hd hi, sequential, indexOf?_id hd hi]
  simp only [hmin, mirror_index, Option.map_map]
  rfl

theorem getLast?_of_idAfter (hd : w.Distinct) (hs : s ∈ w.steps) (h : w.idAfter s = none) :
    w.steps.getLast? = some s := by
  obtain ⟨i, hi⟩ := List.getElem?_of_mem hs
  rw [idAfter_eq hd hi, Option.map_eq_none_iff, List.getElem?_eq_none_iff] at h
  have hlt : i < w.steps.length := (List.getElem?_eq_some_iff.1 hi).1
  have hlast : w.steps.length - 1 = i := by omega
  rw [List.getLast?_eq_getElem?, hlast, hi]

theorem mem_of_idAfter {id : String} (h : w.idAfter s = some id) : ∃ t ∈ w.steps, t.id = id := by
  obtain ⟨t, ht, rfl⟩ := Option.map_eq_some_iff.1 h
  obtain ⟨i, -, ht⟩ := Option.bind_eq_some_iff.1 ht
  exact ⟨t, List.mem_of_getElem? ht, rfl⟩

namespace Redrawn

theorem stepById?_eq (h : w.Redrawn g) (id : String) :
    g.stepById? id = (w.stepById? id).map w.converted := by
  unfold Workflow.stepById?
  split
  · rfl
  · simp only [h.steps, List.find?_map, Function.comp_def, converted_id]

theorem stepByTitle?_eq (h : w.Redrawn g) (title : String) :
    g.stepByTitle? title = (w.stepByTitle? title).map w.converted := by
  unfold Workflow.stepByTitle?
  split
  · rfl
  · simp only [h.steps, List.find?_map, Function.comp_def, converted_title]
    cases w.steps.find? (·.title == title) <;> rfl

theorem resolve?_eq (h : w.Redrawn g) (reference : String) :
    g.resolve? reference = (w.resolve? reference).map w.converted := by
  simp only [Workflow.resolve?, h.stepById?_eq, h.stepByTitle?_eq]
  cases w.stepById? reference <;> rfl

theorem resolve?_id (h : w.Redrawn g) (hn : w.Named) (hd : w.Distinct) (ht : t ∈ w.steps) :
    g.resolve? t.id = some (w.converted t) := by
  rw [h.resolve?_eq, Workflow.resolve?, stepById?_id (hn t ht) hd ht]
  rfl

variable {rs : Store}

theorem jumpRoute?_eq (h : w.Redrawn g) (hd : w.Distinct) (js : List Jump) :
    g.jumpRoute? (w.converted s) rs js =
      (w.jumpRoute? s rs js).map (Option.map fun r => { r with position := w.mirror r.position }) := by
  induction js with
  | nil => rfl
  | cons j js ih =>
    simp only [Workflow.jumpRoute?]
    split
    · next condition target _ _ =>
      split
      · exact ih
      · simp only [converted_jumpHolds]
        cases s.jumpHolds condition rs with
        | error e => rfl
        | ok holds =>
          cases holds with
          | false => exact ih
          | true =>
            cases ht : w.resolve? target with
            | none => simpa [h.resolve?_eq, ht, bind, Except.bind] using ih
            | some t =>
              have hplace : g.positionOf (w.converted t) = w.mirror (w.positionOf t) := by
                rw [mirror_positionOf hd h.linear (mem_of_resolve? ht)]
                simp [positionOf, h.graph]
              simp [h.resolve?_eq, ht, hplace, bind, Except.bind, pure, Except.pure, Except.map]
    · exact ih

theorem transitionRoute_edge (h : w.Redrawn g) (hn : w.Named) (hd : w.Distinct) (ht : t ∈ w.steps)
    (condition : Option String) (label : String) (rest : List Transition) :
    g.transitionRoute rs (edge t.id condition label :: rest) = (do
      if ← (edge t.id condition label).satisfied rs then
        pure ⟨.node t.id, some ("routing to " ++ t.id), condition⟩
      else g.transitionRoute rs rest) := by
  have hid : t.id.isEmpty = false := by simpa using hn t ht
  simp [transitionRoute, edge, hid, h.resolve?_id hn hd ht]

theorem transitionRoute_onward (h : w.Redrawn g) (hn : w.Named) (hd : w.Distinct)
    (hs : s ∈ w.steps) (label : String) :
    (g.transitionRoute rs ((w.idAfter s).map (edge · none label)).toList).map (·.position) =
      .ok (w.mirror (w.sequential s .linear)) := by
  rw [mirror_sequential hd hs]
  cases hnext : w.idAfter s with
  | none => rfl
  | some id =>
    obtain ⟨t, ht, rfl⟩ := mem_of_idAfter hnext
    simp only [Option.map_some, Option.toList_some, h.transitionRoute_edge hn hd ht]
    rfl

theorem branchEdge_eq (h : w.Redrawn g) (hd : w.Distinct) (hs : s ∈ w.steps) {b : Branch}
    {condition : String} (hc : b.condition.filter (!·.isEmpty) = some condition)
    (hclean : problemOf? (branchEdge w s (w.idAfter s) b) = none)
    (hopen : w.idAfter s = none → b.isOpen = false) :
    ∃ t ∈ w.steps,
      edgeOf? (branchEdge w s (w.idAfter s) b) =
        some (edge t.id (some condition) ("If " ++ condition)) ∧
      ∀ reason branch, w.mirror (w.routeTo .linear s b.target reason branch).position =
        .node t.id := by
  cases htarget : b.target with
  | none =>
    cases hnext : w.idAfter s with
    | none =>
      obtain ⟨hb, hne⟩ := Option.filter_eq_some_iff.1 hc
      simp only [Branch.isOpen, hb, htarget, Option.any_some, hne] at hopen
      exact absurd (hopen hnext) (by decide)
    | some id =>
      obtain ⟨t, ht, rfl⟩ := mem_of_idAfter hnext
      refine ⟨t, ht, by simp [branchEdge, hc, htarget, edgeOf?], fun reason branch => ?_⟩
      simp [routeTo, target?, mirror_sequential hd hs, hnext]
  | some target =>
    cases ht : w.resolve? target with
    | none => simp [branchEdge, hc, htarget, ht, problemOf?] at hclean
    | some t =>
      have hmem := mem_of_resolve? ht
      refine ⟨t, hmem, by simp [branchEdge, hc, htarget, ht, edgeOf?], fun reason branch => ?_⟩
      simp [routeTo, target?, ht, mirror_positionOf hd h.linear hmem]

theorem transitionRoute_branches (h : w.Redrawn g) (hn : w.Named) (hd : w.Distinct)
    (hs : s ∈ w.steps) (last : List Transition) {bs : List Branch}
    (hclean : ∀ b ∈ bs, problemOf? (branchEdge w s (w.idAfter s) b) = none)
    (hopen : w.idAfter s = none → ∀ b ∈ bs, b.isOpen = false) :
    (g.transitionRoute rs
      ((bs.map (branchEdge w s (w.idAfter s))).filterMap edgeOf? ++ last)).map (·.position) = (do
        match ← firstBranch? rs bs with
        | some (condition, b) => pure (w.mirror (w.routeTo .linear s b.target
            ("matched: " ++ condition) (some condition)).position)
        | none => (g.transitionRoute rs last).map (·.position)) := by
  -- A branch that counts has left one edge, with the same condition; any other has left none.
  induction bs with
  | nil => rfl
  | cons b bs ih =>
    have hrest := ih (fun c hc => hclean c (List.mem_cons_of_mem _ hc))
      fun hnext c hc => hopen hnext c (List.mem_cons_of_mem _ hc)
    cases hc : b.condition.filter (!·.isEmpty) with
    | none =>
      have hedge : edgeOf? (branchEdge w s (w.idAfter s) b) = none := by
        simp [branchEdge, hc, edgeOf?]
      rw [List.map_cons, List.filterMap_cons, hedge, firstBranch?_cons, hc]
      exact hrest
    | some condition =>
      obtain ⟨t, ht, hedge, hroute⟩ := h.branchEdge_eq hd hs hc (hclean b List.mem_cons_self)
        fun hnext => hopen hnext b List.mem_cons_self
      rw [List.map_cons, List.filterMap_cons, hedge, firstBranch?_cons, hc, List.cons_append,
        h.transitionRoute_edge hn hd ht]
      simp only [Transition.satisfied, edge]
      cases Condition.holds condition rs with
      | error e => rfl
      | ok holds =>
        cases holds with
        | true => simp [bind, Except.bind, pure, Except.pure, Except.map, hroute]
        | false => exact hrest

theorem transitionRoute_last (h : w.Redrawn g) (hn : w.Named) (hd : w.Distinct)
    (hs : s ∈ w.steps) {d : Decision} (hclean : (elseEdge w s (w.idAfter s) d).1 = [])
    (rs : Store) :
    (g.transitionRoute rs (elseEdge w s (w.idAfter s) d).2).map (·.position) =
      .ok (w.mirror (w.otherwise s d)) := by
  unfold otherwise
  cases hc : d.elseTarget.filter (!·.isEmpty) with
  | none =>
    simp only [elseEdge, hc]
    exact h.transitionRoute_onward hn hd hs "Default"
  | some target =>
    cases ht : w.resolve? target with
    | none => simp [elseEdge, hc, ht] at hclean
    | some t =>
      have hmem := mem_of_resolve? ht
      simp only [elseEdge, hc, ht, h.transitionRoute_edge hn hd hmem, routeTo, target?]
      rw [mirror_positionOf hd h.linear hmem]
      rfl

theorem converted_transitions {d : Decision} (hb : s.body = .decision d) :
    (w.converted s).transitions =
      (d.branches.map (branchEdge w s (w.idAfter s))).filterMap edgeOf? ++
        (elseEdge w s (w.idAfter s) d).2 := by
  simp [converted, step, hb]

theorem clean_decision (h : w.Redrawn g) (hs : s ∈ w.steps) {d : Decision}
    (hb : s.body = .decision d) :
    (∀ b ∈ d.branches, problemOf? (branchEdge w s (w.idAfter s) b) = none) ∧
      (elseEdge w s (w.idAfter s) d).1 = [] := by
  have hproblems : (d.branches.map (branchEdge w s (w.idAfter s))).filterMap problemOf? ++
      (elseEdge w s (w.idAfter s) d).1 = [] := by
    have hclean := h.clean s hs
    simpa only [step, hb] using hclean
  obtain ⟨hbranches, helse⟩ := List.append_eq_nil_iff.1 hproblems
  refine ⟨fun b hmem => ?_, helse⟩
  exact List.filterMap_eq_nil_iff.1 hbranches _ (List.mem_map_of_mem hmem)

/-- A decision routes by its branches and its else target, its redrawn form by edges alone. -/
theorem decisionRoute_eq (h : w.Redrawn g) (hn : w.Named) (hd : w.Distinct) (hc : w.EndsClosed)
    (hs : s ∈ w.steps) {d : Decision} (hb : s.body = .decision d) (rs : Store) :
    (g.transitionRoute rs (w.converted s).transitions).map (·.position) =
      (w.decisionRoute .linear s d rs).map (w.mirror ·.position) := by
  obtain ⟨hclean, helse⟩ := h.clean_decision hs hb
  have hopen : w.idAfter s = none → ∀ b ∈ d.branches, b.isOpen = false := by
    -- Only the last step has no step after it.
    intro hnext b hmem
    have hany := hc s d (getLast?_of_idAfter hd hs hnext) hb
    simpa using List.any_eq_false.1 hany b hmem
  rw [converted_transitions hb, h.transitionRoute_branches hn hd hs _ hclean hopen, decisionRoute]
  cases firstBranch? rs d.branches with
  | error e => rfl
  | ok first =>
    cases first with
    | some found => rfl
    | none =>
      have hlast := h.transitionRoute_last hn hd hs helse rs
      simp only [bind, Except.bind, hlast, otherwise]
      cases d.elseTarget.filter (!·.isEmpty) <;> rfl

theorem fallback_eq (h : w.Redrawn g) (hn : w.Named) (hd : w.Distinct) (hs : s ∈ w.steps)
    (hb : ∀ d, s.body ≠ .decision d) (hr : s.isResolve = false) (rs : Store) :
    (g.fallback .graph (w.converted s) rs).map (·.position) =
      (w.fallback .linear s rs).map (w.mirror ·.position) := by
  have hedges : (w.converted s).transitions =
      ((w.idAfter s).map (edge · none "Continue")).toList := by
    cases hbody : s.body with
    | decision d => exact absurd hbody (hb d)
    | resolve r => simp [Step.isResolve, hbody] at hr
    | _ => simp [converted, step, hbody]
  simp only [fallback, hedges]
  exact h.transitionRoute_onward hn hd hs "Continue"

theorem nextRoute_decision (h : w.Redrawn g) (hd : w.Distinct) {d : Decision}
    (hb : s.body = .decision d) (rs : Store) :
    (g.nextRoute .graph (w.converted s) rs).map (·.position) = (do
      match ← w.jumpRoute? s rs s.jumps with
      | some route => pure (w.mirror route.position)
      | none => (g.transitionRoute rs (w.converted s).transitions).map (·.position)) := by
  simp only [nextRoute, converted_jumps, h.jumpRoute?_eq hd]
  cases w.jumpRoute? s rs s.jumps with
  | error e => rfl
  | ok jumped =>
    cases jumped with
    | some route => rfl
    | none =>
      simp only [bind, Except.bind, Except.map, Option.map_none, converted_decision w s hb]
      cases hg : g.transitionRoute rs (w.converted s).transitions <;>
        simp [decisionRoute, firstBranch?, fallback, hg, bind, Except.bind, pure, Except.pure]

theorem nextRoute_eq (h : w.Redrawn g) (hn : w.Named) (hd : w.Distinct) (hc : w.EndsClosed)
    (hs : s ∈ w.steps) (hr : s.isResolve = false) (rs : Store) :
    (g.nextRoute .graph (w.converted s) rs).map (·.position) =
      (w.nextRoute .linear s rs).map (w.mirror ·.position) := by
  cases hb : s.body with
  | decision d =>
    rw [h.nextRoute_decision hd hb, h.decisionRoute_eq hn hd hc hs hb]
    simp only [nextRoute, hb]
    cases w.jumpRoute? s rs s.jumps with
    | error e => rfl
    | ok jumped => cases jumped <;> rfl
  | _ =>
    have hbody := converted_body w s (by simp [hb])
    have hroute := h.fallback_eq hn hd hs (by simp [hb]) hr rs
    simp only [nextRoute, converted_jumps, h.jumpRoute?_eq hd, hbody, hb]
    cases w.jumpRoute? s rs s.jumps with
    | error e => rfl
    | ok jumped =>
      cases jumped with
      | some route => rfl
      | none => exact hroute

end Redrawn

end Workflow
end Runbook
