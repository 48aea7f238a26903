import Runbook.Proofs.ConvertedRuns
import Runbook.Proofs.CheckedRoutes

/-! Where the last step of a sequence is a decision. A branch of it that names no target ends the
run; the graph has no edge that says so, and the ways out behind the branch take its place. -/
namespace Runbook
open Conversion

namespace Decision

/-- The first branch that applies names no target. -/
def EndsOpen (d : Decision) (rs : Store) : Prop :=
  ∃ b, First (Branch.applies rs) d.branches b ∧ b.target = none

/-- A branch that names its target applies, or an else target is given. -/
def HasWayOut (d : Decision) (rs : Store) : Prop :=
  (∃ b ∈ d.branches, b.target.isSome = true ∧ b.applies rs = .ok true) ∨
    (Check.given? d.elseTarget).isSome = true

theorem hasWayOut_iff {d : Decision} {rs : Store} (h : ∀ b ∈ d.branches, b.target.isSome = true →
    b.applies rs = .ok false) : d.HasWayOut rs ↔ (Check.given? d.elseTarget).isSome = true := by
  refine ⟨?_, .inr⟩
  rintro (⟨b, hb, htarget, happlies⟩ | helse)
  · cases happlies.symm.trans (h b hb htarget)
  · exact helse

end Decision

namespace Branch
variable {b : Branch} {rs : Store}

theorem given_of_applies (h : b.applies rs = .ok true) :
    ∃ condition, Check.given? b.condition = some condition := by
  cases hc : Check.given? b.condition with
  | none => simp [applies, hc] at h
  | some condition => exact ⟨condition, rfl⟩

theorem isOpen_of_applies (h : b.applies rs = .ok true) : b.isOpen = b.target.isNone := by
  obtain ⟨condition, hc⟩ := given_of_applies h
  obtain ⟨hcondition, hne⟩ := Check.given?_eq_some.1 hc
  simp [isOpen, hcondition, hne]

theorem closed_of_target (h : b.target.isSome = true) : b.isOpen = false := by
  obtain ⟨target, htarget⟩ := Option.isSome_iff_exists.1 h
  simp [isOpen, htarget]

end Branch

theorem Conversion.edges_closed (w : Workflow) (s : Step) (bs : List Branch) :
    (bs.map (branchEdge w s none)).filterMap edgeOf? =
      ((bs.filter (!·.isOpen)).map (branchEdge w s none)).filterMap edgeOf? := by
  induction bs with
  | nil => rfl
  | cons b bs ih =>
    cases hopen : b.isOpen with
    | false =>
      rw [List.filter_cons_of_pos (by simp [hopen])]
      simp only [List.map_cons, List.filterMap_cons, ih]
    | true =>
      simp only [Branch.isOpen, Bool.and_eq_true, Option.isNone_iff_eq_none] at hopen
      have hedge : edgeOf? (branchEdge w s none b) = none := by
        unfold branchEdge
        split
        · rfl
        · simp [hopen.2, edgeOf?]
      simp [Branch.isOpen, hopen.1, hopen.2, hedge, ih]

namespace Workflow
variable {w g : Workflow} {s t : Step} {d : Decision} {rs : Store} {route route' : Route}
  {p : Position}

theorem idAfter_of_getLast? (hd : w.Distinct) (hs : w.steps.getLast? = some s) :
    w.idAfter s = none := by
  rw [List.getLast?_eq_getElem?] at hs
  have hlt := (List.getElem?_eq_some_iff.1 hs).1
  rw [idAfter_eq hd hs, Option.map_eq_none_iff, List.getElem?_eq_none_iff]
  omega

namespace Redrawn

theorem isPastEnd_iff (h : w.Redrawn g) (hroute : w.nextRoute w.strategy s rs = .ok route) :
    w.isPastEnd route.position = true ↔ w.mirror route.position = .nowhere := by
  obtain ⟨i, -, hi⟩ := (nextRoute_leads hroute).within h.linear
  rw [hi, ← h.isPastEnd_mirror, mirror_index]
  cases w.steps[i]? <;> simp [isPastEnd, h.graph]

theorem mirror_branch (h : w.Redrawn g) (hd : w.Distinct) (hs : s ∈ w.steps) {b : Branch}
    (hclean : problemOf? (branchEdge w s (w.idAfter s) b) = none)
    (happlies : b.applies rs = .ok true) (htarget : b.target.isSome = true) :
    ∃ id, ∀ reason branch,
      w.mirror (w.routeTo .linear s b.target reason branch).position = .node id := by
  obtain ⟨condition, hc⟩ := Branch.given_of_applies happlies
  obtain ⟨u, -, -, hplace⟩ :=
    h.branchEdge_eq hd hs hc hclean fun _ => Branch.closed_of_target htarget
  exact ⟨u.id, hplace⟩

theorem mirror_otherwise (h : w.Redrawn g) (hd : w.Distinct) (hs : s ∈ w.steps)
    (hnext : w.idAfter s = none) (hclean : (elseEdge w s (w.idAfter s) d).1 = []) :
    w.mirror (w.otherwise s d) = .nowhere ↔ ¬(Check.given? d.elseTarget).isSome = true := by
  cases hc : d.elseTarget.filter (!·.isEmpty) with
  | none => simp [otherwise, mirror_sequential hd hs, hnext, Check.given?, hc]
  | some target =>
    cases ht : w.resolve? target with
    | none => simp [elseEdge, hc, ht] at hclean
    | some t =>
      simp [otherwise, routeTo, target?, ht,
        mirror_positionOf hd h.linear (mem_of_resolve? ht), Check.given?, hc]

theorem transitionRoute_closing (h : w.Redrawn g) (hn : w.Named) (hd : w.Distinct)
    (hs : s ∈ w.steps) (hb : s.body = .decision d) (hnext : w.idAfter s = none)
    (hr : (g.transitionRoute rs (w.converted s).transitions).map (·.position) = .ok p) :
    p = .nowhere ↔ ¬d.HasWayOut rs := by
  obtain ⟨hclean, helse⟩ := h.clean_decision hs hb
  have hclosed : ∀ b ∈ d.branches.filter (!·.isOpen), b ∈ d.branches ∧ b.isOpen = false := by
    simp
  -- The edges are those of the closed branches alone.
  have hedges := converted_transitions (w := w) hb
  rw [hnext, edges_closed, ← hnext] at hedges
  rw [hedges, h.transitionRoute_branches hn hd hs _ (fun b hb => hclean b (hclosed b hb).1)
    fun _ b hb => (hclosed b hb).2] at hr
  obtain ⟨first, hfirst, hr⟩ := bind_eq_ok.1 hr
  cases first with
  | some found =>
    obtain ⟨condition, b⟩ := found
    have hb := (firstBranch?_first hfirst).2
    obtain ⟨hmem, hopen⟩ := hclosed b hb.mem
    have htarget : b.target.isSome = true := by
      simpa [hopen] using Branch.isOpen_of_applies hb.holds
    have hway : d.HasWayOut rs := .inl ⟨b, hmem, htarget, hb.holds⟩
    obtain ⟨id, hplace⟩ := h.mirror_branch hd hs (hclean b hmem) hb.holds htarget
    simp only [hplace] at hr
    cases hr
    simpa using hway
  | none =>
    have hskip : ∀ b ∈ d.branches, b.target.isSome = true → b.applies rs = .ok false := by
      intro b hmem htarget
      exact firstBranch?_none hfirst b (by simp [hmem, Branch.closed_of_target htarget])
    simp only [h.transitionRoute_last hn hd hs helse] at hr
    cases hr
    rw [Decision.hasWayOut_iff hskip, ← h.mirror_otherwise hd hs hnext helse]

theorem decisionRoute_closing (h : w.Redrawn g) (hd : w.Distinct) (hs : s ∈ w.steps)
    (hb : s.body = .decision d) (hnext : w.idAfter s = none)
    (hl : w.decisionRoute .linear s d rs = .ok route) :
    w.mirror route.position = .nowhere ↔ d.EndsOpen rs ∨ ¬d.HasWayOut rs := by
  obtain ⟨hclean, helse⟩ := h.clean_decision hs hb
  obtain ⟨first, hfirst, hl⟩ := bind_eq_ok.1 hl
  cases first with
  | some found =>
    obtain ⟨condition, b⟩ := found
    have hb := (firstBranch?_first hfirst).2
    cases hl
    cases htarget : b.target with
    | none =>
      have hopen : d.EndsOpen rs := ⟨b, hb, htarget⟩
      simp [routeTo, target?, mirror_sequential hd hs, hnext, hopen]
    | some target =>
      have hsome : b.target.isSome = true := by simp [htarget]
      have hway : d.HasWayOut rs := .inl ⟨b, hb.mem, hsome, hb.holds⟩
      have hopen : ¬d.EndsOpen rs := by
        rintro ⟨c, hc, hnone⟩
        cases hc.unique hb
        cases htarget.symm.trans hnone
      obtain ⟨id, hplace⟩ := h.mirror_branch hd hs (hclean b hb.mem) hb.holds hsome
      rw [← htarget, hplace]
      simp [hway, hopen]
  | none =>
    have hskip := firstBranch?_none hfirst
    have hopen : ¬d.EndsOpen rs := by
      rintro ⟨b, hb, -⟩
      cases hb.holds.symm.trans (hskip b hb.mem)
    rw [Decision.hasWayOut_iff fun b hmem _ => hskip b hmem,
      ← h.mirror_otherwise hd hs hnext helse, or_iff_right hopen]
    unfold otherwise
    cases htarget : d.elseTarget.filter (!·.isEmpty) <;>
      simp only [htarget] at hl <;> cases hl <;> rfl

end Redrawn

/-- A sequence and its graph end the run alike at a decision that stands last, unless no jump is
taken, the first branch that applies names no target, and another way out has one: then the
sequence ends the run, and the graph goes that way. -/
theorem toGraph_ends_iff (hn : w.Named) (hd : w.Distinct) (hw : w.isGraph = false)
    (hg : w.toGraph = .ok g) (hs : w.steps.getLast? = some s) (ht : g.steps.getLast? = some t)
    (hb : s.body = .decision d) (hl : w.nextRoute w.strategy s rs = .ok route)
    (hr : g.nextRoute g.strategy t rs = .ok route') :
    (route'.position = .nowhere ↔ w.isPastEnd route.position = true) ↔
      ¬(w.jumpRoute? s rs s.jumps = .ok none ∧ d.EndsOpen rs ∧ d.HasWayOut rs) := by
  have h := redrawn_of_toGraph hd hw hg
  have hmem := List.mem_of_getLast? hs
  have hnext := idAfter_of_getLast? hd hs
  have ht : t = w.converted s := by
    rw [h.steps, List.getLast?_map, hs] at ht
    exact (Option.some.inj ht).symm
  subst ht
  rw [h.isPastEnd_iff hl]
  rw [strategy_linear hw] at hl
  rw [strategy_graph h.graph] at hr
  have hgraph := congrArg (Except.map (·.position)) hr
  rw [h.nextRoute_decision hd hb] at hgraph
  obtain ⟨jumped, hjumped, hgraph⟩ := bind_eq_ok.1 hgraph
  simp only [nextRoute, hjumped, hb] at hl
  cases jumped with
  | some jump =>
    cases hl
    have hplace : w.mirror route.position = route'.position := Except.ok.inj hgraph
    simp [hjumped, hplace]
  | none =>
    rw [h.transitionRoute_closing hn hd hmem hb hnext hgraph,
      h.decisionRoute_closing hd hmem hb hnext hl]
    by_cases hopen : d.EndsOpen rs <;> simp [hjumped, hopen]

def closing : Workflow :=
  ⟨"closing", "", false, none,
    [⟨"ask", "Ready?", none, [⟨some "yes", some "check"⟩], [],
        .question ⟨none, some "ready", "text", []⟩, []⟩,
      ⟨"fixed", "Fixed", none, [], [], .resolve ⟨none, none, false, false⟩, []⟩,
      ⟨"check", "Check", none, [], [],
        .decision ⟨false, [⟨some "ready == 'yes'", none⟩], some "ask"⟩, []⟩]⟩

theorem closing_routes :
    ∃ route route' : Route,
      closing.nextRoute .linear closing.steps[2] [(.text "ready", .text "yes")] = .ok route ∧
      closing.drawn.nextRoute .graph (closing.converted closing.steps[2])
        [(.text "ready", .text "yes")] = .ok route' ∧
      closing.isPastEnd route.position = true ∧
      closing.drawn.isPastEnd route'.position = false := by
  have hl : (closing.nextRoute .linear closing.steps[2]
      [(.text "ready", .text "yes")]).map (closing.isPastEnd ·.position) = .ok true := by
    decide +kernel
  have hr : (closing.drawn.nextRoute .graph (closing.converted closing.steps[2])
      [(.text "ready", .text "yes")]).map (closing.drawn.isPastEnd ·.position) = .ok false := by
    decide +kernel
  cases hroute : closing.nextRoute .linear closing.steps[2] [(.text "ready", .text "yes")] with
  | error e => simp [hroute, Except.map] at hl
  | ok route =>
    cases hroute' : closing.drawn.nextRoute .graph (closing.converted closing.steps[2])
        [(.text "ready", .text "yes")] with
    | error e => simp [hroute', Except.map] at hr
    | ok route' =>
      rw [hroute] at hl
      rw [hroute'] at hr
      exact ⟨route, route', rfl, rfl, Except.ok.inj hl, Except.ok.inj hr⟩

theorem toGraph_ends_iff_closing :
    ∃ route route' : Route,
      closing.nextRoute .linear closing.steps[2] [(.text "ready", .text "yes")] = .ok route ∧
      closing.drawn.nextRoute .graph (closing.converted closing.steps[2])
        [(.text "ready", .text "yes")] = .ok route' ∧
      ¬(route'.position = .nowhere ↔ closing.isPastEnd route.position = true) := by
  have hopen : First (Branch.applies [(.text "ready", .text "yes")])
      [⟨some "ready == 'yes'", none⟩] ⟨some "ready == 'yes'", none⟩ :=
    First.here (by decide +kernel)
  obtain ⟨route, route', hl, hr, -, -⟩ := closing_routes
  refine ⟨route, route', hl, hr, ?_⟩
  rw [toGraph_ends_iff (by decide) (by decide) rfl rfl rfl rfl rfl hl hr]
  exact not_not_intro ⟨rfl, ⟨_, hopen, rfl⟩, .inr rfl⟩

/-- A sequence and its graph need not end the run alike. -/
theorem not_toGraph_ends :
    ¬∀ (w g : Workflow) (s t : Step) (d : Decision) (rs : Store) (route route' : Route),
      w.Named → w.Distinct → w.isGraph = false → w.toGraph = .ok g →
      w.steps.getLast? = some s → g.steps.getLast? = some t → s.body = .decision d →
      w.nextRoute w.strategy s rs = .ok route → g.nextRoute g.strategy t rs = .ok route' →
      (route'.position = .nowhere ↔ w.isPastEnd route.position = true) := by
  intro h
  obtain ⟨route, route', hl, hr, hpast, hinside⟩ := closing_routes
  have hend := (h closing closing.drawn closing.steps[2] _ _ _ route route' (by decide) (by decide)
    rfl rfl rfl rfl rfl hl hr).2 hpast
  rw [hend] at hinside
  cases hinside

end Workflow
end Runbook
