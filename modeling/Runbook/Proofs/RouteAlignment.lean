import Runbook.Route

/-! Workflows that route alike. Of the other steps only their ids and titles have a part in where a
reference leads, and of a decision only what its branches and its else target come to. -/
namespace Runbook

/-- The same body, or two decisions that choose alike. -/
inductive Body.Alike : Body → Body → Prop where
  | same (b : Body) : Alike b b
  | decision {d e : Decision} :
      (∀ rs, Workflow.firstBranch? rs d.branches = Workflow.firstBranch? rs e.branches) →
      d.elseTarget = e.elseTarget → Alike (.decision d) (.decision e)

namespace Step

/-- What references find a step by: its id and its title. -/
def handle (s : Step) : String × String := (s.id, s.title)

/-- Steps that differ in nothing that routing looks at. -/
structure Alike (s t : Step) : Prop where
  handle : s.handle = t.handle
  jumps : s.jumps = t.jumps
  transitions : s.transitions = t.transitions
  body : s.body.Alike t.body

variable {s t : Step}

theorem Alike.refl (s : Step) : s.Alike s := ⟨rfl, rfl, rfl, .same _⟩

theorem Alike.id_eq (h : s.Alike t) : s.id = t.id := congrArg Prod.fst h.handle

theorem Alike.title_eq (h : s.Alike t) : s.title = t.title := congrArg Prod.snd h.handle

theorem Alike.jumpHolds_eq (h : s.Alike t) : s.jumpHolds = t.jumpHolds := by
  have htitle := h.title_eq
  have hbody := h.body
  obtain ⟨_, title, _, _, _, body, _⟩ := s
  obtain ⟨_, title', _, _, _, body', _⟩ := t
  obtain rfl : title = title' := htitle
  cases hbody <;> rfl

theorem handle_cases {o p : Option Step} (h : o.map handle = p.map handle) :
    (o = none ∧ p = none) ∨ ∃ s t, o = some s ∧ p = some t ∧ s.handle = t.handle := by
  cases o with
  | none => exact .inl ⟨rfl, Option.map_eq_none_iff.1 h.symm⟩
  | some s =>
    obtain ⟨t, ht, hts⟩ := Option.map_eq_some_iff.1 h.symm
    exact .inr ⟨s, t, rfl, ht, hts.symm⟩

end Step

namespace Workflow

/-- Workflows in one mode whose steps have the same handles, in the same order. -/
structure Aligned (w v : Workflow) : Prop where
  mode : w.isGraph = v.isGraph
  handles : w.steps.map Step.handle = v.steps.map Step.handle

theorem stepByTitle?_eq_or (w : Workflow) (title : String) : w.stepByTitle? title =
    if title.isEmpty then none
    else (w.steps.find? (·.title == title)).or
      (w.steps.find? fun s => Text.lower s.title == Text.lower title) := by
  unfold stepByTitle?
  cases w.steps.find? (·.title == title) <;> rfl

theorem resolve?_eq_or (w : Workflow) (reference : String) :
    w.resolve? reference = (w.stepById? reference).or (w.stepByTitle? reference) := by
  unfold resolve?
  cases w.stepById? reference <;> rfl

namespace Aligned
variable {w v : Workflow} {s t : Step} {rs : Store}

theorem find?_handle (h : w.Aligned v) (p : String × String → Bool) :
    (w.steps.find? (p ·.handle)).map Step.handle =
      (v.steps.find? (p ·.handle)).map Step.handle := by
  have hfind := congrArg (List.find? p) h.handles
  rwa [List.find?_map, List.find?_map] at hfind

theorem stepById?_handle (h : w.Aligned v) (id : String) :
    (w.stepById? id).map Step.handle = (v.stepById? id).map Step.handle := by
  unfold stepById?
  split
  · rfl
  · exact h.find?_handle (·.1 == id)

theorem stepByTitle?_handle (h : w.Aligned v) (title : String) :
    (w.stepByTitle? title).map Step.handle = (v.stepByTitle? title).map Step.handle := by
  have hexact : (w.steps.find? (·.title == title)).map Step.handle =
      (v.steps.find? (·.title == title)).map Step.handle := h.find?_handle (·.2 == title)
  have hlower : (w.steps.find? fun s => Text.lower s.title == Text.lower title).map Step.handle =
      (v.steps.find? fun s => Text.lower s.title == Text.lower title).map Step.handle :=
    h.find?_handle fun handle => Text.lower handle.2 == Text.lower title
  rw [stepByTitle?_eq_or, stepByTitle?_eq_or]
  split
  · rfl
  · rw [Option.map_or, Option.map_or, hexact, hlower]

theorem resolve?_handle (h : w.Aligned v) (reference : String) :
    (w.resolve? reference).map Step.handle = (v.resolve? reference).map Step.handle := by
  rw [resolve?_eq_or, resolve?_eq_or, Option.map_or, Option.map_or, h.stepById?_handle,
    h.stepByTitle?_handle]

theorem target?_handle (h : w.Aligned v) (reference : Option String) :
    (w.target? reference).map Step.handle = (v.target? reference).map Step.handle := by
  cases reference with
  | none => rfl
  | some reference => exact h.resolve?_handle reference

theorem indexOf?_eq (h : w.Aligned v) (id : String) : w.indexOf? id = v.indexOf? id := by
  have hfind := congrArg (List.findIdx? (·.1 == id)) h.handles
  rwa [List.findIdx?_map, List.findIdx?_map] at hfind

theorem length_eq (h : w.Aligned v) : w.steps.length = v.steps.length := by
  have hlength := congrArg List.length h.handles
  rwa [List.length_map, List.length_map] at hlength

theorem positionOf_eq (h : w.Aligned v) (hst : s.handle = t.handle) :
    w.positionOf s = v.positionOf t := by
  have hid : s.id = t.id := congrArg Prod.fst hst
  unfold positionOf
  rw [h.mode, hid, h.indexOf?_eq]

theorem sequential_eq (h : w.Aligned v) (hst : s.Alike t) (strategy : Strategy) :
    w.sequential s strategy = v.sequential t strategy := by
  cases strategy with
  | linear => simp only [sequential, hst.id_eq, h.indexOf?_eq, h.length_eq]
  | graph =>
    have hfirst : ((t.transitions.filter (·.isDefault)).findSome? fun e => w.target? e.target).map
        Step.handle = ((t.transitions.filter (·.isDefault)).findSome? fun e =>
          v.target? e.target).map Step.handle := by
      rw [List.map_findSome?, List.map_findSome?]
      exact congrArg (List.findSome? · _) (funext fun e => h.target?_handle e.target)
    simp only [sequential, hst.transitions]
    obtain ⟨hw, hv⟩ | ⟨a, b, hw, hv, hab⟩ := Step.handle_cases hfirst
    · rw [hw, hv]
    · rw [hw, hv]
      exact congrArg (Position.node ·.1) hab

theorem jumpRoute?_eq (h : w.Aligned v) (hst : s.Alike t) (js : List Jump) :
    w.jumpRoute? s rs js = v.jumpRoute? t rs js := by
  induction js with
  | nil => rfl
  | cons j js ih =>
    simp only [jumpRoute?, ih, hst.jumpHolds_eq]
    cases j.condition with
    | none => rfl
    | some condition =>
      cases j.target with
      | none => rfl
      | some target =>
        dsimp only
        obtain ⟨hw, hv⟩ | ⟨a, b, hw, hv, hab⟩ := Step.handle_cases (h.resolve?_handle target)
        · rw [hw, hv]
        · rw [hw, hv]
          simp only [h.positionOf_eq hab]

theorem transitionRoute_eq (h : w.Aligned v) (es : List Transition) :
    w.transitionRoute rs es = v.transitionRoute rs es := by
  induction es with
  | nil => rfl
  | cons e es ih =>
    simp only [transitionRoute, ih]
    cases e.target with
    | none => rfl
    | some target =>
      dsimp only
      obtain ⟨hw, hv⟩ | ⟨a, b, hw, hv, hab⟩ := Step.handle_cases (h.resolve?_handle target)
      · rw [hw, hv]
      · rw [hw, hv]
        have hid : a.id = b.id := congrArg Prod.fst hab
        simp only [hid]

theorem fallback_eq (h : w.Aligned v) (hst : s.Alike t) (strategy : Strategy) :
    w.fallback strategy s rs = v.fallback strategy t rs := by
  cases strategy with
  | linear => simp only [fallback, h.sequential_eq hst]
  | graph => simp only [fallback, hst.transitions, h.transitionRoute_eq]

theorem routeTo_eq (h : w.Aligned v) (hst : s.Alike t) (strategy : Strategy)
    (target : Option String) (reason : String) (branch : Option String) :
    w.routeTo strategy s target reason branch = v.routeTo strategy t target reason branch := by
  unfold routeTo
  obtain ⟨hw, hv⟩ | ⟨a, b, hw, hv, hab⟩ := Step.handle_cases (h.target?_handle target)
  · rw [hw, hv]
    simp only [h.sequential_eq hst]
  · rw [hw, hv]
    simp only [h.positionOf_eq hab]

theorem decisionRoute_eq (h : w.Aligned v) (hst : s.Alike t) (strategy : Strategy)
    {d e : Decision} (hfirst : firstBranch? rs d.branches = firstBranch? rs e.branches)
    (helse : d.elseTarget = e.elseTarget) :
    w.decisionRoute strategy s d rs = v.decisionRoute strategy t e rs := by
  simp only [decisionRoute, hfirst, helse, h.routeTo_eq hst, h.fallback_eq hst]

/-- Alike steps of aligned workflows have the same route, or the same failure. -/
theorem nextRoute_eq (h : w.Aligned v) (hst : s.Alike t) (strategy : Strategy) (rs : Store) :
    w.nextRoute strategy s rs = v.nextRoute strategy t rs := by
  have hfallback : w.fallback strategy s rs = v.fallback strategy t rs :=
    h.fallback_eq hst strategy
  simp only [nextRoute, hst.jumps, h.jumpRoute?_eq hst]
  have hbody := hst.body
  generalize s.body = b at hbody
  generalize t.body = c at hbody
  cases hbody with
  | same b =>
    cases b with
    | decision d => simp only [h.decisionRoute_eq hst strategy (d := d) rfl rfl]
    | _ => simp only [hfallback]
  | decision hfirst helse => simp only [h.decisionRoute_eq hst strategy (hfirst rs) helse]

end Aligned
end Workflow
end Runbook
