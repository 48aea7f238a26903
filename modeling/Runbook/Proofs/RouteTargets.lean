import Runbook.Proofs.StepPositions

/-! Routing over-approximated: the positions a step can lead to, whatever the results are. Each of
them is past the end or holds a step. -/
namespace Runbook

theorem bind_eq_ok {ε α β : Type} {x : Except ε α} {f : α → Except ε β} {b : β} :
    (x >>= f) = .ok b ↔ ∃ a, x = .ok a ∧ f a = .ok b := by
  cases x with
  | error e => exact ⟨nofun, fun ⟨a, ha, _⟩ => nomatch ha⟩
  | ok a => exact ⟨fun h => ⟨a, rfl, h⟩, fun ⟨_, ha, h⟩ => by cases ha; exact h⟩

namespace Workflow

/-- The ways out of a step: by a jump, by a branch or the else target of a decision, by a
transition in a graph, by the order of the steps in a sequence, or to the end of a graph. -/
inductive Leads (w : Workflow) (s : Step) : Position → Prop where
  | jump {j t} : j ∈ s.jumps → w.target? j.target = some t → Leads w s (w.positionOf t)
  | branch {d b t} : s.body = .decision d → b ∈ d.branches → w.target? b.target = some t →
      Leads w s (w.positionOf t)
  | otherwise {d t} : s.body = .decision d → w.target? d.elseTarget = some t →
      Leads w s (w.positionOf t)
  | transition {e t} : w.isGraph = true → e ∈ s.transitions → w.target? e.target = some t →
      Leads w s (.node t.id)
  | next : w.isGraph = false → Leads w s (w.sequential s .linear)
  | deadEnd : w.isGraph = true → Leads w s .nowhere

variable {w : Workflow} {s : Step} {rs : Store} {p : Position} {route : Route}

theorem strategy_linear (hg : w.isGraph = false) : w.strategy = .linear := by
  simp [strategy, hg]

theorem strategy_graph (hg : w.isGraph = true) : w.strategy = .graph := by
  simp [strategy, hg]

theorem mem_of_target? {reference : Option String} {t : Step}
    (h : w.target? reference = some t) : t ∈ w.steps := by
  cases reference with
  | none => cases h
  | some r => exact mem_of_resolve? h

theorem jumpRoute?_leads {js : List Jump} (hs : ∀ j ∈ js, j ∈ s.jumps)
    (h : w.jumpRoute? s rs js = .ok (some route)) : w.Leads s route.position := by
  induction js with
  | nil => cases h
  | cons j js ih =>
    have hrest := ih fun j hj => hs j (List.mem_cons_of_mem _ hj)
    simp only [jumpRoute?] at h
    split at h
    · next condition target _ htarget =>
      split at h
      · exact hrest h
      · obtain ⟨holds, -, h⟩ := bind_eq_ok.1 h
        split at h
        · split at h
          · next t ht =>
            cases h
            exact .jump (hs j List.mem_cons_self) (by simpa [target?, htarget] using ht)
          · exact hrest h
        · exact hrest h
    · exact hrest h

theorem transitionRoute_leads {es : List Transition} (hg : w.isGraph = true)
    (hs : ∀ e ∈ es, e ∈ s.transitions) (h : w.transitionRoute rs es = .ok route) :
    w.Leads s route.position := by
  induction es with
  | nil => cases h; exact .deadEnd hg
  | cons e es ih =>
    have hrest := ih fun e he => hs e (List.mem_cons_of_mem _ he)
    simp only [transitionRoute] at h
    split at h
    · exact hrest h
    · next target htarget =>
      split at h
      · exact hrest h
      · obtain ⟨holds, -, h⟩ := bind_eq_ok.1 h
        split at h
        · split at h
          · next t ht =>
            cases h
            exact .transition hg (hs e List.mem_cons_self) (by simpa [target?, htarget] using ht)
          · exact hrest h
        · exact hrest h

theorem sequential_leads (w : Workflow) (s : Step) : w.Leads s (w.sequential s w.strategy) := by
  cases hg : w.isGraph
  · rw [strategy_linear hg]
    exact .next hg
  · rw [strategy_graph hg]
    simp only [sequential]
    split
    · next t ht =>
      obtain ⟨e, he, ht⟩ := List.exists_of_findSome?_eq_some ht
      exact .transition hg (List.mem_filter.1 he).1 ht
    · exact .deadEnd hg

theorem fallback_leads (h : w.fallback w.strategy s rs = .ok route) : w.Leads s route.position := by
  cases hg : w.isGraph
  · rw [strategy_linear hg] at h
    cases h
    exact .next hg
  · rw [strategy_graph hg] at h
    exact transitionRoute_leads hg (fun _ he => he) h

theorem firstBranch?_cons (b : Branch) (bs : List Branch) :
    firstBranch? rs (b :: bs) =
      match b.condition.filter (!·.isEmpty) with
      | none => firstBranch? rs bs
      | some condition => (do
        if ← Condition.holds condition rs then pure (some (condition, b))
        else firstBranch? rs bs) := by
  cases hb : b.condition with
  | none => simp [firstBranch?, hb]
  | some condition => cases hc : condition.isEmpty <;> simp [firstBranch?, hb, hc, Option.filter]

theorem firstBranch?_mem {bs : List Branch} {condition : String} {b : Branch}
    (h : firstBranch? rs bs = .ok (some (condition, b))) : b ∈ bs := by
  induction bs with
  | nil => cases h
  | cons c bs ih =>
    simp only [firstBranch?] at h
    split at h
    · exact List.mem_cons_of_mem _ (ih h)
    · split at h
      · exact List.mem_cons_of_mem _ (ih h)
      · obtain ⟨holds, -, h⟩ := bind_eq_ok.1 h
        split at h
        · cases h; exact List.mem_cons_self
        · exact List.mem_cons_of_mem _ (ih h)

theorem decisionRoute_leads {d : Decision} (hs : s.body = .decision d)
    (h : w.decisionRoute w.strategy s d rs = .ok route) : w.Leads s route.position := by
  obtain ⟨first, hfirst, h⟩ := bind_eq_ok.1 h
  cases first with
  | some found =>
    cases h
    simp only [routeTo]
    split
    · next t ht => exact .branch hs (firstBranch?_mem hfirst) ht
    · exact sequential_leads w s
  | none =>
    simp only at h
    split at h
    · next target htarget =>
      cases h
      simp only [routeTo]
      split
      · next t ht => exact .otherwise hs (by rwa [(Option.filter_eq_some_iff.1 htarget).1])
      · exact sequential_leads w s
    · obtain ⟨onward, honward, h⟩ := bind_eq_ok.1 h
      have honward : w.Leads s onward.position := fallback_leads honward
      cases h
      exact honward

theorem nextRoute_leads (h : w.nextRoute w.strategy s rs = .ok route) : w.Leads s route.position := by
  obtain ⟨jumped, hjumped, h⟩ := bind_eq_ok.1 h
  cases jumped with
  | some r => cases h; exact jumpRoute?_leads (fun _ hj => hj) hjumped
  | none =>
    simp only at h
    split at h
    · next d hd => exact decisionRoute_leads hd h
    · exact fallback_leads h

theorem Leads.lands (hn : w.Named) (h : w.Leads s p) : w.Lands p := by
  cases h with
  | jump _ ht => exact lands_positionOf hn (mem_of_target? ht)
  | branch _ _ ht => exact lands_positionOf hn (mem_of_target? ht)
  | otherwise _ ht => exact lands_positionOf hn (mem_of_target? ht)
  | transition hg _ ht => exact lands_node hn hg (mem_of_target? ht)
  | next hg => exact lands_sequential s hg
  | deadEnd hg => exact .inl (by simp [isPastEnd])

end Workflow
end Runbook
