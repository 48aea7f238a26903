import Runbook.Route

/-! Positions of steps: which step a reference, an id or a position leads to, given that each has an
id, and what changes when no two steps share one. -/
namespace Runbook

/-- Every step has an id, as it has in all definitions that are read. -/
def Workflow.Named (w : Workflow) : Prop := ∀ s ∈ w.steps, s.id ≠ ""

/-- No two steps share an id. -/
def Workflow.Distinct (w : Workflow) : Prop := (w.steps.map (·.id)).Nodup

instance (w : Workflow) : Decidable w.Named :=
  inferInstanceAs (Decidable (∀ s ∈ w.steps, s.id ≠ ""))

instance (w : Workflow) : Decidable w.Distinct :=
  inferInstanceAs (Decidable (w.steps.map (·.id)).Nodup)

namespace Workflow
variable {w : Workflow} {s t : Step} {p : Position}

theorem stepById?_eq_some {id : String} (h : w.stepById? id = some s) : s ∈ w.steps ∧ s.id = id := by
  unfold stepById? at h
  split at h
  · cases h
  · exact ⟨List.mem_of_find?_eq_some h, by simpa using List.find?_some h⟩

theorem mem_of_stepByTitle? {title : String} (h : w.stepByTitle? title = some s) : s ∈ w.steps := by
  unfold stepByTitle? at h
  split at h
  · cases h
  · split at h
    · next t ht => cases h; exact List.mem_of_find?_eq_some ht
    · exact List.mem_of_find?_eq_some h

theorem mem_of_resolve? {reference : String} (h : w.resolve? reference = some s) : s ∈ w.steps := by
  unfold resolve? at h
  split at h
  · next t ht => cases h; exact (stepById?_eq_some ht).1
  · exact mem_of_stepByTitle? h

theorem isSome_stepById? (hn : w.Named) (hs : s ∈ w.steps) : (w.stepById? s.id).isSome := by
  have hid : s.id.isEmpty = false := by simpa using hn s hs
  simp only [stepById?, hid, Bool.false_eq_true, if_false, List.find?_isSome]
  exact ⟨s, hs, by simp⟩

theorem index_eq_of_id_eq {i j : Nat} (hd : w.Distinct) (hs : w.steps[i]? = some s)
    (ht : w.steps[j]? = some t) (h : s.id = t.id) : i = j := by
  have hi : i < (w.steps.map (·.id)).length := by simpa using (List.getElem?_eq_some_iff.1 hs).1
  refine (List.getElem?_inj hi hd).1 ?_
  simp [hs, ht, h]

theorem eq_of_id_eq (hd : w.Distinct) (hs : s ∈ w.steps) (ht : t ∈ w.steps) (h : s.id = t.id) :
    s = t := by
  obtain ⟨i, hi⟩ := List.getElem?_of_mem hs
  obtain ⟨j, hj⟩ := List.getElem?_of_mem ht
  have hij := index_eq_of_id_eq hd hi hj h
  subst hij
  exact Option.some.inj (hi.symm.trans hj)

theorem stepById?_id (hn : s.id ≠ "") (hd : w.Distinct) (hs : s ∈ w.steps) :
    w.stepById? s.id = some s := by
  have hid : s.id.isEmpty = false := by simpa using hn
  have hsome : (w.steps.find? (·.id == s.id)).isSome := List.find?_isSome.2 ⟨s, hs, by simp⟩
  obtain ⟨t, ht⟩ := Option.isSome_iff_exists.1 hsome
  have hid' : t.id = s.id := by simpa using List.find?_some ht
  rw [stepById?, hid, ht]
  simp [eq_of_id_eq hd (List.mem_of_find?_eq_some ht) hs hid']

theorem indexOf?_eq_some {i : Nat} (h : w.indexOf? s.id = some i) :
    ∃ t, w.steps[i]? = some t ∧ t.id = s.id := by
  obtain ⟨hi, ht, -⟩ := List.findIdx?_eq_some_iff_getElem.1 h
  exact ⟨w.steps[i], List.getElem?_eq_getElem hi, by simpa using ht⟩

theorem isSome_indexOf? (hs : s ∈ w.steps) : (w.indexOf? s.id).isSome := by
  rw [indexOf?, List.findIdx?_isSome]
  exact List.any_eq_true.2 ⟨s, hs, by simp⟩

theorem indexOf?_id {i : Nat} (hd : w.Distinct) (hs : w.steps[i]? = some s) :
    w.indexOf? s.id = some i := by
  obtain ⟨hi, rfl⟩ := List.getElem?_eq_some_iff.1 hs
  refine List.findIdx?_eq_some_iff_getElem.2 ⟨hi, by simp, fun j hj he => ?_⟩
  have hij : j = i := index_eq_of_id_eq hd (List.getElem?_eq_getElem (by omega)) hs (by simpa using he)
  omega

theorem stepAt?_index {n : Nat} (hg : w.isGraph = false) : w.stepAt? (.index n) = w.steps[n]? := by
  have hn : ¬(n : Int) < 0 := by omega
  simp [stepAt?, hg, hn]

theorem stepAt?_node {id : String} (hg : w.isGraph = true) :
    w.stepAt? (.node id) = w.stepById? id := by
  simp [stepAt?, hg]

theorem mem_of_stepAt? (h : w.stepAt? p = some s) : s ∈ w.steps := by
  cases p with
  | index n =>
    simp only [stepAt?] at h
    split at h
    · cases h
    · exact List.mem_of_getElem? h
  | node id =>
    simp only [stepAt?] at h
    split at h
    · exact (stepById?_eq_some h).1
    · cases h
  | nowhere => simp [stepAt?] at h
  | foreign v => simp [stepAt?] at h

theorem mem_of_start? (h : w.start? = some s) : s ∈ w.steps := by
  unfold start? at h
  split at h
  · next t ht =>
    cases h
    obtain ⟨id, -, ht⟩ := Option.bind_eq_some_iff.1 ht
    exact (stepById?_eq_some ht).1
  · exact List.mem_of_head? h

theorem steps_eq_nil (hn : w.Named) (h : w.stepAt? w.startPosition = none) : w.steps = [] := by
  cases hg : w.isGraph with
  | false =>
    have hzero : w.steps[0]? = none := by
      rw [← stepAt?_index hg]
      simpa [startPosition, hg] using h
    simpa using hzero
  | true =>
    cases hs : w.start? with
    | none =>
      unfold start? at hs
      split at hs
      · cases hs
      · simpa using hs
    | some s =>
      have hstart : w.startPosition = .node s.id := by simp [startPosition, hg, hs]
      have hsome := isSome_stepById? hn (mem_of_start? hs)
      rw [hstart, stepAt?_node hg] at h
      simp [h] at hsome

@[simp] theorem isPastEnd_endPosition (w : Workflow) : w.isPastEnd w.endPosition = true := by
  cases hg : w.isGraph <;> simp [endPosition, isPastEnd, hg]

theorem stepAt?_endPosition (w : Workflow) : w.stepAt? w.endPosition = none := by
  cases hg : w.isGraph with
  | true => simp [endPosition, hg, stepAt?]
  | false =>
    have hpast : ¬(w.steps.length : Int) < 0 := by omega
    simp [endPosition, hg, stepAt?, hpast]

/-- A position is past the end, or a step stands there. -/
def Lands (w : Workflow) (p : Position) : Prop := w.isPastEnd p = true ∨ ∃ s, w.stepAt? p = some s

theorem lands_endPosition (w : Workflow) : w.Lands w.endPosition :=
  .inl (isPastEnd_endPosition w)

theorem lands_node (hn : w.Named) (hg : w.isGraph = true) (hs : s ∈ w.steps) :
    w.Lands (.node s.id) := by
  refine .inr (Option.isSome_iff_exists.1 ?_)
  rw [stepAt?_node hg]
  exact isSome_stepById? hn hs

theorem lands_index (hg : w.isGraph = false) (n : Nat) : w.Lands (.index n) := by
  by_cases hn : w.steps.length ≤ n
  · exact .inl (by simp [isPastEnd, hg, hn])
  · exact .inr ⟨w.steps[n], by simp [stepAt?_index hg]⟩

theorem lands_positionOf (hn : w.Named) (hs : s ∈ w.steps) : w.Lands (w.positionOf s) := by
  unfold positionOf
  split
  · next hg => exact lands_node hn hg hs
  · next hg =>
    obtain ⟨i, hi⟩ := Option.isSome_iff_exists.1 (isSome_indexOf? hs)
    rw [hi]
    exact lands_index (by simpa using hg) i

theorem lands_sequential (s : Step) (hg : w.isGraph = false) : w.Lands (w.sequential s .linear) := by
  simp only [sequential]
  split <;> exact lands_index hg _

end Workflow
end Runbook
