import Runbook.Check
import Runbook.Proofs.StepPositions

/-! What a definition without problems satisfies: no two steps share an id, and each target of a
transition is the id of a step. And what the checks take for the nodes and the edges of a graph. -/
namespace Runbook

namespace Check
variable {w : Workflow} {s : Step} {id : String}

theorem nodes_spec (w : Workflow) :
    (∀ s ∈ w.nodes, s ∈ w.steps) ∧ ∀ s ∈ w.steps, ∃ t ∈ w.nodes, t.id = s.id := by
  suffices h : ∀ ss kept : List Step,
      let found := ss.foldl (fun kept s => if kept.any (·.id == s.id) then kept else kept ++ [s]) kept
      (∀ s ∈ kept, s ∈ found) ∧ (∀ s ∈ found, s ∈ kept ∨ s ∈ ss) ∧
        ∀ s ∈ ss, ∃ t ∈ found, t.id = s.id by
    obtain ⟨-, hsteps, hids⟩ := h w.steps []
    exact ⟨fun s hs => (hsteps s hs).resolve_left (by simp), hids⟩
  intro ss
  induction ss with
  | nil => simp
  | cons s rest ih =>
    intro kept
    simp only [List.foldl_cons]
    by_cases hseen : kept.any (·.id == s.id) = true
    · rw [if_pos hseen]
      obtain ⟨hkept, hsteps, hids⟩ := ih kept
      refine ⟨hkept, fun t ht => (hsteps t ht).imp_right (.tail _), fun t ht => ?_⟩
      obtain rfl | ht := List.mem_cons.1 ht
      · obtain ⟨u, hu, hid⟩ := List.any_eq_true.1 hseen
        exact ⟨u, hkept u hu, by simpa using hid⟩
      · exact hids t ht
    · rw [if_neg hseen]
      obtain ⟨hkept, hsteps, hids⟩ := ih (kept ++ [s])
      refine ⟨fun t ht => hkept t (by simp [ht]), fun t ht => ?_, fun t ht => ?_⟩
      · obtain ht | ht := hsteps t ht
        · exact (List.mem_append.1 ht).imp_right fun ht => by simp [List.mem_singleton.1 ht]
        · exact .inr (.tail _ ht)
      · obtain rfl | ht := List.mem_cons.1 ht
        · exact ⟨t, hkept t (by simp), rfl⟩
        · exact hids t ht

theorem mem_nodeIds (hs : s ∈ w.steps) : s.id ∈ nodeIds w := by
  obtain ⟨t, ht, hid⟩ := (nodes_spec w).2 s hs
  exact hid ▸ List.mem_map_of_mem ht

theorem exists_of_mem_nodeIds (h : id ∈ nodeIds w) : ∃ s ∈ w.steps, s.id = id := by
  obtain ⟨s, hs, hid⟩ := List.mem_map.1 h
  exact ⟨s, (nodes_spec w).1 s hs, hid⟩

theorem mem_nodes (hd : w.Distinct) (hs : s ∈ w.steps) : s ∈ w.nodes := by
  obtain ⟨t, ht, hid⟩ := (nodes_spec w).2 s hs
  exact Workflow.eq_of_id_eq hd ((nodes_spec w).1 t ht) hs hid ▸ ht

theorem edges_id (hd : w.Distinct) (hs : s ∈ w.steps) : edges w s.id = targets w s := by
  have hsome : (w.node? s.id).isSome := List.find?_isSome.2 ⟨s, hs, by simp⟩
  obtain ⟨t, ht⟩ := Option.isSome_iff_exists.1 hsome
  have hid : t.id = s.id := by simpa using List.find?_some ht
  rw [edges, ht, Workflow.eq_of_id_eq hd (List.mem_of_find?_eq_some ht) hs hid]

theorem mem_targets_of_transition {e : Transition} (he : e ∈ s.transitions)
    (hid : e.target = some id) (hne : id ≠ "") : id ∈ targets w s := by
  refine List.mem_append_left _ (List.mem_filter.2 ⟨List.mem_filterMap.2 ⟨e, he, hid⟩, ?_⟩)
  simpa using hne

theorem mem_targets_of_jump {j : Jump} {t : Step} (hj : j ∈ s.jumps)
    (ht : w.target? j.target = some t) : t.id ∈ targets w s := by
  refine List.mem_append_right _ (List.mem_filterMap.2 ⟨j, hj, ?_⟩)
  cases hr : j.target with
  | none => simp [Workflow.target?, hr] at ht
  | some reference =>
    rw [hr] at ht
    simp [show w.resolve? reference = some t from ht]

theorem distinct_of_repeatedIds (h : repeatedIds w = []) : w.Distinct := by
  refine List.nodup_iff_count.2 fun id => ?_
  by_cases hid : id ∈ w.steps.map (·.id)
  · obtain ⟨s, hs, rfl⟩ := List.mem_map.1 hid
    have honce := List.filter_eq_nil_iff.1 h s.id (mem_nodeIds hs)
    simpa [List.count, List.countP_map, Function.comp_def] using honce
  · simp [List.count_eq_zero_of_not_mem hid]

theorem mem_nodeIds_of_transition {e : Transition} (h : danglingProblems w = [])
    (hd : w.Distinct) (hs : s ∈ w.steps) (he : e ∈ s.transitions) (hid : e.target = some id)
    (hne : id ≠ "") : id ∈ nodeIds w := by
  obtain ⟨i, hi⟩ := List.getElem?_of_mem he
  have hstep := List.flatMap_eq_nil_iff.1 h s (mem_nodes hd hs)
  have hmem : (e, 1 + i) ∈ s.transitions.zipIdx 1 := List.mk_add_mem_zipIdx_iff_getElem?.2 hi
  have hnone := List.filterMap_eq_nil_iff.1 hstep _ hmem
  simpa [hid, Option.filter, hne] using hnone

theorem danglingProblems_of_graphProblems {allowCycles : Bool}
    (h : graphProblems w allowCycles = []) : danglingProblems w = [] := by
  unfold graphProblems at h
  split at h
  · cases h
  · simp only [List.append_eq_nil_iff] at h
    exact h.1.1.1.2

theorem acyclic_of_graphProblems (h : graphProblems w false = []) :
    danglingProblems w = [] ∧ findCycle (edges w) (nodeIds w) = none := by
  unfold graphProblems at h
  split at h
  · cases h
  · simp only [Bool.false_eq_true, if_false, List.append_eq_nil_iff] at h
    obtain ⟨⟨⟨⟨-, hdangling⟩, -⟩, -⟩, hcycle⟩ := h
    refine ⟨hdangling, ?_⟩
    unfold cycleProblems at hcycle
    split at hcycle
    · cases hcycle
    · assumption

end Check

namespace Workflow
variable {w : Workflow} {allowCycles : Bool} {l : Limits}

theorem problems_eq_nil (h : w.problems allowCycles l = .ok []) :
    Check.repeatedIds w = [] ∧
      (w.steps.zipIdx 1).flatMap (fun (s, n) => Check.stepProblems w l s n) = [] ∧
      (w.isGraph = true → Check.graphProblems w allowCycles = []) := by
  unfold problems at h
  split at h
  · cases h
  · split at h
    · cases h
    · cases h
    · simp only [Except.ok.injEq, List.append_eq_nil_iff, List.map_eq_nil_iff] at h
      obtain ⟨⟨hids, hsteps⟩, hgraph⟩ := h
      exact ⟨hids, hsteps, fun hg => by simpa [hg] using hgraph⟩

theorem distinct_of_problems (h : w.problems allowCycles l = .ok []) : w.Distinct :=
  Check.distinct_of_repeatedIds (problems_eq_nil h).1

end Workflow
end Runbook
