import Mathlib.Data.List.Chain
import Runbook.Proofs.GraphSearch

/-! Cycles of a graph. The nodes that a search has on its path are joined by edges and differ, so a
path that meets one of its own nodes closes a walk there. With the other half, that a search without
a result leaves no way round, a check reports a cycle exactly where there is one. -/
namespace Runbook.Check

/-- A walk along edges back to the node it starts from, which meets no node twice on the way. -/
def ClosedWalk (edge : String → String → Prop) (walk : List String) : Prop :=
  ∃ a between, walk = a :: between ++ [a] ∧ (a :: between).Nodup ∧ walk.IsChain edge

section Walks
variable {edge : String → String → Prop} {path walk : List String} {t : String}

theorem ClosedWalk.goes_round (h : ClosedWalk edge walk) : ∃ a, Relation.TransGen edge a a := by
  obtain ⟨a, between, rfl, -, hchain⟩ := h
  refine ⟨a, ?_⟩
  obtain ⟨b, rest, hrest⟩ : ∃ b rest, between ++ [a] = b :: rest :=
    List.exists_cons_of_ne_nil (by simp)
  rw [List.cons_append, hrest] at hchain
  have hlast : (b :: rest).getLast (List.cons_ne_nil b rest) = a := by simp [← hrest]
  exact .head' hchain.rel
    (List.relationReflTransGen_of_exists_isChain_cons rest hchain.tail hlast)

theorem closedWalk_of_path (hchain : path.IsChain edge) (hd : path.Nodup) (ht : t ∈ path)
    (hback : ∀ a ∈ path.getLast?, edge a t) :
    ClosedWalk edge (path.dropWhile (· != t) ++ [t]) := by
  obtain ⟨before, after, rfl, hbefore⟩ := List.eq_append_cons_of_mem ht
  have hdrop : (before ++ t :: after).dropWhile (· != t) = t :: after := by
    have hskip : ∀ a ∈ before, (a != t) = true := by
      intro a ha
      simp only [bne_iff_ne]
      rintro rfl
      exact hbefore ha
    rw [List.dropWhile_append_of_pos hskip]
    simp
  have hsuffix : t :: after <:+ before ++ t :: after := List.suffix_append ..
  rw [hdrop]
  refine ⟨t, after, rfl, hd.sublist hsuffix.sublist, ?_⟩
  refine (hchain.suffix hsuffix).append (by simp) fun a ha b hb => ?_
  obtain rfl : t = b := by simpa using hb
  refine hback a ?_
  rw [List.getLast?_append_of_ne_nil _ (List.cons_ne_nil t after)]
  exact ha

end Walks

variable {next : String → List String} {domain path : List String} {depth : Nat} {s : Search}

/-- What a search has found, if anything, is a closed walk. -/
def Search.Sound (edge : String → String → Prop) (s : Search) : Prop :=
  ∀ walk ∈ s.cycle, ClosedWalk edge walk

theorem visit_sound {edge : String → String → Prop} {t : String} (hs : s.Sound edge)
    (hback : t ∈ domain → t ∈ path → ClosedWalk edge (path.dropWhile (· != t) ++ [t]))
    (hdown : t ∈ domain → t ∉ path → ∀ done, (searchFrom next domain depth path t done).Sound edge) :
    (visit next domain path depth s t).Sound edge := by
  unfold visit
  split
  · exact hs
  · next hskip =>
    have ht : t ∈ domain := by
      by_contra hout
      simp [hout] at hskip
    split
    · next hloop =>
      intro walk hwalk
      obtain rfl : _ = walk := Option.some.inj hwalk
      exact hback ht (by simpa using hloop)
    · next hfresh => exact hdown ht (by simpa using hfresh) s.done

/-- The path is the search's own memory of how it came to the node: a walk without a repetition. -/
theorem searchFrom_sound (depth : Nat) (path : List String) (node : String) (done : List String)
    (hchain : (path ++ [node]).IsChain (Edge next domain))
    (hpath : IsPath domain (path ++ [node])) :
    (searchFrom next domain depth path node done).Sound (Edge next domain) := by
  induction depth generalizing path node done with
  | zero => exact nofun
  | succ depth ih =>
    have hedges : ((next node).foldl (visit next domain (path ++ [node]) depth) ⟨none, done⟩).Sound
        (Edge next domain) := by
      refine List.foldlRecOn (next node) _ nofun fun s hs t ht => ?_
      have hedge : t ∈ domain → ∀ a ∈ (path ++ [node]).getLast?, Edge next domain a t := by
        intro hin a ha
        obtain rfl : node = a := by simpa using ha
        exact ⟨hpath.inside node (by simp), ht, hin⟩
      refine visit_sound hs
        (fun hin hmem => closedWalk_of_path hchain hpath.nodup hmem (hedge hin)) ?_
      intro hin hfresh done
      refine ih (path ++ [node]) t done ?_ (hpath.onward hin hfresh)
      refine hchain.append (by simp) fun a ha b hb => ?_
      obtain rfl : t = b := by simpa using hb
      exact hedge hin a ha
    rw [searchFrom_succ]
    simp only
    split
    · exact hedges
    · exact hedges

theorem closedWalk_of_findCycle {walk : List String} (h : findCycle next domain = some walk) :
    ClosedWalk (Edge next domain) walk := by
  have hsound : (domain.foldl (visit next domain [] domain.length) ⟨none, []⟩).Sound
      (Edge next domain) := by
    refine List.foldlRecOn domain _ nofun fun s hs t ht => visit_sound hs (fun _ => nofun) ?_
    intro _ _ done
    exact searchFrom_sound domain.length [] t done (by simp) (IsPath.singleton ht)
  rw [findCycle_eq] at h
  exact hsound walk h

theorem isSome_findCycle :
    (findCycle next domain).isSome ↔ ∃ a, Relation.TransGen (Edge next domain) a a := by
  constructor
  · intro h
    obtain ⟨walk, hwalk⟩ := Option.isSome_iff_exists.1 h
    exact (closedWalk_of_findCycle hwalk).goes_round
  · rintro ⟨a, ha⟩
    by_contra hnone
    exact acyclic_of_findCycle (Option.not_isSome_iff_eq_none.1 hnone) a ha

section Problems
variable (w : Workflow)

/-- A problem that reports a cycle is told by how its text begins. -/
def reportsCycle (problem : String) : Bool :=
  "Cycle detected: ".toList.isPrefixOf problem.toList

theorem startProblems_cycle : ∀ p ∈ startProblems w, reportsCycle p = false := by
  intro p hp
  unfold startProblems at hp
  split at hp
  · split at hp
    · cases hp
    · simp [List.mem_singleton.1 hp, reportsCycle, List.isPrefixOf]
  · cases hp

theorem danglingProblems_cycle : ∀ p ∈ danglingProblems w, reportsCycle p = false := by
  intro p hp
  obtain ⟨s, -, hp⟩ := List.mem_flatMap.1 hp
  obtain ⟨⟨t, n⟩, -, hp⟩ := List.mem_filterMap.1 hp
  obtain ⟨id, -, rfl⟩ := Option.map_eq_some_iff.1 hp
  simp [reportsCycle, List.isPrefixOf]

theorem reachProblems_cycle : ∀ p ∈ reachProblems w, reportsCycle p = false := by
  intro p hp
  obtain ⟨id, -, rfl⟩ := List.mem_map.1 hp
  simp [reportsCycle, List.isPrefixOf]

theorem endProblems_cycle : ∀ p ∈ endProblems w, reportsCycle p = false := by
  intro p hp
  unfold endProblems at hp
  split at hp
  · rw [List.mem_singleton.1 hp]
    decide
  · cases hp

theorem mem_cycleProblems {p : String} :
    p ∈ cycleProblems w ↔ ∃ walk, findCycle (edges w) (nodeIds w) = some walk ∧
      p = "Cycle detected: " ++ " -> ".intercalate (walk.map (nodeLabel w)) := by
  unfold cycleProblems
  split
  · next walk hwalk => simp [hwalk]
  · next hnone => simp [hnone]

theorem cycleProblems_cycle : ∀ p ∈ cycleProblems w, reportsCycle p = true := by
  intro p hp
  obtain ⟨walk, -, rfl⟩ := (mem_cycleProblems w).1 hp
  simp [reportsCycle, List.isPrefixOf]

theorem length_cycleProblems_le : (cycleProblems w).length ≤ 1 := by
  unfold cycleProblems
  split <;> simp

theorem filter_reportsCycle : (graphProblems w false).filter reportsCycle = cycleProblems w := by
  have hnone : ∀ ps : List String, (∀ p ∈ ps, reportsCycle p = false) →
      ps.filter reportsCycle = [] := by
    intro ps hps
    exact List.filter_eq_nil_iff.2 fun p hp => by simp [hps p hp]
  unfold graphProblems
  split
  · next hsteps =>
    have hnodes : nodeIds w = [] := by
      simp [nodeIds, Workflow.nodes, List.isEmpty_iff.1 hsteps]
    simp only [cycleProblems, hnodes]
    rfl
  · simp only [List.filter_append, hnone _ (startProblems_cycle w),
      hnone _ (danglingProblems_cycle w), hnone _ (reachProblems_cycle w),
      hnone _ (endProblems_cycle w), List.nil_append, Bool.false_eq_true, if_false]
    exact List.filter_eq_self.2 (cycleProblems_cycle w)

/-- Where cycles are not allowed, a cycle is reported exactly if some edges go round, wherever that
is, and once at most. The report shows a walk from a node along edges back to it, in the titles of the
nodes, that meets no node twice on the way. -/
theorem reportsCycle_iff :
    ((∃ p ∈ graphProblems w false, reportsCycle p = true) ↔
      ∃ id, Relation.TransGen (Edge (edges w) (nodeIds w)) id id) ∧
    (graphProblems w false).countP reportsCycle ≤ 1 ∧
    ∀ p ∈ graphProblems w false, reportsCycle p = true →
      ∃ walk, findCycle (edges w) (nodeIds w) = some walk ∧
        ClosedWalk (Edge (edges w) (nodeIds w)) walk ∧
        p = "Cycle detected: " ++ " -> ".intercalate (walk.map (nodeLabel w)) := by
  have hmem : ∀ p, (p ∈ graphProblems w false ∧ reportsCycle p = true) ↔ p ∈ cycleProblems w := by
    intro p
    rw [← filter_reportsCycle w, List.mem_filter]
  refine ⟨?_, ?_, fun p hp hreports => ?_⟩
  · simp only [hmem, mem_cycleProblems, ← isSome_findCycle, Option.isSome_iff_exists]
    exact ⟨fun ⟨_, walk, hwalk, _⟩ => ⟨walk, hwalk⟩, fun ⟨walk, hwalk⟩ => ⟨_, walk, hwalk, rfl⟩⟩
  · rw [List.countP_eq_length_filter, filter_reportsCycle w]
    exact length_cycleProblems_le w
  · obtain ⟨walk, hwalk, htext⟩ := (mem_cycleProblems w).1 ((hmem p).1 ⟨hp, hreports⟩)
    exact ⟨walk, hwalk, closedWalk_of_findCycle hwalk, htext⟩

def circling : Workflow :=
  ⟨"circling", "", true, none,
    [⟨"a", "A", none, [], [], .action ⟨none, []⟩, []⟩,
      ⟨"b", "B", none, [], [⟨some "c", none, none⟩, ⟨some "nowhere", none, none⟩],
        .action ⟨none, []⟩, []⟩,
      ⟨"c", "C", none, [⟨some "completed", some "B"⟩], [], .action ⟨none, []⟩, []⟩]⟩

theorem reportsCycle_iff_sample :
    "Cycle detected: B -> C -> B" ∈ graphProblems circling false ∧
      (∃ id, Relation.TransGen (Edge (edges circling) (nodeIds circling)) id id) ∧
      ∃ walk, findCycle (edges circling) (nodeIds circling) = some walk ∧
        ClosedWalk (Edge (edges circling) (nodeIds circling)) walk := by
  have hmem : "Cycle detected: B -> C -> B" ∈ graphProblems circling false := by decide +kernel
  have hreports : reportsCycle "Cycle detected: B -> C -> B" = true := by decide +kernel
  obtain ⟨walk, hwalk, hclosed, -⟩ := (reportsCycle_iff circling).2.2 _ hmem hreports
  exact ⟨hmem, (reportsCycle_iff circling).1.1 ⟨_, hmem, hreports⟩, walk, hwalk, hclosed⟩

end Problems
end Runbook.Check
