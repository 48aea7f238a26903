import Mathlib.Data.List.Basic
import Mathlib.Order.WellFounded
import Runbook.Check.Graph

/-! What the searches of the graph checks find: the breadth-first one reaches all that edges lead to,
and where the depth-first one finds no cycle, no walk along edges goes on for ever. -/
namespace Runbook

section Exploring
variable {next : String → List String} {domain seeds : List String} {a b : String}

theorem explore_closed (n : Nat) (remaining pending : List String) (hn : remaining.length ≤ n) :
    (∀ b ∈ pending, b ∈ remaining → b ∈ explore next n remaining pending) ∧
      ∀ a ∈ explore next n remaining pending, ∀ b ∈ next a, b ∈ remaining →
        b ∈ explore next n remaining pending := by
  induction n generalizing remaining pending with
  | zero =>
    have hnil : remaining = [] := by simpa using hn
    simp [hnil]
  | succ n ih =>
    cases hfind : pending.find? remaining.contains with
    | none =>
      have hno : ∀ b ∈ pending, b ∉ remaining := by simpa using hfind
      simp only [explore, hfind]
      exact ⟨fun b hb hr => absurd hr (hno b hb), fun a ha => absurd ha List.not_mem_nil⟩
    | some c =>
      have hc : c ∈ remaining := by simpa using List.find?_some hfind
      have hlen : (remaining.erase c).length ≤ n := by
        rw [List.length_erase_of_mem hc]
        omega
      obtain ⟨hpending, hnext⟩ := ih (remaining.erase c) (pending ++ next c) hlen
      have hvisit : ∀ b ∈ pending ++ next c, b ∈ remaining →
          b ∈ explore next (n + 1) remaining pending := by
        intro b hb hr
        simp only [explore, hfind, List.mem_cons]
        by_cases hbc : b = c
        · exact .inl hbc
        · exact .inr (hpending b hb ((List.mem_erase_of_ne hbc).2 hr))
      refine ⟨fun b hb => hvisit b (List.mem_append_left _ hb), fun a ha b hb hr => ?_⟩
      simp only [explore, hfind, List.mem_cons] at ha ⊢
      cases ha with
      | inl hac =>
        subst hac
        have hreached := hvisit b (List.mem_append_right _ hb) hr
        simp only [explore, hfind, List.mem_cons] at hreached
        exact hreached
      | inr ha =>
        by_cases hbc : b = c
        · exact .inl hbc
        · exact .inr (hnext a ha b hb ((List.mem_erase_of_ne hbc).2 hr))

theorem seed_mem_reachable (hs : a ∈ seeds) (ha : a ∈ domain) : a ∈ reachable next domain seeds :=
  (explore_closed domain.length domain seeds (Nat.le_refl _)).1 a hs ha

theorem next_mem_reachable (ha : a ∈ reachable next domain seeds) (hb : b ∈ next a)
    (hd : b ∈ domain) : b ∈ reachable next domain seeds :=
  (explore_closed domain.length domain seeds (Nat.le_refl _)).2 a ha b hb hd

end Exploring

namespace Check
variable {next : String → List String} {domain : List String}

/-- An edge between two nodes of a domain. -/
def Edge (next : String → List String) (domain : List String) (a b : String) : Prop :=
  a ∈ domain ∧ b ∈ next a ∧ b ∈ domain

/-- Every walk along edges from the node comes to an end. -/
def Ends (next : String → List String) (domain : List String) : String → Prop :=
  Acc fun b a => Edge next domain a b

/-- What the search does at an edge, at the end of `path`. -/
def visit (next : String → List String) (domain path : List String) (depth : Nat) (s : Search)
    (target : String) : Search :=
  if s.cycle.isSome || !domain.contains target || s.done.contains target then s
  else if path.contains target then
    { s with cycle := some (path.dropWhile (· != target) ++ [target]) }
  else searchFrom next domain depth path target s.done

theorem searchFrom_succ (depth : Nat) (path : List String) (node : String) (done : List String) :
    searchFrom next domain (depth + 1) path node done =
      let found := (next node).foldl (visit next domain (path ++ [node]) depth) ⟨none, done⟩
      if found.cycle.isSome then found else { found with done := node :: found.done } := rfl

theorem findCycle_eq :
    findCycle next domain =
      (domain.foldl (visit next domain [] domain.length) ⟨none, []⟩).cycle := by
  refine congrArg Search.cycle (List.foldl_ext _ _ _ fun s node hnode => ?_)
  simp [visit, hnode]

/-- A search without a cycle has kept what was done and has done the targets; and nothing that is
done starts a walk for ever. -/
structure Search.Clears (next : String → List String) (domain targets done : List String)
    (s : Search) : Prop where
  kept : ∀ a ∈ done, a ∈ s.done
  settled : ∀ a ∈ targets, a ∈ domain → a ∈ s.done
  ended : ∀ a ∈ s.done, Ends next domain a

section Visiting
variable {path : List String} {depth : Nat} {s : Search}

theorem foldl_visit_found (h : s.cycle.isSome = true) (targets : List String) :
    targets.foldl (visit next domain path depth) s = s := by
  induction targets with
  | nil => rfl
  | cons t rest ih =>
    rw [List.foldl_cons, visit, h]
    exact ih

variable
    (hdown : ∀ t ∈ domain, t ∉ path → ∀ done, (∀ a ∈ done, Ends next domain a) →
      (searchFrom next domain depth path t done).cycle = none →
      (searchFrom next domain depth path t done).Clears next domain [t] done)
include hdown

theorem visit_clears {t : String} (hs : ∀ a ∈ s.done, Ends next domain a)
    (h : (visit next domain path depth s t).cycle = none) :
    (visit next domain path depth s t).Clears next domain [t] s.done := by
  by_cases hskip : (s.cycle.isSome || !domain.contains t || s.done.contains t) = true
  · rw [visit, if_pos hskip] at h ⊢
    refine ⟨fun _ ha => ha, fun a ha hd => ?_, hs⟩
    rw [List.mem_singleton.1 ha] at hd ⊢
    simpa [h, hd] using hskip
  · by_cases hloop : path.contains t = true
    · rw [visit, if_neg hskip, if_pos hloop] at h
      cases h
    · rw [visit, if_neg hskip, if_neg hloop] at h ⊢
      have hfresh : t ∈ domain := by
        by_contra hd
        simp [hd] at hskip
      exact hdown t hfresh (by simpa using hloop) s.done hs h

theorem foldl_visit_clears (targets : List String) (hs : ∀ a ∈ s.done, Ends next domain a)
    (h : (targets.foldl (visit next domain path depth) s).cycle = none) :
    (targets.foldl (visit next domain path depth) s).Clears next domain targets s.done := by
  induction targets generalizing s with
  | nil => exact ⟨fun _ ha => ha, nofun, hs⟩
  | cons t rest ih =>
    rw [List.foldl_cons] at h ⊢
    -- A cycle that is found stays found, so none has been found at the first edge.
    have hone : (visit next domain path depth s t).cycle = none := by
      cases hc : (visit next domain path depth s t).cycle with
      | none => rfl
      | some walk =>
        rw [foldl_visit_found (by simp [hc]), hc] at h
        cases h
    have hfirst := visit_clears hdown hs hone
    have hrest := ih hfirst.ended h
    refine ⟨fun a ha => hrest.kept a (hfirst.kept a ha), fun a ha hd => ?_, hrest.ended⟩
    cases List.mem_cons.1 ha with
    | inl hat => exact hrest.kept a (hfirst.settled a (by simp [hat]) hd)
    | inr ha => exact hrest.settled a ha hd

end Visiting

/-- A path of a search: it holds nodes of the domain, each once. -/
structure IsPath (domain path : List String) : Prop where
  nodup : path.Nodup
  inside : ∀ a ∈ path, a ∈ domain

namespace IsPath
variable {path : List String} {t : String}

theorem singleton (ht : t ∈ domain) : IsPath domain ([] ++ [t]) := ⟨by simp, by simpa using ht⟩

theorem onward (h : IsPath domain path) (ht : t ∈ domain) (hfresh : t ∉ path) :
    IsPath domain (path ++ [t]) := by
  refine ⟨List.nodup_append.2 ⟨h.nodup, by simp, fun a ha b hb hab => hfresh ?_⟩, fun a ha => ?_⟩
  · rwa [← List.mem_singleton.1 hb, ← hab]
  · cases List.mem_append.1 ha with
    | inl ha => exact h.inside a ha
    | inr ha => exact List.mem_singleton.1 ha ▸ ht

theorem length_lt (h : IsPath domain (path ++ [t])) : path.length < domain.length := by
  have hlength := h.nodup.length_le_of_subset h.inside
  simp only [List.length_append, List.length_singleton] at hlength
  omega

end IsPath

theorem searchFrom_clears (depth : Nat) (path : List String) (node : String) (done : List String)
    (hpath : IsPath domain (path ++ [node])) (hdepth : domain.length ≤ depth + path.length)
    (hdone : ∀ a ∈ done, Ends next domain a)
    (h : (searchFrom next domain depth path node done).cycle = none) :
    (searchFrom next domain depth path node done).Clears next domain [node] done := by
  induction depth generalizing path node done with
  | zero =>
    have hlength := hpath.length_lt
    omega
  | succ depth ih =>
    have hdown : ∀ t ∈ domain, t ∉ path ++ [node] → ∀ done, (∀ a ∈ done, Ends next domain a) →
        (searchFrom next domain depth (path ++ [node]) t done).cycle = none →
        (searchFrom next domain depth (path ++ [node]) t done).Clears next domain [t] done := by
      intro t ht hfresh done hdone
      refine ih (path ++ [node]) t done (hpath.onward ht hfresh) ?_ hdone
      simp only [List.length_append, List.length_singleton]
      omega
    rw [searchFrom_succ] at h ⊢
    simp only at h ⊢
    split at h
    · next hfound => simp [h] at hfound
    · next hfound =>
      rw [if_neg hfound]
      have hedges := foldl_visit_clears hdown (next node) hdone (by simpa using hfound)
      have hnode : Ends next domain node :=
        ⟨node, fun b hb => hedges.ended b (hedges.settled b hb.2.1 hb.2.2)⟩
      refine ⟨fun a ha => .tail _ (hedges.kept a ha), fun a ha _ => ?_, fun a ha => ?_⟩
      · simp [List.mem_singleton.1 ha]
      · obtain rfl | ha := List.mem_cons.1 ha
        · exact hnode
        · exact hedges.ended a ha

/-- More depth changes nothing: a path has no more nodes than the domain. -/
theorem searchFrom_add (k depth : Nat) (path : List String) (node : String) (done : List String)
    (hpath : IsPath domain (path ++ [node])) (hdepth : domain.length ≤ depth + path.length) :
    searchFrom next domain (depth + k) path node done =
      searchFrom next domain depth path node done := by
  induction depth generalizing path node done with
  | zero =>
    have hlength := hpath.length_lt
    omega
  | succ depth ih =>
    have hvisit : ∀ s, ∀ t ∈ next node, visit next domain (path ++ [node]) (depth + k) s t =
        visit next domain (path ++ [node]) depth s t := by
      intro s t _
      unfold visit
      split
      · rfl
      · next hskip =>
        split
        · rfl
        · next hfresh =>
          have ht : t ∈ domain := by
            by_contra hout
            simp [hout] at hskip
          refine ih (path ++ [node]) t s.done (hpath.onward ht (by simpa using hfresh)) ?_
          simp only [List.length_append, List.length_singleton]
          omega
    rw [Nat.add_right_comm, searchFrom_succ, searchFrom_succ, List.foldl_ext _ _ _ hvisit]

/-- The depth is never what ends the search for a cycle. -/
theorem findCycle_eq_add (k : Nat) :
    findCycle next domain =
      (domain.foldl (visit next domain [] (domain.length + k)) ⟨none, []⟩).cycle := by
  rw [findCycle_eq]
  refine congrArg Search.cycle (List.foldl_ext _ _ _ fun s t ht => ?_)
  have hmore : searchFrom next domain (domain.length + k) [] t s.done =
      searchFrom next domain domain.length [] t s.done :=
    searchFrom_add k domain.length [] t s.done (IsPath.singleton ht) (by simp)
  simp only [visit, hmore]

/-- Where the search finds no cycle, there is no walk for ever. -/
theorem wellFounded_of_findCycle (h : findCycle next domain = none) :
    WellFounded fun b a => Edge next domain a b := by
  rw [findCycle_eq] at h
  have hdown : ∀ t ∈ domain, t ∉ [] → ∀ done, (∀ a ∈ done, Ends next domain a) →
      (searchFrom next domain domain.length [] t done).cycle = none →
      (searchFrom next domain domain.length [] t done).Clears next domain [t] done := by
    intro t ht _ done hdone
    exact searchFrom_clears domain.length [] t done (IsPath.singleton ht) (by simp) hdone
  have hclears := foldl_visit_clears hdown domain (by simp) h
  refine ⟨fun a => ?_⟩
  by_cases ha : a ∈ domain
  · exact hclears.ended a (hclears.settled a ha ha)
  · exact ⟨a, fun b hb => absurd hb.1 ha⟩

theorem acyclic_of_findCycle (h : findCycle next domain = none) (a : String) :
    ¬Relation.TransGen (Edge next domain) a a := by
  intro hloop
  have hwf := (wellFounded_of_findCycle h).transGen
  exact hwf.irrefl.irrefl a (Relation.transGen_swap.1 hloop)

end Check
end Runbook
