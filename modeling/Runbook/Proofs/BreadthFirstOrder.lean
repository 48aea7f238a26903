import Mathlib.Data.Nat.Find
import Runbook.Proofs.StepPositions
import Runbook.Proofs.ReachableNodes

/-! How a search spreads over a graph. The loop over the queue visits what can be reached, each node
once, and the nearer before the more distant: the next node it visits is the first unvisited one that
an edge leads to, from the visited nodes in the order in which they came. -/
namespace Runbook

section Walking
variable {α : Type} {R : α → α → Prop} {a b c : α} {n : Nat}

/-- A walk of so many edges from `a`. -/
inductive Walk (R : α → α → Prop) (a : α) : Nat → α → Prop where
  | start : Walk R a 0 a
  | step {n : Nat} {b c : α} : Walk R a n b → R b c → Walk R a (n + 1) c

/-- The length of a shortest walk. -/
structure IsDistance (R : α → α → Prop) (a b : α) (n : Nat) : Prop where
  walk : Walk R a n b
  least : ∀ m, Walk R a m b → n ≤ m

/-- To every walk there is one to `b` that is no longer than it. -/
def Nearer (R : α → α → Prop) (a b c : α) : Prop := ∀ n, Walk R a n c → ∃ m ≤ n, Walk R a m b

theorem reflTransGen_iff_walk : Relation.ReflTransGen R a b ↔ ∃ n, Walk R a n b := by
  constructor
  · intro h
    induction h with
    | refl => exact ⟨0, .start⟩
    | tail _ hedge ih =>
      obtain ⟨n, hwalk⟩ := ih
      exact ⟨n + 1, hwalk.step hedge⟩
  · rintro ⟨n, hwalk⟩
    induction hwalk with
    | start => exact .refl
    | step _ hedge ih => exact ih.tail hedge

theorem Walk.exists_distance (h : Walk R a n b) : ∃ m, IsDistance R a b m := by
  classical
  have hex : ∃ m, Walk R a m b := ⟨n, h⟩
  exact ⟨Nat.find hex, Nat.find_spec hex, fun m hm => Nat.find_min' hex hm⟩

theorem Nearer.distance_le (h : Nearer R a b c) {m : Nat} (hb : IsDistance R a b m)
    (hc : IsDistance R a c n) : m ≤ n := by
  obtain ⟨k, hk, hwalk⟩ := h n hc.walk
  exact (hb.least k hwalk).trans hk

theorem Walk.crosses {S : α → Prop} (h : Walk R a n b) (ha : S a) (hb : ¬S b) :
    ∃ k x y, k < n ∧ Walk R a k x ∧ S x ∧ R x y ∧ ¬S y := by
  induction h with
  | start => exact absurd ha hb
  | @step n x y hwalk hedge ih =>
    by_cases hx : S x
    · exact ⟨n, x, y, Nat.lt_succ_self n, hwalk, hx, hedge, hb⟩
    · obtain ⟨k, x, y, hk, hrest⟩ := ih hx
      exact ⟨k, x, y, hk.trans (Nat.lt_succ_self n), hrest⟩

end Walking

/-- An edge to one of the names. -/
def Into (next : String → List String) (x y : String) : Prop := y ∈ next x

namespace Worklist
variable {next : String → List String} {domain seen queue : List String} {a b c : String}
  {l l' : Worklist}

/-- One pass of the loop without a look at which names are nodes. -/
def turn? (next : String → List String) : Worklist → Option Worklist
  | ⟨_, []⟩ => none
  | ⟨visited, a :: queue⟩ =>
    if visited.contains a then some ⟨visited, queue⟩
    else
      let visited := visited ++ [a]
      some ⟨visited, queue ++ (next a).filter (!visited.contains ·)⟩

/-- The loop goes on from one state to the next. -/
def Turns (next : String → List String) (l l' : Worklist) : Prop := l.turn? next = some l'

theorem turns_of_finishes (hclosed : ∀ x, ∀ y ∈ next x, y ∈ domain) {visited : List String}
    (h : Finishes next domain l visited) (hqueue : ∀ q ∈ l.queue, q ∈ domain) :
    Relation.ReflTransGen (Turns next) l ⟨visited, []⟩ := by
  induction h with
  | @stop l hstop =>
    obtain ⟨visited, _ | ⟨a, queue⟩⟩ := l
    · exact .refl
    · simp only [pass?] at hstop
      split at hstop <;> cases hstop
  | @pass l l' visited hpass _ ih =>
    obtain ⟨seen, _ | ⟨a, queue⟩⟩ := l
    · cases hpass
    · have ha : domain.contains a = true := List.contains_iff_mem.2 (hqueue a List.mem_cons_self)
      have hturn : Turns next ⟨seen, a :: queue⟩ l' := by
        rw [Turns, turn?, ← hpass, pass?, ha, Bool.not_true, Bool.or_false]
      refine .head hturn (ih fun q hq => ?_)
      simp only [Turns, turn?] at hturn
      split at hturn
      · cases hturn
        exact hqueue q (List.mem_cons_of_mem _ hq)
      · cases hturn
        obtain hq | hq := List.mem_append.1 hq
        · exact hqueue q (List.mem_cons_of_mem _ hq)
        · exact hclosed a q (List.mem_of_mem_filter hq)

theorem nearest_first (hsorted : seen.Pairwise (Nearer (Into next) a))
    (hfind : (a :: seen.flatMap next).find? (!seen.contains ·) = some b) (hc : c ∉ seen) :
    Nearer (Into next) a b c := by
  by_cases ha : a ∈ seen
  · rw [List.find?_cons_of_neg (by simpa using ha), List.find?_flatMap] at hfind
    obtain ⟨before, z, after, rfl, hz, hbefore⟩ := List.findSome?_eq_some_iff.1 hfind
    intro n hwalk
    obtain ⟨k, x, y, hk, hx, hxseen, hedge, hy⟩ :=
      hwalk.crosses (S := (· ∈ before ++ z :: after)) ha hc
    -- The walk leaves the visited nodes behind `z` or at it, since all edges before `z` stay inside.
    have hxz : x ∈ z :: after := by
      refine (List.mem_append.1 hxseen).resolve_left fun hxb => hy ?_
      by_contra hy
      exact List.find?_eq_none.1 (hbefore x hxb) y hedge (by simpa using hy)
    have hzx : ∃ m ≤ k, Walk (Into next) a m z := by
      obtain rfl | hx' := List.mem_cons.1 hxz
      · exact ⟨k, le_refl k, hx⟩
      · exact (List.pairwise_cons.1 (List.pairwise_append.1 hsorted).2.1).1 x hx' k hx
    obtain ⟨m, hm, hwalkz⟩ := hzx
    exact ⟨m + 1, by omega, hwalkz.step (List.mem_of_find?_eq_some hz)⟩
  · rw [List.find?_cons_of_pos (by simpa using ha)] at hfind
    cases hfind
    exact fun n _ => ⟨0, Nat.zero_le n, .start⟩

/-- What holds of the loop that starts at `a`. The queue holds what is not visited in the order in
which the edges out of the visited names come. -/
structure Spreads (next : String → List String) (a : String) (l : Worklist) : Prop where
  nodup : l.visited.Nodup
  head : (l.visited ++ l.queue).head? = some a
  unvisited : l.queue.filter (!l.visited.contains ·) =
    (a :: l.visited.flatMap next).filter (!l.visited.contains ·)
  walked : ∀ b ∈ l.visited, ∃ n, Walk (Into next) a n b
  sorted : l.visited.Pairwise (Nearer (Into next) a)
  nearest : ∀ b ∈ l.visited, ∀ c ∉ l.visited, Nearer (Into next) a b c

theorem spreads_start (next : String → List String) (a : String) : Spreads next a ⟨[], [a]⟩ where
  nodup := .nil
  head := rfl
  unvisited := rfl
  walked := nofun
  sorted := .nil
  nearest := nofun

theorem filter_visited (names : List String) :
    (names.filter (!seen.contains ·)).filter (!(seen ++ [b]).contains ·) =
      names.filter (!(seen ++ [b]).contains ·) := by
  rw [List.filter_filter]
  refine List.filter_congr fun c _ => ?_
  by_cases hc : c ∈ seen <;> simp [hc]

theorem Spreads.skip (h : Spreads next a ⟨seen, b :: queue⟩) (hb : b ∈ seen) :
    Spreads next a ⟨seen, queue⟩ where
  nodup := h.nodup
  head := by
    cases seen with
    | nil => cases hb
    | cons _ _ => exact h.head
  unvisited := by
    rw [← h.unvisited, List.filter_cons_of_neg (by simpa using hb)]
  walked := h.walked
  sorted := h.sorted
  nearest := h.nearest

theorem Spreads.visit (h : Spreads next a ⟨seen, b :: queue⟩) (hb : b ∉ seen) :
    Spreads next a ⟨seen ++ [b], queue ++ (next b).filter (!(seen ++ [b]).contains ·)⟩ := by
  have hfind : (a :: seen.flatMap next).find? (!seen.contains ·) = some b := by
    rw [← List.head?_filter, ← h.unvisited, List.filter_cons_of_pos (by simpa using hb)]
    rfl
  have hnear : ∀ c ∉ seen, Nearer (Into next) a b c := fun c hc => nearest_first h.sorted hfind hc
  have hin : ∀ {c}, c ∈ seen ++ [b] ↔ c ∈ seen ∨ c = b := by simp
  constructor
  case nodup =>
    refine List.nodup_append.2 ⟨h.nodup, List.nodup_singleton b, fun c hc d hd => ?_⟩
    rintro rfl
    exact hb (List.mem_singleton.1 hd ▸ hc)
  case head => simpa using h.head
  case unvisited =>
    have hrest := congrArg (List.filter (!(seen ++ [b]).contains ·)) h.unvisited
    simp only [filter_visited] at hrest
    rw [List.filter_cons_of_neg (by simp)] at hrest
    rw [List.filter_append, List.filter_filter, hrest, List.flatMap_append, ← List.cons_append,
      List.filter_append]
    simp
  case walked =>
    intro c hc
    obtain hc | rfl := hin.1 hc
    · exact h.walked c hc
    · obtain rfl | hmem := List.mem_cons.1 (List.mem_of_find?_eq_some hfind)
      · exact ⟨0, .start⟩
      · obtain ⟨z, hz, hedge⟩ := List.mem_flatMap.1 hmem
        obtain ⟨n, hwalk⟩ := h.walked z hz
        exact ⟨n + 1, hwalk.step hedge⟩
  case sorted =>
    refine List.pairwise_append.2 ⟨h.sorted, List.pairwise_singleton _ _, fun c hc d hd => ?_⟩
    obtain rfl := List.mem_singleton.1 hd
    exact h.nearest c hc d hb
  case nearest =>
    intro c hc d hd
    have hdseen : d ∉ seen := fun hmem => hd (hin.2 (.inl hmem))
    obtain hc | rfl := hin.1 hc
    · exact h.nearest c hc d hdseen
    · exact hnear d hdseen

theorem Spreads.turn (h : Spreads next a l) (hturn : Turns next l l') : Spreads next a l' := by
  obtain ⟨seen, _ | ⟨b, queue⟩⟩ := l
  · cases hturn
  · simp only [Turns, turn?] at hturn
    split at hturn
    · next hb => cases hturn; exact h.skip (by simpa using hb)
    · next hb => cases hturn; exact h.visit (by simpa using hb)

theorem Spreads.turns (h : Spreads next a l) (hturns : Relation.ReflTransGen (Turns next) l l') :
    Spreads next a l' := by
  induction hturns with
  | refl => exact h
  | tail _ hturn ih => exact ih.turn hturn

/-- Once the queue is empty, all that can be reached has been visited. -/
theorem Spreads.mem_iff (h : Spreads next a ⟨seen, []⟩) :
    b ∈ seen ↔ Relation.ReflTransGen (Into next) a b := by
  have hall : ∀ c ∈ a :: seen.flatMap next, c ∈ seen := by
    simpa using List.filter_eq_nil_iff.1 h.unvisited.symm
  constructor
  · exact fun hb => reflTransGen_iff_walk.2 (h.walked b hb)
  · intro hpath
    induction hpath with
    | refl => exact hall a List.mem_cons_self
    | @tail x y _ hedge ih =>
      exact hall y (List.mem_cons_of_mem _ (List.mem_flatMap.2 ⟨x, ih, hedge⟩))

end Worklist

namespace Workflow
variable {w : Workflow} {a x y : String}

/-- A transition of the first step with the id `x` has the target id `y`; an empty text is no id. -/
def Follows (w : Workflow) (x y : String) : Prop :=
  ∃ s t, w.stepById? x = some s ∧ t ∈ s.transitions ∧ t.target = some y ∧ y ≠ ""

theorem mem_nextIds : y ∈ w.nextIds x ↔ w.Follows x y := by
  rw [nextIds, List.mem_filter, transitionsFrom]
  cases hs : w.stepById? x with
  | none => simp [Follows, hs]
  | some s => simp [Follows, hs, ← and_assoc]

theorem into_nextIds (w : Workflow) : Into w.nextIds = w.Follows := by
  funext x y
  exact propext mem_nextIds

theorem mem_mentionedIds_of_follows (h : w.Follows x y) : y ∈ w.mentionedIds := by
  obtain ⟨s, t, hs, ht, htarget, -⟩ := h
  rw [mentionedIds, List.mem_eraseDups, List.mem_flatMap]
  refine ⟨s, (stepById?_eq_some hs).1, List.mem_cons_of_mem _ ?_⟩
  exact List.mem_filterMap.2 ⟨t, ht, htarget⟩

theorem mem_mentionedIds_of_step (h : (w.stepById? a).isSome = true) : a ∈ w.mentionedIds := by
  obtain ⟨s, hs⟩ := Option.isSome_iff_exists.1 h
  obtain ⟨hmem, rfl⟩ := stepById?_eq_some hs
  rw [mentionedIds, List.mem_eraseDups, List.mem_flatMap]
  exact ⟨s, hmem, List.mem_cons_self⟩

/-- What is reachable is listed breadth first. From an id that names a step, the loop over the queue
comes to its end; it has then visited each id once that can be reached along target ids and no other,
the id itself first, and none after one that is more distant. -/
theorem reachableFrom_breadthFirst (h : (w.stepById? a).isSome = true) :
    Relation.ReflTransGen (Worklist.Turns w.nextIds) ⟨[], [a]⟩ ⟨w.reachableFrom a, []⟩ ∧
      (w.reachableFrom a).Nodup ∧
      (∀ b, b ∈ w.reachableFrom a ↔ Relation.ReflTransGen w.Follows a b) ∧
      (w.reachableFrom a).head? = some a ∧
      (w.reachableFrom a).Pairwise fun b c =>
        ∃ m n, IsDistance w.Follows a b m ∧ IsDistance w.Follows a c n ∧ m ≤ n := by
  obtain ⟨s, hs⟩ := Option.isSome_iff_exists.1 h
  have hreachable : w.reachableFrom a = reachable w.nextIds w.mentionedIds [a] := by
    rw [reachableFrom, hs]
  have hturns : Relation.ReflTransGen (Worklist.Turns w.nextIds) ⟨[], [a]⟩
      ⟨w.reachableFrom a, []⟩ := by
    rw [hreachable]
    refine Worklist.turns_of_finishes
      (fun x y hy => mem_mentionedIds_of_follows (mem_nextIds.1 hy))
      (Worklist.finishes_reachable (nodup_eraseDups _) [a]) fun q hq => ?_
    rw [List.mem_singleton.1 hq]
    exact mem_mentionedIds_of_step h
  have hspreads := (Worklist.spreads_start w.nextIds a).turns hturns
  refine ⟨hturns, hspreads.nodup, fun b => ?_, by simpa using hspreads.head, ?_⟩
  · rw [← into_nextIds]
    exact hspreads.mem_iff
  · refine hspreads.sorted.imp_of_mem fun {b c} hb hc hnear => ?_
    rw [← into_nextIds]
    obtain ⟨m, hm⟩ := (hspreads.walked b hb).elim fun _ hwalk => hwalk.exists_distance
    obtain ⟨n, hn⟩ := (hspreads.walked c hc).elim fun _ hwalk => hwalk.exists_distance
    exact ⟨m, n, hm, hn, hnear.distance_le hm hn⟩

theorem reachableFrom_breadthFirst_sample :
    (Check.scattered.stepById? "c").isSome = true ∧
      Check.scattered.reachableFrom "c" = ["c", "a", "gone", "b"] ∧
      Relation.ReflTransGen (Worklist.Turns Check.scattered.nextIds) ⟨[], ["c"]⟩
        ⟨["c", "a", "gone", "b"], []⟩ ∧
      Relation.ReflTransGen Check.scattered.Follows "c" "gone" := by
  have hstep : (Check.scattered.stepById? "c").isSome = true := by decide +kernel
  have hids : Check.scattered.reachableFrom "c" = ["c", "a", "gone", "b"] := by decide +kernel
  obtain ⟨hturns, -, hmem, -⟩ := reachableFrom_breadthFirst hstep
  rw [hids] at hturns
  exact ⟨hstep, hids, hturns, (hmem "gone").1 (by simp [hids])⟩

end Workflow
end Runbook
