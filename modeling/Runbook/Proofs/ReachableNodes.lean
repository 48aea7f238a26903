import Mathlib.Data.List.Nodup
import Mathlib.Logic.Relation
import Runbook.Proofs.GraphChecks
import Runbook.Proofs.GraphSearch

/-! What can be reached, and what is reported as out of reach. A breadth-first search visits exactly
the nodes that a path of edges leads to. It may be run as a loop over a queue, in which nodes come
more than once and names come that are no nodes at all: the loop ends on every graph. -/
namespace Runbook
open Check (Edge)

section Exploring
variable {next : String → List String} {domain remaining pending pending' seeds : List String}
  {a b : String}

theorem reached_of_mem_explore {n : Nat} (hin : ∀ a ∈ remaining, a ∈ domain)
    (h : b ∈ explore next n remaining pending) :
    ∃ a ∈ pending, a ∈ domain ∧ Relation.ReflTransGen (Edge next domain) a b := by
  induction n generalizing remaining pending with
  | zero => cases h
  | succ n ih =>
    cases hfind : pending.find? remaining.contains with
    | none => simp only [explore, hfind, List.not_mem_nil] at h
    | some c =>
      have hc : c ∈ domain := hin c (by simpa using List.find?_some hfind)
      have hpending : c ∈ pending := List.mem_of_find?_eq_some hfind
      simp only [explore, hfind, List.mem_cons] at h
      obtain rfl | h := h
      · exact ⟨b, hpending, hc, .refl⟩
      · obtain ⟨a, ha, hd, hpath⟩ := ih (fun a ha => hin a (List.mem_of_mem_erase ha)) h
        obtain ha | ha := List.mem_append.1 ha
        · exact ⟨a, ha, hd, hpath⟩
        · exact ⟨c, hpending, hc, .head ⟨hc, ha, hd⟩ hpath⟩

/-- The search visits exactly the nodes that a path of edges leads to, from a seed that is a node. -/
theorem mem_reachable_iff : b ∈ reachable next domain seeds ↔
    ∃ a ∈ seeds, a ∈ domain ∧ Relation.ReflTransGen (Edge next domain) a b := by
  constructor
  · exact reached_of_mem_explore fun _ h => h
  · rintro ⟨a, ha, hd, hpath⟩
    induction hpath with
    | refl => exact seed_mem_reachable ha hd
    | tail _ hedge ih => exact next_mem_reachable ih hedge.2.1 hedge.2.2

theorem explore_congr (n : Nat)
    (h : pending.filter remaining.contains = pending'.filter remaining.contains) :
    explore next n remaining pending = explore next n remaining pending' := by
  induction n generalizing remaining pending pending' with
  | zero => rfl
  | succ n ih =>
    have hfind : pending.find? remaining.contains = pending'.find? remaining.contains := by
      rw [← List.head?_filter, ← List.head?_filter, h]
    unfold explore
    rw [hfind]
    split
    · rfl
    · next c _ =>
      have hfew : ∀ l : List String, l.filter (remaining.erase c).contains =
          (l.filter remaining.contains).filter (remaining.erase c).contains := by
        intro l
        rw [List.filter_filter]
        refine List.filter_congr fun d _ => ?_
        by_cases hd : d ∈ remaining.erase c
        · simp [hd, List.mem_of_mem_erase hd]
        · simp [hd]
      refine congrArg (c :: ·) (ih ?_)
      rw [List.filter_append, List.filter_append, hfew pending, hfew pending', h]

end Exploring

/-- What a loop over a queue knows: the nodes it has visited, and those still to look at, which may
come more than once and need not be nodes of the graph. -/
structure Worklist where
  visited : List String
  queue : List String

namespace Worklist
variable {next : String → List String} {domain : List String}

/-- One pass takes the first of the queue. One that has been visited or is no node is passed over;
any other is visited, and where it leads to is put at the end, unless it has been visited. -/
def pass? (next : String → List String) (domain : List String) : Worklist → Option Worklist
  | ⟨_, []⟩ => none
  | ⟨visited, a :: queue⟩ =>
    if visited.contains a || !domain.contains a then some ⟨visited, queue⟩
    else
      let visited := visited ++ [a]
      some ⟨visited, queue ++ (next a).filter (!visited.contains ·)⟩

/-- The passes come to an end, with these nodes visited. -/
inductive Finishes (next : String → List String) (domain : List String) :
    Worklist → List String → Prop where
  | stop {l : Worklist} : l.pass? next domain = none → Finishes next domain l l.visited
  | pass {l l' : Worklist} {visited : List String} : l.pass? next domain = some l' →
      Finishes next domain l' visited → Finishes next domain l visited

def left (domain visited : List String) : List String := domain.filter (!visited.contains ·)

theorem left_append (hd : domain.Nodup) (visited : List String) (a : String) :
    left domain (visited ++ [a]) = (left domain visited).erase a := by
  rw [left, left, (hd.filter _).erase_eq_filter, List.filter_filter]
  refine List.filter_congr fun b _ => ?_
  by_cases hb : b ∈ visited <;> by_cases hba : b = a <;> simp [hb, hba]

theorem filter_unvisited (visited names : List String) :
    (names.filter (!visited.contains ·)).filter (left domain visited).contains =
      names.filter (left domain visited).contains := by
  rw [List.filter_filter]
  refine List.filter_congr fun a _ => ?_
  by_cases ha : a ∈ visited <;> simp [left, ha]

theorem explore_nil (n : Nat) (remaining : List String) : explore next n remaining [] = [] := by
  cases n <;> rfl

section Passing
variable {visited : List String} {a : String}

theorem pass?_visit (ha : a ∈ left domain visited) (queue : List String) :
    pass? next domain ⟨visited, a :: queue⟩ =
      some ⟨visited ++ [a], queue ++ (next a).filter (!(visited ++ [a]).contains ·)⟩ := by
  obtain ⟨hin, hnew⟩ : a ∈ domain ∧ a ∉ visited := by simpa [left] using ha
  simp [pass?, hin, hnew]

theorem pass?_skip (ha : a ∉ left domain visited) (queue : List String) :
    pass? next domain ⟨visited, a :: queue⟩ = some ⟨visited, queue⟩ := by
  have hskip : a ∉ visited → a ∉ domain := fun hnew hin => ha (by simp [left, hnew, hin])
  simpa [pass?] using hskip

theorem explore_visit (hd : domain.Nodup) (ha : a ∈ left domain visited) (n : Nat)
    (queue : List String) :
    explore next (n + 1) (left domain visited) (a :: queue) =
      a :: explore next n (left domain (visited ++ [a]))
        (queue ++ (next a).filter (!(visited ++ [a]).contains ·)) := by
  have hdone : ¬(left domain (visited ++ [a])).contains a = true := by simp [left]
  simp only [explore, List.find?_cons, List.contains_iff_mem.2 ha, ← left_append hd]
  refine congrArg (a :: ·) (explore_congr n ?_)
  rw [List.cons_append, List.filter_cons_of_neg hdone, List.filter_append, List.filter_append,
    filter_unvisited]

theorem explore_skip (ha : a ∉ left domain visited) (n : Nat) (queue : List String) :
    explore next n (left domain visited) (a :: queue) =
      explore next n (left domain visited) queue := by
  refine explore_congr n ?_
  rw [List.filter_cons_of_neg (by simpa using ha)]

end Passing

theorem finishes_explore (hd : domain.Nodup) (n : Nat) (visited queue : List String)
    (hn : (left domain visited).length ≤ n) :
    Finishes next domain ⟨visited, queue⟩
      (visited ++ explore next n (left domain visited) queue) := by
  -- A pass uses up a node that is left, or else the first of the queue.
  induction n using Nat.strongRecOn generalizing visited queue with
  | ind n ih =>
    induction queue with
    | nil =>
      rw [explore_nil, List.append_nil]
      exact .stop rfl
    | cons a queue ihqueue =>
      by_cases ha : a ∈ left domain visited
      · have hpos := List.length_pos_of_mem ha
        obtain ⟨m, rfl⟩ : ∃ m, n = m + 1 := ⟨n - 1, by omega⟩
        have hlength : (left domain (visited ++ [a])).length ≤ m := by
          rw [left_append hd, List.length_erase_of_mem ha]
          omega
        have hrest := ih m (Nat.lt_succ_self m) (visited ++ [a])
          (queue ++ (next a).filter (!(visited ++ [a]).contains ·)) hlength
        rw [List.append_assoc, List.singleton_append, ← explore_visit hd ha] at hrest
        exact .pass (pass?_visit ha queue) hrest
      · rw [explore_skip ha]
        exact .pass (pass?_skip ha queue) ihqueue

/-- The loop ends on every graph, and has then visited what the search does, in the same order. -/
theorem finishes_reachable (hd : domain.Nodup) (seeds : List String) :
    Finishes next domain ⟨[], seeds⟩ (reachable next domain seeds) := by
  have hall : left domain [] = domain := List.filter_eq_self.2 (by simp)
  have hfinishes : Finishes next domain ⟨[], seeds⟩
      ([] ++ explore next domain.length (left domain []) seeds) :=
    finishes_explore hd domain.length [] seeds (by rw [hall])
  rwa [hall, List.nil_append] at hfinishes

end Worklist

theorem nodup_eraseDups (names : List String) : names.eraseDups.Nodup := by
  induction hn : names.length using Nat.strongRecOn generalizing names with
  | ind n ih =>
    cases names with
    | nil => exact .nil
    | cons a rest =>
      have hshort : (rest.filter (!· == a)).length < n := by
        have hfew := List.length_filter_le (!· == a) rest
        simp only [List.length_cons] at hn
        omega
      rw [List.eraseDups_cons, List.nodup_cons]
      exact ⟨by simp [List.mem_eraseDups], ih _ hshort _ rfl⟩

namespace Check
variable (w : Workflow)

theorem nodeIds_eq : nodeIds w = (w.steps.map (·.id)).eraseDups := by
  suffices h : ∀ ss kept : List Step,
      (ss.foldl (fun kept s => if kept.any (·.id == s.id) then kept else kept ++ [s]) kept).map
          (·.id) =
        kept.map (·.id) ++
          ((ss.map (·.id)).filter (!(kept.map (·.id)).contains ·)).eraseDups by
    have hall := h w.steps []
    rwa [List.filter_eq_self.2 (by simp)] at hall
  intro ss
  induction ss with
  | nil => simp
  | cons s rest ih =>
    intro kept
    have hany : kept.any (·.id == s.id) = (kept.map (·.id)).contains s.id := by
      rw [Bool.eq_iff_iff]
      simp
    rw [List.foldl_cons, ih, hany, List.map_cons]
    by_cases hseen : s.id ∈ kept.map (·.id)
    · have hdrop : ¬(!(kept.map (·.id)).contains s.id) = true := by simpa using hseen
      rw [if_pos (List.contains_iff_mem.2 hseen), List.filter_cons, if_neg hdrop]
    · have hkeep : (!(kept.map (·.id)).contains s.id) = true := by simpa using hseen
      rw [if_neg (by simpa using hseen), List.filter_cons, if_pos hkeep, List.eraseDups_cons,
        List.filter_filter, List.map_append, List.map_singleton, List.append_assoc]
      refine congrArg (fun ids : List String => kept.map (·.id) ++ (s.id :: ids.eraseDups)) ?_
      refine List.filter_congr fun id _ => ?_
      by_cases hid : id = s.id <;> simp [hid]

theorem nodup_nodeIds : (nodeIds w).Nodup := nodeIds_eq w ▸ nodup_eraseDups _

/-- The nodes that the start leads to along edges are what the loop over a queue ends with, and the
report names all others and no more, in the order of the ids in the definition. -/
theorem graphProblems_unreached (hw : w.steps ≠ []) (allowCycles : Bool) :
    ∃ start reached, w.start? = some start ∧
      Worklist.Finishes (edges w) (nodeIds w) ⟨[], [start.id]⟩ reached ∧
      (∀ id, id ∈ reached ↔ Relation.ReflTransGen (Edge (edges w) (nodeIds w)) start.id id) ∧
      graphProblems w allowCycles =
        startProblems w ++ danglingProblems w ++
          ((w.steps.map (·.id)).eraseDups.filter (!reached.contains ·)).map
            (fun id => "Step '" ++ nodeLabel w id ++ "' is not reachable from the start node") ++
          endProblems w ++ (if allowCycles then [] else cycleProblems w) := by
  obtain ⟨start, hstart⟩ : ∃ start, w.start? = some start := by
    refine Option.isSome_iff_exists.1 ?_
    unfold Workflow.start?
    split
    · rfl
    · simpa using hw
  have hnode : start.id ∈ nodeIds w := mem_nodeIds (Workflow.mem_of_start? hstart)
  refine ⟨start, reachable (edges w) (nodeIds w) [start.id], hstart,
    Worklist.finishes_reachable (nodup_nodeIds w) [start.id], fun id => ?_, ?_⟩
  · simp [mem_reachable_iff, hnode]
  · have hunreached : unreachedIds w =
        (nodeIds w).filter (!(reachable (edges w) (nodeIds w) [start.id]).contains ·) := by
      simp only [unreachedIds, hstart]
    rw [graphProblems, if_neg (by simpa using hw), reachProblems, hunreached, nodeIds_eq]

def scattered : Workflow :=
  ⟨"scattered", "", true, some "a",
    [⟨"c", "C", none, [], [⟨some "c", none, none⟩, ⟨some "a", none, none⟩],
        .action ⟨none, []⟩, []⟩,
      ⟨"a", "A", none, [], [⟨some "gone", none, none⟩, ⟨some "b", none, none⟩],
        .action ⟨none, []⟩, []⟩,
      ⟨"b", "B", none, [⟨some "completed", some "A"⟩], [], .action ⟨none, []⟩, []⟩,
      ⟨"a", "Again", none, [], [⟨some "c", none, none⟩], .action ⟨none, []⟩, []⟩]⟩

theorem graphProblems_unreached_sample :
    scattered.steps ≠ [] ∧
      (∃ reached, Worklist.Finishes (edges scattered) (nodeIds scattered) ⟨[], ["a"]⟩ reached ∧
        ∀ id, id ∈ reached ↔
          Relation.ReflTransGen (Edge (edges scattered) (nodeIds scattered)) "a" id) ∧
      graphProblems scattered true =
        ["Step 'A', Transition 1: References non-existent step ID: gone",
          "Step 'C' is not reachable from the start node"] := by
  have hne : scattered.steps ≠ [] := by simp [scattered]
  obtain ⟨start, reached, hstart, hfinishes, hreached, -⟩ :=
    graphProblems_unreached scattered hne true
  obtain rfl : scattered.steps[1] = start := Option.some.inj hstart
  exact ⟨hne, ⟨reached, hfinishes, hreached⟩, by decide +kernel⟩

end Check
end Runbook
