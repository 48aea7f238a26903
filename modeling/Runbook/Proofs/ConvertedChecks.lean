import Runbook.Proofs.ConvertedRoutes
import Runbook.Proofs.ReadSteps
import Runbook.Proofs.CheckedRoutes

/-! Conversion keeps definitions sound. Each check that a sequence has passed is carried over to the
steps of its graph, the edges that are new pass the checks of a graph, and what is left are the two
faults that an order of steps can hide: steps that nothing leads to, and no end. -/
namespace Runbook
open Conversion

/-- No branch has an empty target. Such a target counts as given where a sequence is converted, and
as none where it is checked. -/
def Workflow.Targeted (w : Workflow) : Prop :=
  ∀ s ∈ w.steps, ∀ d, s.body = .decision d → ∀ b ∈ d.branches, b.target ≠ some ""

/-- Definitions that are read hold no empty targets. -/
theorem Workflow.targeted_of_read {fresh : Nat} {raw : Value} {w : Workflow}
    (h : Workflow.read fresh raw = .ok w) : w.Targeted := by
  intro s hs d hd b hb htarget
  have htidy := (settled_of_read h s hs).tidy.body
  rw [hd] at htidy
  exact ((htidy.1 b hb).2 "" htarget).ne_empty rfl

namespace Workflow
variable {w g : Workflow} {s t : Step} {l : Limits} {number : Nat}

theorem clean_of_vetted (hv : s.Vetted w) (ht : ∀ d, s.body = .decision d →
    ∀ b ∈ d.branches, b.target ≠ some "") (next : Option String) : (step w s next).1 = [] := by
  cases hb : s.body with
  | decision d =>
    simp only [step, hb, List.append_eq_nil_iff, List.filterMap_eq_nil_iff, List.forall_mem_map]
    refine ⟨fun b hmem => ?_, ?_⟩
    · unfold branchEdge
      split
      · rfl
      · cases htarget : b.target with
        | none => rfl
        | some target =>
          have hgiven : Check.given? b.target = some target :=
            Check.given?_eq_some.2 ⟨htarget, fun h => ht d hb b hmem (htarget.trans (h ▸ rfl))⟩
          obtain ⟨u, hu⟩ := hv.branches d hb b hmem target hgiven
          simp [hu, problemOf?]
    · unfold elseEdge
      simp only
      split
      · rfl
      · next target htarget =>
        obtain ⟨u, hu⟩ := hv.otherwise d hb target htarget
        simp [hu]
  | _ => simp [step, hb]

theorem redrawn_drawn (hw : w.isGraph = false) (ht : w.Targeted) (h : w.problems true l = .ok []) :
    w.Redrawn w.drawn :=
  ⟨hw, rfl, rfl, rfl, fun s hs => clean_of_vetted (vetted_of_problems h hs) (ht s hs) _⟩

/-- What an edge can be: it leads to a step, and if it has a condition, then that of a branch. -/
structure Drawn (w : Workflow) (s : Step) (e : Transition) : Prop where
  target : ∃ t ∈ w.steps, e.target = some t.id
  condition : ∀ c ∈ e.condition, ∃ d, s.body = .decision d ∧
    ∃ b ∈ d.branches, Check.given? b.condition = some c

theorem drawn_onward {e : Transition} {label : String}
    (h : e ∈ ((w.idAfter s).map (edge · none label)).toList) : w.Drawn s e := by
  simp only [Option.mem_toList, Option.map_eq_some_iff] at h
  obtain ⟨id, hid, rfl⟩ := h
  obtain ⟨t, ht, rfl⟩ := mem_of_idAfter hid
  exact ⟨⟨t, ht, rfl⟩, nofun⟩

theorem drawn_branch {d : Decision} {b : Branch} {e : Transition} (hd : s.body = .decision d)
    (hb : b ∈ d.branches) (h : edgeOf? (branchEdge w s (w.idAfter s) b) = some e) :
    w.Drawn s e := by
  unfold branchEdge at h
  split at h
  · cases h
  · next condition hcondition =>
    have hgiven : ∀ c ∈ some condition, ∃ d, s.body = .decision d ∧
        ∃ b ∈ d.branches, Check.given? b.condition = some c := by
      rintro c ⟨⟩
      exact ⟨d, hd, b, hb, hcondition⟩
    simp only at h
    split at h
    · obtain ⟨id, hid, rfl⟩ := Option.map_eq_some_iff.1 h
      obtain ⟨t, ht, rfl⟩ := mem_of_idAfter hid
      exact ⟨⟨t, ht, rfl⟩, hgiven⟩
    · split at h
      · next t ht =>
        cases h
        exact ⟨⟨t, mem_of_resolve? ht, rfl⟩, hgiven⟩
      · cases h

theorem drawn_of_mem {e : Transition} (he : e ∈ (w.converted s).transitions) : w.Drawn s e := by
  cases hb : s.body with
  | decision d =>
    rw [Redrawn.converted_transitions hb] at he
    obtain he | he := List.mem_append.1 he
    · obtain ⟨x, hx, hedge⟩ := List.mem_filterMap.1 he
      obtain ⟨b, hmem, rfl⟩ := List.mem_map.1 hx
      exact drawn_branch hb hmem hedge
    · unfold elseEdge at he
      simp only at he
      split at he
      · exact drawn_onward he
      · split at he
        · next t ht =>
          obtain rfl := List.mem_singleton.1 he
          exact ⟨⟨t, mem_of_resolve? ht, rfl⟩, nofun⟩
        · exact drawn_onward he
  | resolve r => simp [converted, step, hb] at he
  | _ =>
    simp only [converted, step, hb] at he
    exact drawn_onward he

end Workflow

namespace Check
variable {w g : Workflow} {s : Step} {l : Limits} {number : Nat}

theorem contentOf?_converted (w : Workflow) (s : Step) {field name : String}
    (h : (field, name) ∈ contentFields) : contentOf? (w.converted s) field = contentOf? s field := by
  simp only [contentFields, List.mem_cons, Prod.mk.injEq, List.not_mem_nil, or_false] at h
  obtain ⟨rfl, -⟩ | ⟨rfl, -⟩ | ⟨rfl, -⟩ | ⟨rfl, -⟩ | ⟨rfl, -⟩ := h <;>
    cases hb : s.body <;>
    simp [contentOf?, Workflow.converted, step, hb, Step.toRecord, Body.toRecord, Fields.get?]

theorem stepSizeProblems_converted (h : stepSizeProblems number s l = []) :
    stepSizeProblems number (w.converted s) l = [] := by
  have hcontent : contentProblems number (w.converted s) l = contentProblems number s l := by
    refine List.filterMap_congr fun (field, name) hfield => ?_
    simp only [contentOf?_converted w s hfield]
  simp only [stepSizeProblems, List.append_eq_nil_iff] at h ⊢
  obtain ⟨⟨⟨htitle, hc⟩, hlists⟩, hjumps⟩ := h
  refine ⟨⟨⟨by simpa using htitle, hcontent ▸ hc⟩, ?_⟩, by simpa using hjumps⟩
  cases hb : s.body with
  | question q => simpa [Workflow.converted_body w s (by simp [hb]), hb] using hlists
  | decision d =>
    have hbranches : ¬l.maxBranches < d.branches.length := by simpa [hb, tooMany] using hlists
    have hnone : ¬l.maxBranches < 0 := by omega
    simp [Workflow.converted_decision w s hb, tooMany, hnone]
  | _ => simp [Workflow.converted_body w s (by simp [hb]), hb]

theorem supportProblems_converted (h : supportProblems w number s = []) :
    supportProblems g number (w.converted s) = [] := by
  cases hb : s.body with
  | decision d => simp [supportProblems, Workflow.converted_decision w s hb]
  | escalate e => simpa [supportProblems, Workflow.converted_body w s (by simp [hb]), hb] using h
  | resolve r =>
    have htransitions : (w.converted s).transitions = [] := by simp [Workflow.converted, step, hb]
    simp only [supportProblems, hb, List.append_eq_nil_iff] at h
    simp [supportProblems, Workflow.converted_body w s (by simp [hb]), hb, htransitions, h.1]
  | _ => simp [supportProblems, Workflow.converted_body w s (by simp [hb]), hb]

theorem jumpProblems_converted (hr : w.Redrawn g) (j : Jump) (n : Nat) :
    jumpProblems g number (w.converted s) j n = jumpProblems w number s j n := by
  have hliteral : ∀ c, isLiteralJump (w.converted s) c = isLiteralJump s c := by
    intro c
    cases hb : s.body with
    | decision d => simp [isLiteralJump, Workflow.converted_decision w s hb, hb]
    | _ => simp [isLiteralJump, Workflow.converted_body w s (by simp [hb]), hb]
  have hdangling : ∀ r, dangling? g r = dangling? w r := by
    intro r
    simp only [dangling?, hr.resolve?_eq, Option.isNone_map]
  simp only [jumpProblems, hliteral, hdangling]

theorem transitionProblems_converted (h : ∀ d, s.body = .decision d →
    decisionProblems w number d = []) : transitionProblems g number (w.converted s) = [] := by
  unfold transitionProblems
  split
  · refine List.filterMap_eq_nil_iff.2 fun (e, n) he => if_neg ?_
    have he := Workflow.drawn_of_mem (List.fst_mem_of_mem_zipIdx he)
    cases hc : given? e.condition with
    | none => simp
    | some c =>
      obtain ⟨d, hd, b, hb, hgiven⟩ := he.condition c (given?_eq_some.1 hc).1
      obtain ⟨m, hbranch⟩ := branch_of_decisionProblems (h d hd) hb
      simp only [branchProblems, hgiven, List.append_eq_nil_iff] at hbranch
      simpa using hbranch.1.2
  · rfl

theorem stepProblems_converted (hr : w.Redrawn g) (h : stepProblems w l s number = []) :
    stepProblems g l (w.converted s) number = [] := by
  simp only [stepProblems, List.append_eq_nil_iff] at h ⊢
  obtain ⟨⟨⟨⟨⟨⟨htitle, hsize⟩, hsupport⟩, hdecision⟩, hjumps⟩, hsub⟩, -⟩ := h
  refine ⟨⟨⟨⟨⟨⟨by simpa using htitle, stepSizeProblems_converted hsize⟩,
    supportProblems_converted hsupport⟩, ?_⟩, ?_⟩, ?_⟩, transitionProblems_converted fun d hd => ?_⟩
  · cases hb : s.body with
    | decision d => simp [Workflow.converted_decision w s hb, decisionProblems, dangling?]
    | _ => simp [Workflow.converted_body w s (by simp [hb]), hb]
  · simpa [jumpProblems_converted hr] using hjumps
  · cases hb : s.body with
    | decision d => simp [Workflow.converted_decision w s hb]
    | subFlow f => simp [hb, subFlowProblems, hr.linear] at hsub
    | _ => simp [Workflow.converted_body w s (by simp [hb]), hb]
  · simpa [hd] using hdecision

theorem repeatedIds_of_distinct (hd : w.Distinct) : repeatedIds w = [] := by
  refine List.filter_eq_nil_iff.2 fun id _ => ?_
  have honce := List.nodup_iff_count.1 hd id
  rw [List.count, List.countP_map] at honce
  simpa [Function.comp_def] using honce

theorem startProblems_redrawn (hr : w.Redrawn g) : startProblems g = [] := by
  unfold startProblems
  rw [hr.start]
  cases hsteps : w.steps with
  | nil => rfl
  | cons s rest =>
    have hmem : w.converted s ∈ g.steps := by simp [hr.steps, hsteps]
    have hid : s.id ∈ nodeIds g := by simpa using mem_nodeIds hmem
    simp only [List.head?_cons, Option.map_some]
    split
    · next id hgiven =>
      obtain rfl : s.id = id := by simpa using (Option.filter_eq_some_iff.1 hgiven).1
      simp [hid]
    · rfl

theorem danglingProblems_redrawn (hr : w.Redrawn g) : danglingProblems g = [] := by
  refine List.flatMap_eq_nil_iff.2 fun u hu => List.filterMap_eq_nil_iff.2 fun (e, n) he => ?_
  have hmem := (nodes_spec g).1 u hu
  rw [hr.steps] at hmem
  obtain ⟨s, -, rfl⟩ := List.mem_map.1 hmem
  obtain ⟨t, ht, htarget⟩ := (Workflow.drawn_of_mem (List.fst_mem_of_mem_zipIdx he)).target
  simp only at htarget
  have hid : t.id ∈ nodeIds g := by
    have hnode := mem_nodeIds (hr.steps ▸ List.mem_map_of_mem ht)
    simpa using hnode
  simp [htarget, Option.filter, hid]

theorem graphProblems_redrawn (hr : w.Redrawn g) (hne : w.steps ≠ []) :
    graphProblems g true = reachProblems g ++ endProblems g := by
  have hsteps : g.steps.isEmpty = false := by simpa [hr.steps] using hne
  simp [graphProblems, hsteps, startProblems_redrawn hr, danglingProblems_redrawn hr]

theorem nodeLabel_redrawn (hr : w.Redrawn g) {id : String} (h : id ∈ nodeIds g) :
    ∃ s ∈ w.steps, nodeLabel g id = s.label := by
  obtain ⟨u, hu, hid⟩ := exists_of_mem_nodeIds h
  have hsome : (g.node? id).isSome := List.find?_isSome.2 ⟨u, hu, by simp [hid]⟩
  obtain ⟨v, hv⟩ := Option.isSome_iff_exists.1 hsome
  have hmem := List.mem_of_find?_eq_some hv
  rw [hr.steps] at hmem
  obtain ⟨s, hs, rfl⟩ := List.mem_map.1 hmem
  exact ⟨s, hs, by simp [nodeLabel, hv, Step.label]⟩

theorem mem_nodeIds_of_unreached {id : String} (h : id ∈ unreachedIds g) : id ∈ nodeIds g := by
  unfold unreachedIds at h
  split at h
  · cases h
  · exact (List.mem_filter.1 h).1

theorem mem_graphProblems_redrawn (hr : w.Redrawn g) (hne : w.steps ≠ []) {p : String}
    (h : p ∈ graphProblems g true) :
    (∃ s ∈ w.steps, p = "Step '" ++ s.label ++ "' is not reachable from the start node") ∨
      p = "No terminal nodes found - workflow has no ending point" := by
  rw [graphProblems_redrawn hr hne] at h
  obtain h | h := List.mem_append.1 h
  · obtain ⟨id, hid, rfl⟩ := List.mem_map.1 h
    obtain ⟨s, hs, hlabel⟩ := nodeLabel_redrawn hr (mem_nodeIds_of_unreached hid)
    exact .inl ⟨s, hs, by rw [hlabel]⟩
  · unfold endProblems at h
    split at h
    · exact .inr (List.mem_singleton.1 h)
    · cases h

end Check

namespace Value

theorem depthFlaw?_eq_none_iff {v : Value} : v.depthFlaw? = none ↔ v.height ≤ maxHeight := by
  simp [depthFlaw?, isWritable]

theorem heightOfFields_append (fields others : Fields) :
    heightOfFields (fields ++ others) = max (heightOfFields fields) (heightOfFields others) := by
  induction fields with
  | nil => simp [heightOfFields]
  | cons field rest ih => simp [heightOfFields, ih, Nat.max_assoc]

@[simp] theorem height_ofText? (o : Option String) : (ofText? o).height = 1 := by
  cases o <;> rfl

theorem height_transitions (es : List Transition) :
    (ofRecords Fields.full (es.map (·.toRecord))).height ≤ 3 := by
  simp only [ofRecords, height, List.map_map]
  induction es with
  | nil => simp [heightOfItems]
  | cons e es ih =>
    simp only [List.map_cons, heightOfItems, Function.comp, Fields.full, Transition.toRecord,
      height, heightOfFields, height_ofText?] at ih ⊢
    omega

end Value

namespace Step
variable {w : Workflow} {s : Step}

theorem depthFlaw?_converted (w : Workflow) (s : Step) :
    (w.converted s).depthFlaw? = s.depthFlaw? := by
  cases hb : s.body <;> simp [depthFlaw?, givenValues, Workflow.converted, step, hb]

theorem height_converted {n : Nat} (hn : 3 ≤ n)
    (h : Value.heightOfFields (s.toRecord Fields.full) ≤ n) :
    Value.heightOfFields ((w.converted s).toRecord Fields.full) ≤ n := by
  have hedges := Value.height_transitions (w.converted s).transitions
  simp only [toRecord, Value.heightOfFields_append, Value.heightOfFields, Value.height_ofText?,
    Nat.max_le] at h ⊢
  obtain ⟨⟨⟨hid, htitle, hdescription, hjumps, -, hkind, -⟩, hbody⟩, hextras⟩ := h
  have hedges : (Value.ofRecords Fields.full
      ((w.converted s).transitions.map (·.toRecord))).height ≤ n := by omega
  refine ⟨⟨⟨hid, htitle, hdescription, ?_, hedges, hkind, Nat.zero_le n⟩, ?_⟩, ?_⟩
  · simpa using hjumps
  · cases hb : s.body with
    | decision d =>
      have hone : 1 ≤ n := by omega
      simpa [Workflow.converted_decision w s hb, Body.toRecord, Value.ofRecords,
        Value.heightOfFields, Value.height, Value.heightOfItems] using hone
    | _ => simpa [Workflow.converted_body w s (by simp [hb]), hb] using hbody
  · simpa using hextras

theorem recordFlaw?_converted (h : s.recordFlaw? = none) : (w.converted s).recordFlaw? = none := by
  simp only [recordFlaw?, Option.or_eq_none_iff, depthFlaw?_converted,
    Value.depthFlaw?_eq_none_iff, Value.height, Value.maxHeight] at h ⊢
  exact ⟨h.1, Nat.succ_le_succ (height_converted (by decide) (Nat.le_of_succ_le_succ h.2))⟩

end Step

namespace Workflow
variable {w g : Workflow} {l : Limits} {allowCycles : Bool}

theorem size_of_problems (h : w.problems allowCycles l = .ok []) :
    w.steps ≠ [] ∧ ¬l.maxSteps < w.steps.length ∧ ∀ s ∈ w.steps, s.recordFlaw? = none := by
  unfold problems at h
  split at h
  · cases h
  · next hne =>
    refine ⟨by simpa using hne, ?_⟩
    unfold Check.sizeProblem? stepBytes at h
    split at h
    · cases h
    · cases h
    · next hsize =>
      split at hsize
      · cases hsize
      · next hmost =>
        refine ⟨hmost, List.findSome?_eq_none_iff.1 ?_⟩
        cases hflaw : w.steps.findSome? (·.recordFlaw?) with
        | none => rfl
        | some why => simp [hflaw] at hsize

theorem sizeProblem?_redrawn (hr : w.Redrawn g) (h : w.problems allowCycles l = .ok []) :
    ∃ bytes, g.stepBytes = .ok bytes ∧
      ((bytes : Int) ≤ l.maxTotalSize → Check.sizeProblem? g l = .ok none) := by
  obtain ⟨-, hmost, hflaws⟩ := size_of_problems h
  have hflaw : g.steps.findSome? (·.recordFlaw?) = none := by
    rw [hr.steps, List.findSome?_map, List.findSome?_eq_none_iff]
    exact fun s hs => Step.recordFlaw?_converted (hflaws s hs)
  refine ⟨_, by rw [stepBytes, hflaw], fun hsize => ?_⟩
  have hlength : ¬l.maxSteps < g.steps.length := by simpa [hr.steps] using hmost
  have hfits : ¬l.maxTotalSize < (Json.print (.record [("steps",
      Value.ofRecords Fields.full (g.steps.map (·.toRecord Fields.full)))])).utf8ByteSize := by
    omega
  simp only [Check.sizeProblem?, hlength, if_false, stepBytes, hflaw, hfits]

/-- The graph of a sequence without problems has none that lie in its steps. -/
theorem problems_redrawn (hr : w.Redrawn g) (h : w.problems allowCycles l = .ok [])
    (hsize : Check.sizeProblem? g l = .ok none) (hgraph : Check.graphProblems g true = []) :
    g.problems true l = .ok [] := by
  obtain ⟨hids, hsteps, -⟩ := problems_eq_nil h
  have hne : g.steps.isEmpty = false := by simpa [hr.steps] using (size_of_problems h).1
  have hdistinct : g.Distinct := by
    simpa [Distinct, hr.steps, Function.comp_def] using Check.distinct_of_repeatedIds hids
  have hclean : ∀ x ∈ g.steps.zipIdx 1, Check.stepProblems g l x.1 x.2 = [] := by
    intro x hx
    rw [hr.steps, List.zipIdx_map] at hx
    obtain ⟨y, hy, rfl⟩ := List.mem_map.1 hx
    exact Check.stepProblems_converted hr (List.flatMap_eq_nil_iff.1 hsteps y hy)
  have hflat := List.flatMap_eq_nil_iff.2 hclean
  simp only [problems, hne, hsize, Check.repeatedIds_of_distinct hdistinct, hgraph, hr.graph,
    Bool.false_eq_true, if_false, if_true, List.map_nil, List.nil_append, List.append_nil]
  exact congrArg Except.ok hflat

/-- Conversion keeps definitions sound. A sequence without problems is converted into a graph without
problems, if the steps of the graph are not too large as a whole; or the conversion fails, and says
only that steps cannot be reached or that there is no end. -/
theorem toGraph_valid (ht : w.Targeted) (hw : w.isGraph = false) (h : w.problems true l = .ok []) :
    (∃ problems, w.toGraph = .error (.problems problems) ∧ ∀ p ∈ problems,
      (∃ s ∈ w.steps, p = "Step '" ++ s.label ++ "' is not reachable from the start node") ∨
        p = "No terminal nodes found - workflow has no ending point") ∨
    ∃ g bytes, w.toGraph = .ok g ∧ g.stepBytes = .ok bytes ∧
      ((bytes : Int) ≤ l.maxTotalSize → g.problems true l = .ok []) := by
  have hr := redrawn_drawn hw ht h
  obtain ⟨hne, -, -⟩ := size_of_problems h
  have hclean : (w.steps.flatMap fun s => (step w s (w.idAfter s)).1) = [] :=
    List.flatMap_eq_nil_iff.2 hr.clean
  have hsteps : w.steps.isEmpty = false := by simpa using hne
  have hgraph := toGraph_eq (distinct_of_problems h) hw
  simp only [hsteps, hclean, List.nil_append, Bool.false_eq_true, if_false] at hgraph
  split at hgraph
  · next hsound =>
    obtain ⟨bytes, hbytes, hsize⟩ := sizeProblem?_redrawn hr h
    exact .inr ⟨w.drawn, bytes, hgraph, hbytes, fun hle =>
      problems_redrawn hr h (hsize hle) (List.isEmpty_iff.1 hsound)⟩
  · exact .inl ⟨_, hgraph, fun p hp => Check.mem_graphProblems_redrawn hr hne hp⟩

def repairing : Workflow :=
  ⟨"repairing", "", false, none,
    [⟨"ask", "Works?", none, [], [], .question ⟨none, some "works", "text", []⟩, []⟩,
      ⟨"pick", "Pick", none, [], [],
        .decision ⟨false, [⟨some "works == 'yes'", some "Done"⟩], none⟩, []⟩,
      ⟨"repair", "Repair", none, [], [], .action ⟨none, []⟩, []⟩,
      ⟨"done", "Done", none, [], [], .resolve ⟨none, none, false, false⟩, []⟩]⟩

theorem toGraph_valid_repairing :
    repairing.Targeted ∧ repairing.problems true .standard = .ok [] ∧
      ∃ g, repairing.toGraph = .ok g ∧ g.problems true .standard = .ok [] := by
  have htargeted : repairing.Targeted := by
    intro s hs d hd b hb
    simp only [repairing, List.mem_cons, List.not_mem_nil, or_false] at hs
    obtain rfl | rfl | rfl | rfl := hs <;> cases hd
    obtain rfl := List.mem_singleton.1 hb
    decide
  have hproblems : repairing.problems true .standard = .ok [] := by decide +kernel
  have hgraph : repairing.toGraph = .ok repairing.drawn := rfl
  have hsize : repairing.drawn.stepBytes.map (fun n => decide ((n : Int) ≤ 10000000)) = .ok true := by
    decide +kernel
  refine ⟨htargeted, hproblems, ?_⟩
  obtain ⟨problems, hfailed, -⟩ | ⟨g, bytes, hg, hbytes, hsound⟩ :=
    toGraph_valid htargeted rfl hproblems
  · cases hgraph.symm.trans hfailed
  · cases hgraph.symm.trans hg
    rw [hbytes] at hsize
    have hle : decide ((bytes : Int) ≤ 10000000) = true := Except.ok.inj hsize
    exact ⟨_, hg, hsound (of_decide_eq_true hle)⟩

end Workflow
end Runbook
