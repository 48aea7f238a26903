import Mathlib.Data.List.Basic
import Runbook.Proofs.GraphChecks
import Runbook.Proofs.RouteTargets

/-! What a definition without problems promises its runs: every jump, branch, else target and
transition that applies leads where it says. The checks and the routes are separate code; here each
reference that a route follows is one that a check has looked up. -/
namespace Runbook

/-- The first item of a list for which a test that may fail holds. -/
def First {ε α : Type} (p : α → Except ε Bool) (xs : List α) (x : α) : Prop :=
  ∃ before after, xs = before ++ x :: after ∧ (∀ y ∈ before, p y = .ok false) ∧ p x = .ok true

namespace First
variable {ε α : Type} {p : α → Except ε Bool} {x y : α} {xs : List α}

theorem mem (h : First p xs x) : x ∈ xs := by
  obtain ⟨before, after, rfl, -, -⟩ := h
  simp

theorem holds (h : First p xs x) : p x = .ok true := by
  obtain ⟨before, after, -, -, hx⟩ := h
  exact hx

theorem here (h : p x = .ok true) : First p (x :: xs) x := ⟨[], xs, rfl, by simp, h⟩

theorem later (hy : p y = .ok false) (h : First p xs x) : First p (y :: xs) x := by
  obtain ⟨before, after, rfl, hbefore, hx⟩ := h
  exact ⟨y :: before, after, rfl, by simpa using ⟨hy, hbefore⟩, hx⟩

theorem cases_head (h : First p (y :: xs) x) :
    (x = y ∧ p y = .ok true) ∨ (p y = .ok false ∧ First p xs x) := by
  obtain ⟨before, after, hsplit, hbefore, hx⟩ := h
  cases before with
  | nil =>
    simp only [List.nil_append, List.cons.injEq] at hsplit
    obtain ⟨rfl, rfl⟩ := hsplit
    exact .inl ⟨rfl, hx⟩
  | cons z before =>
    simp only [List.cons_append, List.cons.injEq] at hsplit
    obtain ⟨rfl, rfl⟩ := hsplit
    exact .inr ⟨hbefore y List.mem_cons_self,
      before, after, rfl, fun z hz => hbefore z (List.mem_cons_of_mem _ hz), hx⟩

theorem unique (hx : First p xs x) (hy : First p xs y) : x = y := by
  induction xs with
  | nil => cases hx.mem
  | cons z xs ih =>
    obtain ⟨rfl, hz⟩ | ⟨hz, hx⟩ := hx.cases_head
    · obtain ⟨rfl, -⟩ | ⟨hz', -⟩ := hy.cases_head
      · rfl
      · cases hz.symm.trans hz'
    · obtain ⟨rfl, hz'⟩ | ⟨-, hy⟩ := hy.cases_head
      · cases hz.symm.trans hz'
      · exact ih hx hy

end First

def Jump.applies (s : Step) (rs : Store) (j : Jump) : Except Overflow Bool :=
  match Check.given? j.condition with
  | some condition => s.jumpHolds condition rs
  | none => .ok false

def Branch.applies (rs : Store) (b : Branch) : Except Overflow Bool :=
  match Check.given? b.condition with
  | some condition => Condition.holds condition rs
  | none => .ok false

def Transition.applies (rs : Store) (e : Transition) : Except Overflow Bool :=
  match Check.given? e.target with
  | some _ => e.satisfied rs
  | none => .ok false

/-- The route says that no step was found for its target. -/
def Route.Stray (r : Route) : Prop :=
  r.reason = some "else (target not found)" ∨
    ∃ condition, r.branch = some condition ∧
      r.reason = some ("matched: " ++ condition ++ " (target not found)")

namespace Check
variable {w : Workflow} {s : Step}

theorem given?_eq_some {x : Option String} {t : String} :
    given? x = some t ↔ x = some t ∧ t ≠ "" := by
  simp [given?, Option.filter_eq_some_iff]

theorem target?_of_dangling? {r : String} (h : dangling? w (some r) = none) (hr : r ≠ "") :
    ∃ t, w.resolve? r = some t := by
  have hsome : w.resolve? r ≠ none := by simpa [dangling?, Option.filter, hr] using h
  exact Option.ne_none_iff_exists'.1 hsome

theorem jump_of_jumpProblems {j : Jump} {number n : Nat} (h : jumpProblems w number s j n = []) :
    ∃ condition target t, given? j.condition = some condition ∧ given? j.target = some target ∧
      w.resolve? target = some t := by
  unfold jumpProblems at h
  simp only at h
  split at h
  · next condition target hc ht =>
    simp only [List.append_eq_nil_iff, Option.toList_eq_nil_iff, Option.map_eq_none_iff] at h
    obtain ⟨t, hresolve⟩ := target?_of_dangling? h.2 (given?_eq_some.1 ht).2
    exact ⟨condition, target, t, hc, ht, hresolve⟩
  · cases h

theorem branch_of_decisionProblems {d : Decision} {b : Branch} {number : Nat}
    (h : decisionProblems w number d = []) (hb : b ∈ d.branches) :
    ∃ n, branchProblems w number b n = [] := by
  obtain ⟨i, hi⟩ := List.getElem?_of_mem hb
  have hmem : (b, 1 + i) ∈ d.branches.zipIdx 1 := List.mk_add_mem_zipIdx_iff_getElem?.2 hi
  exact ⟨1 + i, List.flatMap_eq_nil_iff.1 (List.append_eq_nil_iff.1 h).1 _ hmem⟩

theorem decision_of_decisionProblems {d : Decision} {number : Nat}
    (h : decisionProblems w number d = []) :
    (∀ b ∈ d.branches, ∀ r, given? b.target = some r → ∃ t, w.resolve? r = some t) ∧
      ∀ r, given? d.elseTarget = some r → ∃ t, w.resolve? r = some t := by
  refine ⟨fun b hb r hr => ?_, fun r hr => ?_⟩
  · obtain ⟨n, hbranch⟩ := branch_of_decisionProblems h hb
    simp only [branchProblems, List.append_eq_nil_iff, Option.toList_eq_nil_iff,
      Option.map_eq_none_iff] at hbranch
    obtain ⟨htarget, hne⟩ := given?_eq_some.1 hr
    exact target?_of_dangling? (htarget ▸ hbranch.2) hne
  · have helse := (List.append_eq_nil_iff.1 h).2
    simp only [Option.toList_eq_nil_iff, Option.map_eq_none_iff] at helse
    obtain ⟨htarget, hne⟩ := given?_eq_some.1 hr
    exact target?_of_dangling? (htarget ▸ helse) hne

end Check

/-- What the checks establish of a step: each reference it gives leads to a step. -/
structure Step.Vetted (s : Step) (w : Workflow) : Prop where
  jumps : ∀ j ∈ s.jumps, ∃ condition target t, Check.given? j.condition = some condition ∧
    Check.given? j.target = some target ∧ w.resolve? target = some t
  branches : ∀ d, s.body = .decision d → ∀ b ∈ d.branches, ∀ r, Check.given? b.target = some r →
    ∃ t, w.resolve? r = some t
  otherwise : ∀ d, s.body = .decision d → ∀ r, Check.given? d.elseTarget = some r →
    ∃ t, w.resolve? r = some t
  transitions : w.isGraph = true → ∀ e ∈ s.transitions, ∀ r, Check.given? e.target = some r →
    ∃ t, w.resolve? r = some t ∧ t.id = r

namespace Workflow
variable {w : Workflow} {s t : Step} {rs : Store} {strategy : Strategy} {route : Route}
  {allowCycles : Bool} {l : Limits}

theorem vetted_of_problems (h : w.problems allowCycles l = .ok []) (hs : s ∈ w.steps) :
    s.Vetted w := by
  obtain ⟨hids, hsteps, hgraph⟩ := problems_eq_nil h
  obtain ⟨i, hi⟩ := List.getElem?_of_mem hs
  have hmem : (s, 1 + i) ∈ w.steps.zipIdx 1 := List.mk_add_mem_zipIdx_iff_getElem?.2 hi
  have hstep := List.flatMap_eq_nil_iff.1 hsteps _ hmem
  simp only [Check.stepProblems, List.append_eq_nil_iff] at hstep
  obtain ⟨⟨⟨⟨-, hdecision⟩, hjumps⟩, -⟩, -⟩ := hstep
  have hdecided : ∀ d, s.body = .decision d → Check.decisionProblems w (1 + i) d = [] := by
    intro d hd
    simpa [hd] using hdecision
  constructor
  · intro j hj
    obtain ⟨k, hk⟩ := List.getElem?_of_mem hj
    have hmem : (j, 1 + k) ∈ s.jumps.zipIdx 1 := List.mk_add_mem_zipIdx_iff_getElem?.2 hk
    exact Check.jump_of_jumpProblems (List.flatMap_eq_nil_iff.1 hjumps _ hmem)
  · exact fun d hd => (Check.decision_of_decisionProblems (hdecided d hd)).1
  · exact fun d hd => (Check.decision_of_decisionProblems (hdecided d hd)).2
  · intro hg e he r hr
    have hd := Check.distinct_of_repeatedIds hids
    obtain ⟨hid, hne⟩ := Check.given?_eq_some.1 hr
    have hdangling := Check.danglingProblems_of_graphProblems (hgraph hg)
    obtain ⟨t, ht, rfl⟩ :=
      Check.exists_of_mem_nodeIds (Check.mem_nodeIds_of_transition hdangling hd hs he hid hne)
    exact ⟨t, by rw [resolve?, stepById?_id hne hd ht], rfl⟩

theorem jumpRoute?_cons {j : Jump} {js : List Jump} {condition target : String}
    (hc : Check.given? j.condition = some condition) (ht : Check.given? j.target = some target)
    (hresolve : w.resolve? target = some t) :
    w.jumpRoute? s rs (j :: js) = (do
      if ← j.applies s rs then pure (some ⟨w.positionOf t, some ("jump: " ++ condition), none⟩)
      else w.jumpRoute? s rs js) := by
  obtain ⟨hcondition, hcne⟩ := Check.given?_eq_some.1 hc
  obtain ⟨htarget, htne⟩ := Check.given?_eq_some.1 ht
  simp only [jumpRoute?, Jump.applies, hc]
  simp [hcondition, htarget, hcne, htne, hresolve]

theorem jumpRoute?_first {js : List Jump} {j : Jump}
    (hv : ∀ j ∈ js, ∃ condition target t, Check.given? j.condition = some condition ∧
      Check.given? j.target = some target ∧ w.resolve? target = some t)
    (h : First (Jump.applies s rs) js j) :
    ∃ condition t, j.condition = some condition ∧ w.target? j.target = some t ∧
      w.jumpRoute? s rs js = .ok (some ⟨w.positionOf t, some ("jump: " ++ condition), none⟩) := by
  induction js with
  | nil => cases h.mem
  | cons k js ih =>
    obtain ⟨condition, target, t, hc, ht, hresolve⟩ := hv k List.mem_cons_self
    rw [jumpRoute?_cons hc ht hresolve]
    obtain ⟨rfl, happlies⟩ | ⟨hskip, hlater⟩ := h.cases_head
    · have htarget : w.target? j.target = some t := by
        simpa [(Check.given?_eq_some.1 ht).1, target?] using hresolve
      refine ⟨condition, t, (Check.given?_eq_some.1 hc).1, htarget, ?_⟩
      rw [happlies]
      rfl
    · rw [hskip]
      exact ih (fun j hj => hv j (List.mem_cons_of_mem _ hj)) hlater

theorem transitionRoute_cons (e : Transition) (es : List Transition) :
    w.transitionRoute rs (e :: es) = (do
      if ← e.applies rs then
        match w.target? e.target with
        | some t => pure ⟨.node t.id, some ("routing to " ++ t.id), e.condition⟩
        | none => w.transitionRoute rs es
      else w.transitionRoute rs es) := by
  cases ht : e.target with
  | none => simp [transitionRoute, Transition.applies, Check.given?, ht, bind, Except.bind]
  | some target =>
    by_cases hempty : target = ""
    · have hgiven : Check.given? e.target = none := by simp [Check.given?, ht, hempty, Option.filter]
      simp only [transitionRoute, Transition.applies, hgiven]
      simp [ht, hempty, bind, Except.bind]
    · have hgiven : Check.given? e.target = some target := Check.given?_eq_some.2 ⟨ht, hempty⟩
      simp only [transitionRoute, Transition.applies, hgiven]
      simp only [ht]
      exact if_neg (by simpa using hempty)

theorem transitionRoute_first {es : List Transition} {e : Transition}
    (hv : ∀ e ∈ es, ∀ r, Check.given? e.target = some r → ∃ t, w.resolve? r = some t ∧ t.id = r)
    (h : First (Transition.applies rs) es e) :
    ∃ t, w.target? e.target = some t ∧ e.target = some t.id ∧
      w.transitionRoute rs es = .ok ⟨.node t.id, some ("routing to " ++ t.id), e.condition⟩ := by
  induction es with
  | nil => cases h.mem
  | cons f es ih =>
    rw [transitionRoute_cons]
    obtain ⟨rfl, happlies⟩ | ⟨hskip, hlater⟩ := h.cases_head
    · cases hr : Check.given? e.target with
      | none => simp [Transition.applies, hr] at happlies
      | some r =>
        obtain ⟨t, hresolve, rfl⟩ := hv e List.mem_cons_self r hr
        have hid := (Check.given?_eq_some.1 hr).1
        have htarget : w.target? e.target = some t := by simpa [hid, target?] using hresolve
        refine ⟨t, htarget, hid, ?_⟩
        rw [happlies, htarget]
        rfl
    · rw [hskip]
      exact ih (fun e he => hv e (List.mem_cons_of_mem _ he)) hlater

theorem transitionRoute_deadEnd {es : List Transition}
    (hv : ∀ e ∈ es, ∀ r, Check.given? e.target = some r → ∃ t, w.resolve? r = some t ∧ t.id = r)
    (h : w.transitionRoute rs es = .ok route) (hend : route.reason = some "dead end") :
    ∀ e ∈ es, e.applies rs = .ok false := by
  induction es with
  | nil => simp
  | cons f es ih =>
    have hrest := ih fun e he => hv e (List.mem_cons_of_mem _ he)
    cases hf : f.applies rs with
    | error o =>
      rw [transitionRoute_cons, hf] at h
      cases h
    | ok applies =>
      cases applies with
      | false =>
        rw [transitionRoute_cons, hf] at h
        exact List.forall_mem_cons.2 ⟨hf, hrest h⟩
      | true =>
        obtain ⟨t, -, -, hroute⟩ := transitionRoute_first hv (First.here hf)
        rw [h] at hroute
        cases hroute
        have hhead := congrArg (·.map (·.toList.head?)) hend
        simp at hhead

theorem transitionRoute_head {es : List Transition} (h : w.transitionRoute rs es = .ok route) :
    ∃ m, route.reason = some m ∧ (m.toList.head? = some 'r' ∨ m.toList.head? = some 'd') := by
  induction es with
  | nil =>
    cases h
    exact ⟨_, rfl, by decide⟩
  | cons f es ih =>
    rw [transitionRoute_cons] at h
    obtain ⟨applies, -, h⟩ := bind_eq_ok.1 h
    split at h
    · split at h
      · cases h
        exact ⟨_, rfl, by simp⟩
      · exact ih h
    · exact ih h

theorem jumpRoute?_head {js : List Jump} (h : w.jumpRoute? s rs js = .ok (some route)) :
    ∃ m, route.reason = some m ∧ m.toList.head? = some 'j' := by
  induction js with
  | nil => cases h
  | cons j js ih =>
    simp only [jumpRoute?] at h
    split at h
    · split at h
      · exact ih h
      · obtain ⟨holds, -, h⟩ := bind_eq_ok.1 h
        split at h
        · split at h
          · cases h
            exact ⟨_, rfl, by simp⟩
          · exact ih h
        · exact ih h
    · exact ih h

theorem firstBranch?_first {bs : List Branch} {condition : String} {b : Branch}
    (h : firstBranch? rs bs = .ok (some (condition, b))) :
    b.condition = some condition ∧ First (Branch.applies rs) bs b := by
  induction bs with
  | nil => cases h
  | cons c bs ih =>
    rw [firstBranch?_cons] at h
    cases hc : Check.given? c.condition with
    | none =>
      have hskip : c.applies rs = .ok false := by simp [Branch.applies, hc]
      simp only [show c.condition.filter (!·.isEmpty) = none from hc] at h
      exact ⟨(ih h).1, (ih h).2.later hskip⟩
    | some given =>
      simp only [show c.condition.filter (!·.isEmpty) = some given from hc] at h
      obtain ⟨holds, hholds, h⟩ := bind_eq_ok.1 h
      have happlies : c.applies rs = .ok holds := by simp [Branch.applies, hc, hholds]
      cases holds with
      | true =>
        cases h
        exact ⟨(Check.given?_eq_some.1 hc).1, First.here happlies⟩
      | false => exact ⟨(ih h).1, (ih h).2.later happlies⟩

theorem firstBranch?_none {bs : List Branch} (h : firstBranch? rs bs = .ok none) :
    ∀ b ∈ bs, b.applies rs = .ok false := by
  induction bs with
  | nil => simp
  | cons c bs ih =>
    rw [firstBranch?_cons] at h
    cases hc : Check.given? c.condition with
    | none =>
      have hskip : c.applies rs = .ok false := by simp [Branch.applies, hc]
      simp only [show c.condition.filter (!·.isEmpty) = none from hc] at h
      exact List.forall_mem_cons.2 ⟨hskip, ih h⟩
    | some given =>
      simp only [show c.condition.filter (!·.isEmpty) = some given from hc] at h
      obtain ⟨holds, hholds, h⟩ := bind_eq_ok.1 h
      cases holds with
      | true => cases h
      | false =>
        have hskip : c.applies rs = .ok false := by simp [Branch.applies, hc, hholds]
        exact List.forall_mem_cons.2 ⟨hskip, ih h⟩

end Workflow

namespace Route

theorem Stray.head {r : Route} (h : r.Stray) :
    ∃ m, r.reason = some m ∧ (m.toList.head? = some 'e' ∨ m.toList.head? = some 'm') := by
  obtain h | ⟨condition, -, h⟩ := h
  · exact ⟨_, h, .inl (by decide)⟩
  · exact ⟨_, h, .inr (by simp)⟩

end Route

namespace Workflow
variable {w : Workflow} {s t : Step} {rs : Store} {strategy : Strategy} {route : Route}

theorem fallback_head (h : w.fallback strategy s rs = .ok route) :
    ∀ m ∈ route.reason, m.toList.head? = some 'r' ∨ m.toList.head? = some 'd' := by
  intro m hm
  cases strategy with
  | linear =>
    cases h
    cases hm
  | graph =>
    obtain ⟨m', hm', hhead⟩ := transitionRoute_head h
    rw [hm', Option.mem_def, Option.some.injEq] at hm
    exact hm ▸ hhead

theorem routeTo_found {target : Option String} (reason : String) (branch : Option String)
    (h : w.target? target = some t) :
    w.routeTo strategy s target reason branch = ⟨w.positionOf t, some reason, branch⟩ := by
  simp [routeTo, h]

theorem decisionRoute_stray {d : Decision} (hv : s.Vetted w) (hd : s.body = .decision d)
    (h : w.decisionRoute strategy s d rs = .ok route) (hstray : route.Stray) :
    ∃ b, First (Branch.applies rs) d.branches b ∧ b.condition = route.branch ∧
      Check.given? b.target = none := by
  obtain ⟨first, hfirst, h⟩ := bind_eq_ok.1 h
  cases first with
  | some found =>
    obtain ⟨condition, b⟩ := found
    obtain ⟨hcondition, hb⟩ := firstBranch?_first hfirst
    cases h
    refine ⟨b, hb, ?_, ?_⟩
    · rw [hcondition]
      simp only [routeTo]
      split <;> rfl
    · cases hr : Check.given? b.target with
      | none => rfl
      | some r =>
        obtain ⟨t, ht⟩ := hv.branches d hd b hb.mem r hr
        have htarget : w.target? b.target = some t := by
          simpa [(Check.given?_eq_some.1 hr).1, target?] using ht
        rw [routeTo_found _ _ htarget] at hstray
        obtain hreason | ⟨c, hc, hreason⟩ := hstray
        · have hhead := congrArg (·.map (·.toList.head?)) hreason
          simp at hhead
        · cases hc
          have hlength := congrArg (·.map (·.length)) hreason
          simp at hlength
  | none =>
    simp only at h
    split at h
    · next target htarget =>
      obtain ⟨t, ht⟩ := hv.otherwise d hd target htarget
      cases h
      rw [routeTo_found "else" none (show w.target? (some target) = some t from ht)] at hstray
      obtain hreason | ⟨c, hc, -⟩ := hstray
      · simp at hreason
      · cases hc
    · obtain ⟨onward, honward, h⟩ := bind_eq_ok.1 h
      cases h
      obtain ⟨m, hm, hhead⟩ := hstray.head
      -- The reason is that of the fallback, or says that nothing matched.
      cases hreason : onward.reason.filter (!·.isEmpty) with
      | none =>
        rw [hreason] at hm
        cases hm
        exact absurd hhead (by decide)
      | some m' =>
        rw [hreason, Option.getD_some, Option.some.injEq] at hm
        subst hm
        have hmem := (Option.filter_eq_some_iff.1 hreason).1
        have hother := fallback_head honward m' hmem
        obtain hhead | hhead := hhead <;> simp [hhead] at hother

theorem nextRoute_stray (hv : s.Vetted w) (h : w.nextRoute strategy s rs = .ok route)
    (hstray : route.Stray) :
    ∃ d b, s.body = .decision d ∧ First (Branch.applies rs) d.branches b ∧
      b.condition = route.branch ∧ Check.given? b.target = none := by
  obtain ⟨m, hm, hhead⟩ := hstray.head
  obtain ⟨jumped, hjumped, h⟩ := bind_eq_ok.1 h
  cases jumped with
  | some r =>
    cases h
    obtain ⟨m', hm', hother⟩ := jumpRoute?_head hjumped
    rw [hm, Option.some.injEq] at hm'
    subst hm'
    simp [hother] at hhead
  | none =>
    simp only at h
    split at h
    · next d hd =>
      obtain ⟨b, hb⟩ := decisionRoute_stray hv hd h hstray
      exact ⟨d, b, hd, hb⟩
    · have hother := fallback_head h m hm
      obtain hhead | hhead := hhead <;> simp [hhead] at hother

/-- In a definition without problems no two steps share an id, and routes lead where the steps say:
the first jump that applies is taken, only a branch that names no target at all strays, and in a
graph the first transition that applies is followed, the run ending only where none does. -/
theorem routes_of_problems {allowCycles : Bool} {l : Limits}
    (h : w.problems allowCycles l = .ok []) :
    w.Distinct ∧ ∀ s ∈ w.steps, ∀ rs : Store,
      (∀ strategy j, First (Jump.applies s rs) s.jumps j →
        ∃ condition t, j.condition = some condition ∧ w.target? j.target = some t ∧
          w.nextRoute strategy s rs =
            .ok ⟨w.positionOf t, some ("jump: " ++ condition), none⟩) ∧
      (∀ strategy route, w.nextRoute strategy s rs = .ok route → route.Stray →
        ∃ d b, s.body = .decision d ∧ First (Branch.applies rs) d.branches b ∧
          b.condition = route.branch ∧ Check.given? b.target = none) ∧
      (w.isGraph = true →
        (∀ e, First (Transition.applies rs) s.transitions e →
          ∃ t, w.target? e.target = some t ∧ e.target = some t.id ∧
            w.fallback .graph s rs =
              .ok ⟨.node t.id, some ("routing to " ++ t.id), e.condition⟩) ∧
        ∀ route, w.fallback .graph s rs = .ok route → route.reason = some "dead end" →
          ∀ e ∈ s.transitions, e.applies rs = .ok false) := by
  refine ⟨distinct_of_problems h, fun s hs rs => ?_⟩
  have hv := vetted_of_problems h hs
  refine ⟨fun strategy j hj => ?_, fun strategy route => nextRoute_stray hv, fun hg => ⟨?_, ?_⟩⟩
  · obtain ⟨condition, t, hc, ht, hroute⟩ := jumpRoute?_first hv.jumps hj
    refine ⟨condition, t, hc, ht, ?_⟩
    rw [nextRoute, hroute]
    rfl
  · exact fun e he => transitionRoute_first (hv.transitions hg) he
  · exact fun route => transitionRoute_deadEnd (hv.transitions hg)

def vetting : Workflow :=
  ⟨"vetting", "", true, some "ask",
    [⟨"ask", "Level?", none, [⟨some "none", some "Done"⟩], [⟨some "pick", none, none⟩],
        .question ⟨none, some "level", "text", []⟩, []⟩,
      ⟨"pick", "Pick", none, [],
        [⟨some "ask", some "level == 'low'", none⟩, ⟨some "done", none, none⟩],
        .decision ⟨false, [⟨some "level == 'high'", none⟩], none⟩, []⟩,
      ⟨"done", "Done", none, [], [], .action ⟨none, []⟩, []⟩]⟩

theorem routes_of_problems_sample :
    vetting.problems true .standard = .ok [] ∧
      First (Jump.applies vetting.steps[0] [(.text "level", .text "none")]) vetting.steps[0].jumps
        ⟨some "none", some "Done"⟩ ∧
      ∃ t, vetting.target? (some "Done") = some t ∧
        vetting.nextRoute .graph vetting.steps[0] [(.text "level", .text "none")] =
          .ok ⟨vetting.positionOf t, some "jump: none", none⟩ := by
  have hproblems : vetting.problems true .standard = .ok [] := by decide +kernel
  have hjump : First (Jump.applies vetting.steps[0] [(.text "level", .text "none")])
      vetting.steps[0].jumps ⟨some "none", some "Done"⟩ := First.here rfl
  obtain ⟨condition, t, hc, ht, hroute⟩ := ((routes_of_problems hproblems).2 vetting.steps[0]
    List.mem_cons_self [(.text "level", .text "none")]).1 .graph _ hjump
  cases hc
  exact ⟨hproblems, hjump, t, ht, hroute⟩

/-- A branch without a target strays. -/
example : (vetting.nextRoute .graph vetting.steps[1] [(.text "level", .text "high")]).map
    (fun route => (route.reason, route.branch)) =
      .ok (some "matched: level == 'high' (target not found)", some "level == 'high'") := by
  decide +kernel

end Workflow
end Runbook
