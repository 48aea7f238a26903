import Runbook.Proofs.RouteAlignment
import Runbook.Proofs.CheckedRoutes

/-! The first branch that applies decides. Jumps that lead nowhere are passed over, branches that do
not apply likewise, and nothing behind the branch that is taken has a part in the route. What is
passed over is evaluated all the same, and an evaluation that fails ends the search. -/
namespace Runbook

/-- No jump of the step both applies and leads to a step. -/
def Workflow.Unjumped (w : Workflow) (s : Step) (rs : Store) : Prop :=
  ∀ j ∈ s.jumps, j.applies s rs = .ok true → w.target? j.target = none

/-- Of every jump that names a target it can be told whether it applies. -/
def Step.JumpsKnown (s : Step) (rs : Store) : Prop :=
  ∀ j ∈ s.jumps, (Check.given? j.target).isSome = true → (j.applies s rs).isOk = true

def Step.deciding (s : Step) (d : Decision) : Step := { s with body := .decision d }

/-- Of every branch it can be told whether it applies. -/
def Branch.Known (rs : Store) (bs : List Branch) : Prop :=
  ∀ b ∈ bs, (b.applies rs).isOk = true

/-- No branch applies. -/
def Branch.Passed (rs : Store) (bs : List Branch) : Prop := ∀ b ∈ bs, b.applies rs ≠ .ok true

theorem isOk_bind {ε α β : Type} {x : Except ε α} {f : α → Except ε β} :
    (x >>= f).isOk = true ↔ ∃ a, x = .ok a ∧ (f a).isOk = true := by
  cases x with
  | error e => exact ⟨nofun, fun ⟨_, h, _⟩ => nomatch h⟩
  | ok a => exact ⟨fun h => ⟨a, rfl, h⟩, fun ⟨_, ha, h⟩ => by cases ha; exact h⟩

theorem exists_ok_of_isOk {ε α : Type} {x : Except ε α} (h : x.isOk = true) : ∃ a, x = .ok a := by
  cases x with
  | error e => cases h
  | ok a => exact ⟨a, rfl⟩

namespace Workflow
variable {w v : Workflow} {s : Step} {rs : Store} {strategy : Strategy} {route : Route}

theorem jumpRoute?_cons_eq (j : Jump) (js : List Jump) :
    w.jumpRoute? s rs (j :: js) =
      if (Check.given? j.target).isSome then (do
        if ← j.applies s rs then
          match w.target? j.target with
          | some t => pure (some ⟨w.positionOf t, some ("jump: " ++ j.condition.getD ""), none⟩)
          | none => w.jumpRoute? s rs js
        else w.jumpRoute? s rs js)
      else w.jumpRoute? s rs js := by
  cases htarget : Check.given? j.target with
  | none =>
    simp only [jumpRoute?, Option.isSome_none, Bool.false_eq_true, if_false]
    split
    · next condition target _ ht =>
      have hempty : target.isEmpty = true := by simpa [Check.given?, ht] using htarget
      simp [hempty]
    · rfl
  | some target =>
    obtain ⟨ht, htne⟩ := Check.given?_eq_some.1 htarget
    cases hcondition : Check.given? j.condition with
    | none =>
      simp only [jumpRoute?, Jump.applies, hcondition]
      split
      · next condition target' hc _ =>
        have hempty : condition.isEmpty = true := by simpa [Check.given?, hc] using hcondition
        simp [hempty, bind, Except.bind]
      · rfl
    | some condition =>
      obtain ⟨hc, hcne⟩ := Check.given?_eq_some.1 hcondition
      simp only [jumpRoute?, Jump.applies, hcondition]
      simp only [hc, ht]
      exact if_neg (by simp [hcne, htne])

theorem jumpRoute?_skip {j : Jump} {applies : Bool} (js : List Jump)
    (hpass : j.applies s rs = .ok true → w.target? j.target = none)
    (happlies : j.applies s rs = .ok applies) :
    w.jumpRoute? s rs (j :: js) = w.jumpRoute? s rs js := by
  rw [jumpRoute?_cons_eq, happlies]
  split
  · cases applies with
    | true => rw [hpass happlies]; rfl
    | false => rfl
  · rfl

theorem jumpRoute?_passed {js : List Jump}
    (hpass : ∀ j ∈ js, j.applies s rs = .ok true → w.target? j.target = none) :
    ((w.jumpRoute? s rs js).isOk = true ↔
      ∀ j ∈ js, (Check.given? j.target).isSome = true → (j.applies s rs).isOk = true) ∧
    ∀ x, w.jumpRoute? s rs js = .ok x → x = none := by
  induction js with
  | nil =>
    refine ⟨by simp [jumpRoute?, pure, Except.pure, Except.isOk, Except.toBool], fun x h => ?_⟩
    cases h
    rfl
  | cons j js ih =>
    obtain ⟨hok, hnone⟩ := ih fun j hj => hpass j (List.mem_cons_of_mem _ hj)
    rw [List.forall_mem_cons, ← hok]
    cases hgiven : (Check.given? j.target).isSome with
    | false =>
      rw [jumpRoute?_cons_eq, hgiven]
      simpa using hnone
    | true =>
      cases happlies : j.applies s rs with
      | error o =>
        rw [jumpRoute?_cons_eq, hgiven, happlies]
        refine ⟨by simp [bind, Except.bind, Except.isOk, Except.toBool], fun x h => ?_⟩
        cases h
      | ok applies =>
        rw [jumpRoute?_skip js (hpass j List.mem_cons_self) happlies]
        exact ⟨by simp [Except.isOk, Except.toBool], hnone⟩

theorem nextRoute_unjumped (h : w.Unjumped s rs) (hk : s.JumpsKnown rs) :
    w.nextRoute strategy s rs =
      match s.body with
      | .decision d => w.decisionRoute strategy s d rs
      | _ => w.fallback strategy s rs := by
  obtain ⟨hok, hnone⟩ := jumpRoute?_passed h
  obtain ⟨x, hx⟩ := exists_ok_of_isOk (hok.2 hk)
  obtain rfl := hnone x hx
  rw [nextRoute, hx]
  rfl

theorem jumpsKnown_of_nextRoute (h : w.Unjumped s rs)
    (hok : (w.nextRoute strategy s rs).isOk = true) : s.JumpsKnown rs := by
  obtain ⟨x, hx, -⟩ := isOk_bind.1 hok
  exact (jumpRoute?_passed h).1.1 (by rw [hx]; rfl)

theorem firstBranch?_cons_eq (b : Branch) (bs : List Branch) :
    firstBranch? rs (b :: bs) = (do
      if ← b.applies rs then pure (b.condition.map fun condition => (condition, b))
      else firstBranch? rs bs) := by
  rw [firstBranch?_cons]
  cases hc : Check.given? b.condition with
  | none =>
    simp only [Branch.applies, hc, show b.condition.filter (!·.isEmpty) = none from hc]
    rfl
  | some condition =>
    simp only [Branch.applies, hc, show b.condition.filter (!·.isEmpty) = some condition from hc]
    rw [(Check.given?_eq_some.1 hc).1]
    rfl

theorem isOk_firstBranch?_append {before : List Branch} (h : Branch.Passed rs before)
    (rest : List Branch) :
    (firstBranch? rs (before ++ rest)).isOk = true ↔
      Branch.Known rs before ∧ (firstBranch? rs rest).isOk = true := by
  induction before with
  | nil => simp [Branch.Known]
  | cons c before ih =>
    have hrest := ih fun b hb => h b (List.mem_cons_of_mem _ hb)
    have hc := h c List.mem_cons_self
    rw [List.cons_append, firstBranch?_cons_eq, Branch.Known, List.forall_mem_cons, and_assoc]
    rw [show (∀ b ∈ before, (b.applies rs).isOk = true) ↔ Branch.Known rs before from Iff.rfl,
      ← hrest]
    cases happlies : c.applies rs with
    | error o => exact ⟨nofun, fun h => nomatch h.1⟩
    | ok applies =>
      cases applies with
      | true => exact absurd happlies hc
      | false => exact ⟨fun h => ⟨rfl, h⟩, fun h => h.2⟩

theorem firstBranch?_cut {b : Branch} (hb : b.applies rs = .ok true)
    (before after after' : List Branch) :
    firstBranch? rs (before ++ b :: after) = firstBranch? rs (before ++ b :: after') := by
  induction before with
  | nil =>
    simp only [List.nil_append, firstBranch?_cons_eq, hb]
    rfl
  | cons c before ih => simp only [List.cons_append, firstBranch?_cons_eq, ih]

theorem jumpRoute?_body {d e : Decision} (hd : s.body = .decision d) (js : List Jump) :
    w.jumpRoute? (s.deciding e) rs js = w.jumpRoute? s rs js := by
  have hholds : (s.deciding e).jumpHolds = s.jumpHolds := by
    funext condition rs
    simp [Step.jumpHolds, Step.deciding, hd]
  induction js with
  | nil => rfl
  | cons j js ih => simp only [jumpRoute?, hholds, ih]

variable {d : Decision} {before after : List Branch} {b : Branch}

theorem first_of_known (hbranches : d.branches = before ++ b :: after)
    (hpass : Branch.Passed rs before) (hb : b.applies rs = .ok true)
    (hk : Branch.Known rs before) : First (Branch.applies rs) d.branches b := by
  refine ⟨before, after, hbranches, fun c hc => ?_, hb⟩
  obtain ⟨applies, happlies⟩ := exists_ok_of_isOk (hk c hc)
  cases applies with
  | true => exact absurd happlies (hpass c hc)
  | false => exact happlies

theorem searched_of_nextRoute (hd : s.body = .decision d) (hjumps : w.Unjumped s rs)
    (hok : (w.nextRoute strategy s rs).isOk = true) :
    s.JumpsKnown rs ∧ (firstBranch? rs d.branches).isOk = true := by
  have hk := jumpsKnown_of_nextRoute hjumps hok
  rw [nextRoute_unjumped hjumps hk, hd] at hok
  obtain ⟨x, hx, -⟩ := isOk_bind.1 hok
  exact ⟨hk, by rw [hx]; rfl⟩

theorem isOk_nextRoute_branch (hd : s.body = .decision d) (hjumps : w.Unjumped s rs)
    (hbranches : d.branches = before ++ b :: after) (hpass : Branch.Passed rs before)
    (hb : b.applies rs = .ok true) :
    (w.nextRoute strategy s rs).isOk = true ↔ s.JumpsKnown rs ∧ Branch.Known rs before := by
  have hsearch := isOk_firstBranch?_append hpass (b :: after)
  have hhere : (firstBranch? rs (b :: after)).isOk = true := by
    rw [firstBranch?_cons_eq, hb]
    rfl
  rw [← hbranches, hhere, and_iff_left rfl] at hsearch
  constructor
  · intro hok
    obtain ⟨hk, hsearched⟩ := searched_of_nextRoute hd hjumps hok
    exact ⟨hk, hsearch.1 hsearched⟩
  · rintro ⟨hk, hknown⟩
    rw [nextRoute_unjumped hjumps hk, hd]
    obtain ⟨x, hx⟩ := exists_ok_of_isOk (hsearch.2 hknown)
    refine isOk_bind.2 ⟨x, hx, ?_⟩
    cases x with
    | some found => rfl
    | none =>
      have hnone := firstBranch?_none hx b (by simp [hbranches])
      cases hb.symm.trans hnone

/-- The route of a decision is that of the first branch that applies. -/
theorem nextRoute_branch (hd : s.body = .decision d) (hjumps : w.Unjumped s rs)
    (hbranches : d.branches = before ++ b :: after) (hpass : Branch.Passed rs before)
    (hb : b.applies rs = .ok true) (h : w.nextRoute strategy s rs = .ok route) :
    ∃ condition, b.condition = some condition ∧
      route = w.routeTo strategy s b.target ("matched: " ++ condition) (some condition) := by
  obtain ⟨hk, hknown⟩ := (isOk_nextRoute_branch hd hjumps hbranches hpass hb).1 (by rw [h]; rfl)
  rw [nextRoute_unjumped hjumps hk, hd] at h
  obtain ⟨x, hx, h⟩ := bind_eq_ok.1 h
  cases x with
  | none =>
    have hnone := firstBranch?_none hx b (by simp [hbranches])
    cases hb.symm.trans hnone
  | some found =>
    obtain ⟨condition, c⟩ := found
    obtain ⟨hcondition, hc⟩ := firstBranch?_first hx
    obtain rfl := hc.unique (first_of_known hbranches hpass hb hknown)
    cases h
    exact ⟨condition, hcondition, rfl⟩

theorem nextRoute_later (hd : s.body = .decision d) (hv : w.Aligned v)
    (hbranches : d.branches = before ++ b :: after) (hb : b.applies rs = .ok true)
    (later : List Branch) (otherwise : Option String) :
    v.nextRoute strategy
        (s.deciding { d with branches := before ++ b :: later, elseTarget := otherwise }) rs =
      w.nextRoute strategy s rs := by
  rw [hv.nextRoute_eq (Step.Alike.refl s), nextRoute, nextRoute, hd]
  generalize hother : { d with branches := before ++ b :: later, elseTarget := otherwise } = e
  have hroute : ∀ target reason branch, v.routeTo strategy (s.deciding e) target reason branch =
      v.routeTo strategy s target reason branch := by
    intro target reason branch
    cases strategy <;> rfl
  have hfirst : firstBranch? rs e.branches = firstBranch? rs d.branches := by
    rw [← hother, hbranches]
    exact firstBranch?_cut hb before later after
  have hdecision : v.decisionRoute strategy (s.deciding e) e rs =
      v.decisionRoute strategy s d rs := by
    simp only [decisionRoute, hroute, hfirst]
    cases hx : firstBranch? rs d.branches with
    | error o => rfl
    | ok x =>
      cases x with
      | some found => rfl
      | none =>
        have hnone := firstBranch?_none hx b (by simp [hbranches])
        cases hb.symm.trans hnone
  rw [show (s.deciding e).jumps = s.jumps from rfl,
    show (s.deciding e).body = .decision e from rfl, jumpRoute?_body hd]
  simp only [hdecision]

theorem firstBranch?_passed {bs : List Branch} (hpass : Branch.Passed rs bs) :
    ((firstBranch? rs bs).isOk = true ↔ Branch.Known rs bs) ∧
      ∀ x, firstBranch? rs bs = .ok x → x = none := by
  refine ⟨?_, fun x hx => ?_⟩
  · have hsearch := isOk_firstBranch?_append hpass []
    rw [List.append_nil] at hsearch
    exact hsearch.trans (and_iff_left rfl)
  · cases x with
    | none => rfl
    | some found =>
      have hfirst := (firstBranch?_first hx).2
      exact absurd hfirst.holds (hpass found.2 hfirst.mem)

theorem nextRoute_unmatched (hd : s.body = .decision d) (hjumps : w.Unjumped s rs)
    (hpass : Branch.Passed rs d.branches) (helse : Check.given? d.elseTarget = none) :
    ((w.nextRoute strategy s rs).isOk = true ↔
      s.JumpsKnown rs ∧ Branch.Known rs d.branches ∧ (w.fallback strategy s rs).isOk = true) ∧
    ∀ route, w.nextRoute strategy s rs = .ok route →
      ∃ onward, w.fallback strategy s rs = .ok onward ∧ route.position = onward.position := by
  obtain ⟨hsearch, hnone⟩ := firstBranch?_passed hpass
  -- The route is that of the fallback, with a reason of its own.
  have hroute : s.JumpsKnown rs → Branch.Known rs d.branches →
      w.nextRoute strategy s rs = (w.fallback strategy s rs).map fun onward =>
        { onward with reason := some ((onward.reason.filter (!·.isEmpty)).getD "no match") } := by
    intro hk hknown
    obtain ⟨x, hx⟩ := exists_ok_of_isOk (hsearch.2 hknown)
    obtain rfl := hnone x hx
    rw [nextRoute_unjumped hjumps hk, hd]
    simp only [decisionRoute, hx, show d.elseTarget.filter (!·.isEmpty) = none from helse]
    cases w.fallback strategy s rs <;> rfl
  have hevaluated : (w.nextRoute strategy s rs).isOk = true →
      s.JumpsKnown rs ∧ Branch.Known rs d.branches := by
    intro hok
    obtain ⟨hk, hsearched⟩ := searched_of_nextRoute hd hjumps hok
    exact ⟨hk, hsearch.1 hsearched⟩
  refine ⟨⟨fun hok => ?_, fun hall => ?_⟩, fun route h => ?_⟩
  · obtain ⟨hk, hknown⟩ := hevaluated hok
    refine ⟨hk, hknown, ?_⟩
    rw [hroute hk hknown] at hok
    cases hf : w.fallback strategy s rs with
    | error o => rw [hf] at hok; cases hok
    | ok onward => rfl
  · obtain ⟨hk, hknown, hok⟩ := hall
    rw [hroute hk hknown]
    obtain ⟨onward, hf⟩ := exists_ok_of_isOk hok
    rw [hf]
    rfl
  · obtain ⟨hk, hknown⟩ := hevaluated (by rw [h]; rfl)
    rw [hroute hk hknown] at h
    cases hf : w.fallback strategy s rs with
    | error o => rw [hf] at h; cases h
    | ok onward =>
      rw [hf] at h
      cases h
      exact ⟨onward, rfl, rfl⟩

/-- The first branch that applies decides. At a decision of which no jump applies and leads to a
step, the route is that of the first branch that applies: to the step that its target names, or else
on to the next position. There is a route unless a jump with a target, or a branch before that one,
cannot be evaluated; what stands behind the branch, and the else target, have no part in it. Where no
branch applies and no else target is given, the route leads where the fallback does. Conditions that
compare texts can always be evaluated, as whole numbers of any length have one (`Value.display`). -/
theorem nextRoute_firstMatch (hd : s.body = .decision d) (hjumps : w.Unjumped s rs) :
    (∀ before b after, d.branches = before ++ b :: after → Branch.Passed rs before →
      b.applies rs = .ok true →
      ((w.nextRoute strategy s rs).isOk = true ↔ s.JumpsKnown rs ∧ Branch.Known rs before) ∧
      (∀ route, w.nextRoute strategy s rs = .ok route →
        route.position = ((w.target? b.target).map w.positionOf).getD (w.sequential s strategy) ∧
        (Check.given? b.condition).isSome = true ∧ route.branch = b.condition) ∧
      ∀ v later otherwise, w.Aligned v →
        v.nextRoute strategy
            (s.deciding { d with branches := before ++ b :: later, elseTarget := otherwise }) rs =
          w.nextRoute strategy s rs) ∧
    (Branch.Passed rs d.branches → Check.given? d.elseTarget = none →
      ((w.nextRoute strategy s rs).isOk = true ↔
        s.JumpsKnown rs ∧ Branch.Known rs d.branches ∧ (w.fallback strategy s rs).isOk = true) ∧
      ∀ route, w.nextRoute strategy s rs = .ok route →
        ∃ onward, w.fallback strategy s rs = .ok onward ∧ route.position = onward.position) := by
  refine ⟨fun before b after hbranches hpass hb => ⟨?_, fun route h => ?_, ?_⟩, ?_⟩
  · exact isOk_nextRoute_branch hd hjumps hbranches hpass hb
  · obtain ⟨condition, hcondition, rfl⟩ := nextRoute_branch hd hjumps hbranches hpass hb h
    have hgiven : (Check.given? b.condition).isSome = true := by
      cases hc : Check.given? b.condition with
      | none => simp [Branch.applies, hc] at hb
      | some _ => rfl
    refine ⟨?_, hgiven, ?_⟩
    · unfold routeTo
      split <;> simp [*]
    · unfold routeTo
      split <;> exact hcondition.symm
  · exact fun v later otherwise hv => nextRoute_later hd hv hbranches hb later otherwise
  · exact nextRoute_unmatched hd hjumps

def choosing (jump : String) : Step :=
  ⟨"choose", "Choose", none, [⟨some jump, some "nowhere"⟩], [],
    .decision ⟨false, [⟨some "kind == 'b'", some "other"⟩, ⟨some "kind == 'a'", some "wanted"⟩,
      ⟨some "level > 3", some "other"⟩], none⟩, []⟩

def sorting (jump : String) : Workflow :=
  ⟨"sorting", "Sorting", false, none,
    [choosing jump, ⟨"other", "Other", none, [], [], .action ⟨none, []⟩, []⟩,
      ⟨"wanted", "Wanted", none, [], [], .action ⟨none, []⟩, []⟩]⟩

def oversized : Store := [(.text "kind", .text "a"), (.text "level", .whole (tenTo 400))]

theorem unjumped_choosing (jump : String) : (sorting jump).Unjumped (choosing jump) oversized := by
  intro j hj _
  obtain rfl : j = ⟨some jump, some "nowhere"⟩ := List.mem_singleton.1 hj
  -- The identifiers differ as they stand, the titles after they are put in lower case.
  have htitles : Text.lower "Choose" ≠ Text.lower "nowhere" ∧
      Text.lower "Other" ≠ Text.lower "nowhere" ∧ Text.lower "Wanted" ≠ Text.lower "nowhere" := by
    decide +kernel
  simpa [target?, resolve?, stepById?, stepByTitle?, sorting, choosing] using htitles

theorem passed_choosing : Branch.Passed oversized [⟨some "kind == 'b'", some "other"⟩] := by
  intro b hb
  rw [List.mem_singleton.1 hb]
  decide +kernel

theorem applies_choosing :
    (⟨some "kind == 'a'", some "wanted"⟩ : Branch).applies oversized = .ok true := by
  decide +kernel

theorem nextRoute_firstMatch_sample :
    (sorting "kind == 'a'").Unjumped (choosing "kind == 'a'") oversized ∧
      ∃ route, (sorting "kind == 'a'").nextRoute .linear (choosing "kind == 'a'") oversized =
          .ok route ∧
        route.position = .index 2 ∧
        route.branch = some "kind == 'a'" := by
  have hjumps := unjumped_choosing "kind == 'a'"
  have hreturns : ((sorting "kind == 'a'").nextRoute .linear (choosing "kind == 'a'")
      oversized).isOk = true := by
    decide +kernel
  obtain ⟨route, h⟩ := exists_ok_of_isOk hreturns
  obtain ⟨-, hroute, -⟩ := (nextRoute_firstMatch rfl hjumps).1 [⟨some "kind == 'b'", some "other"⟩] _
    [⟨some "level > 3", some "other"⟩] rfl passed_choosing applies_choosing
  obtain ⟨hposition, -, hbranch⟩ := hroute route h
  have hwanted : ((sorting "kind == 'a'").target? (some "wanted")).map
      (sorting "kind == 'a'").positionOf = some (.index 2) := by
    simp [target?, resolve?, stepById?, positionOf, indexOf?, sorting, choosing, List.findIdx?_cons]
  exact ⟨hjumps, route, h, hposition.trans (by rw [hwanted]; rfl), hbranch⟩

/-- A jump that leads nowhere is evaluated all the same, and stops the search for a route if it
cannot be. -/
theorem firstMatch_overflows :
    ¬∀ (w : Workflow) (s : Step) (d : Decision) (rs : Store) (strategy : Strategy)
      (before after : List Branch) (b : Branch), s.body = .decision d → w.Unjumped s rs →
      d.branches = before ++ b :: after → Branch.Passed rs before → b.applies rs = .ok true →
      ∃ route, w.nextRoute strategy s rs = .ok route ∧
        route.position = ((w.target? b.target).map w.positionOf).getD (w.sequential s strategy) ∧
        route.branch = b.condition := by
  intro h
  obtain ⟨route, hroute, -⟩ := h (sorting "level > 3") (choosing "level > 3") _ oversized .linear
    [⟨some "kind == 'b'", some "other"⟩] [⟨some "level > 3", some "other"⟩] _ rfl
    (unjumped_choosing "level > 3") rfl passed_choosing applies_choosing
  have hfails : ((sorting "level > 3").nextRoute .linear (choosing "level > 3") oversized).isOk =
      false := by
    decide +kernel
  rw [hroute] at hfails
  cases hfails

end Workflow
end Runbook
