import Runbook.Proofs.FirstBranch
import Runbook.Proofs.ReadGuarantees

/-! Where routes arrive. Targets are resolved to steps, steps are turned into positions, and positions
into steps again, each by a search of its own. Where no two steps share an id these searches undo one
another: a route ends at the very step that was chosen, or past the end where none was. -/
namespace Runbook

/-- It can be told that a condition holds. -/
def surely : Except Overflow Bool → Bool
  | .ok holds => holds
  | .error _ => false

/-- Of every condition on a way out of the step it can be told whether it holds. -/
structure Step.Known (s : Step) (rs : Store) : Prop where
  jumps : ∀ j ∈ s.jumps, (j.applies s rs).isOk = true
  branches : ∀ d, s.body = .decision d → Branch.Known rs d.branches
  transitions : ∀ e ∈ s.transitions, (e.applies rs).isOk = true

namespace Workflow

/-- The given step stands at the position. Without one, the position is past the end. -/
def Arrives (w : Workflow) (p : Position) (o : Option Step) : Prop :=
  w.stepAt? p = o ∧ w.isPastEnd p = o.isNone

/-- The step that a target names, if the way to it applies. -/
def goal? (w : Workflow) (applies : Except Overflow Bool) (target : Option String) : Option Step :=
  if surely applies then w.target? target else none

def jumpGoal? (w : Workflow) (s : Step) (rs : Store) : Option Step :=
  s.jumps.findSome? fun j => w.goal? (j.applies s rs) j.target

def transitionGoal? (w : Workflow) (s : Step) (rs : Store) : Option Step :=
  s.transitions.findSome? fun e => w.goal? (e.applies rs) e.target

/-- The step that follows whatever the conditions: in a sequence the given next one, in a graph that of
the first default transition that names one. -/
def sequentialGoal? (w : Workflow) (s : Step) (next : Option Step) : Option Step :=
  if w.isGraph then (s.transitions.filter (·.isDefault)).findSome? fun e => w.target? e.target
  else next

def fallbackGoal? (w : Workflow) (s : Step) (next : Option Step) (rs : Store) : Option Step :=
  if w.isGraph then w.transitionGoal? s rs else next

/-- The step of the first branch that applies, else that of the else target. Where the one that counts
names no step, it is the step that follows. -/
def decisionGoal? (w : Workflow) (s : Step) (next : Option Step) (d : Decision) (rs : Store) :
    Option Step :=
  match d.branches.find? fun b => surely (b.applies rs) with
  | some b => (w.target? b.target).or (w.sequentialGoal? s next)
  | none =>
    match Check.given? d.elseTarget with
    | some target => (w.target? (some target)).or (w.sequentialGoal? s next)
    | none => w.fallbackGoal? s next rs

def onwardGoal? (w : Workflow) (s : Step) (next : Option Step) (rs : Store) : Option Step :=
  match s.body with
  | .decision d => w.decisionGoal? s next d rs
  | _ => w.fallbackGoal? s next rs

/-- The step to go on at, if there is one. -/
def nextGoal? (w : Workflow) (s : Step) (next : Option Step) (rs : Store) : Option Step :=
  (w.jumpGoal? s rs).or (w.onwardGoal? s next rs)

variable {w : Workflow} {s t : Step} {rs : Store} {route : Route} {i : Nat}

theorem arrives_nowhere (w : Workflow) : w.Arrives .nowhere none := ⟨rfl, rfl⟩

theorem arrives_node (hn : w.Named) (hd : w.Distinct) (hg : w.isGraph = true) (ht : t ∈ w.steps) :
    w.Arrives (.node t.id) (some t) :=
  ⟨(stepAt?_node hg).trans (stepById?_id (hn t ht) hd ht), by simp [isPastEnd, hg]⟩

theorem arrives_index (hg : w.isGraph = false) (n : Nat) : w.Arrives (.index n) w.steps[n]? := by
  refine ⟨stepAt?_index hg, ?_⟩
  cases hs : w.steps[n]? with
  | none =>
    have hend : w.steps.length ≤ n := List.getElem?_eq_none_iff.1 hs
    simp [isPastEnd, hg, hend]
  | some t =>
    have hin : n < w.steps.length := (List.getElem?_eq_some_iff.1 hs).1
    simp [isPastEnd, hg]
    omega

theorem arrives_positionOf (hn : w.Named) (hd : w.Distinct) (ht : t ∈ w.steps) :
    w.Arrives (w.positionOf t) (some t) := by
  cases hg : w.isGraph with
  | true => simpa [positionOf, hg] using arrives_node hn hd hg ht
  | false =>
    obtain ⟨i, hi⟩ := List.getElem?_of_mem ht
    have harrives := arrives_index hg i
    rw [hi] at harrives
    simpa [positionOf, hg, indexOf?_id hd hi] using harrives

theorem arrives_sequential (hn : w.Named) (hd : w.Distinct) (hs : w.steps[i]? = some s) :
    w.Arrives (w.sequential s w.strategy) (w.sequentialGoal? s w.steps[i + 1]?) := by
  cases hg : w.isGraph with
  | false =>
    have hlt := (List.getElem?_eq_some_iff.1 hs).1
    have hnext : w.sequential s .linear = .index (i + 1 : Nat) := by
      simp only [sequential, indexOf?_id hd hs]
      rw [Nat.min_eq_left (by omega)]
    rw [strategy_linear hg, hnext, sequentialGoal?, hg, if_neg (by simp)]
    exact arrives_index hg (i + 1)
  | true =>
    rw [strategy_graph hg]
    simp only [sequential, sequentialGoal?, hg, if_true]
    split
    · next t ht =>
      obtain ⟨e, -, ht'⟩ := List.exists_of_findSome?_eq_some ht
      rw [ht]
      exact arrives_node hn hd hg (mem_of_target? ht')
    · next hnone =>
      rw [hnone]
      exact arrives_nowhere w

theorem mem_of_goal? {applies : Except Overflow Bool} {target : Option String}
    (h : w.goal? applies target = some t) : t ∈ w.steps := by
  unfold goal? at h
  split at h
  · exact mem_of_target? h
  · cases h

theorem target?_of_not_given {target : Option String} (h : Check.given? target = none) :
    w.target? target = none := by
  cases target with
  | none => rfl
  | some reference =>
    obtain rfl : reference = "" := by simpa [Check.given?, Option.filter] using h
    simp [target?, resolve?, stepById?, stepByTitle?]

theorem jumpRoute?_goal {js : List Jump} {x : Option Route} (h : w.jumpRoute? s rs js = .ok x) :
    x.map (·.position) =
      (js.findSome? fun j => w.goal? (j.applies s rs) j.target).map w.positionOf := by
  induction js with
  | nil =>
    cases h
    rfl
  | cons j js ih =>
    rw [jumpRoute?_cons_eq] at h
    split at h
    · obtain ⟨applies, happlies, h⟩ := bind_eq_ok.1 h
      cases applies with
      | false => simpa [goal?, happlies, surely] using ih h
      | true =>
        cases ht : w.target? j.target with
        | none => simpa [goal?, happlies, surely, ht] using ih (by simpa [ht] using h)
        | some t =>
          simp only [ht] at h
          cases h
          simp [goal?, happlies, surely, ht]
    · next hgiven =>
      have hnone : w.target? j.target = none := target?_of_not_given (by simpa using hgiven)
      simpa [goal?, hnone] using ih h

theorem transitionRoute_goal {es : List Transition} (h : w.transitionRoute rs es = .ok route) :
    route.position =
      match es.findSome? fun e => w.goal? (e.applies rs) e.target with
      | some t => .node t.id
      | none => .nowhere := by
  induction es with
  | nil =>
    cases h
    rfl
  | cons e es ih =>
    rw [transitionRoute_cons] at h
    obtain ⟨applies, happlies, h⟩ := bind_eq_ok.1 h
    cases applies with
    | false => simpa [goal?, happlies, surely] using ih h
    | true =>
      cases ht : w.target? e.target with
      | none => simpa [goal?, happlies, surely, ht] using ih (by simpa [ht] using h)
      | some t =>
        simp only [ht] at h
        cases h
        simp [goal?, happlies, surely, ht]

theorem firstBranch?_find {bs : List Branch} {x : Option (String × Branch)}
    (h : firstBranch? rs bs = .ok x) :
    x.map (·.2) = bs.find? fun b => surely (b.applies rs) := by
  cases x with
  | none =>
    refine (List.find?_eq_none.2 fun b hb => ?_).symm
    simp [firstBranch?_none h b hb, surely]
  | some found =>
    obtain ⟨before, after, hsplit, hbefore, hb⟩ := (firstBranch?_first h).2
    refine (List.find?_eq_some_iff_append.2 ⟨?_, before, after, hsplit, fun c hc => ?_⟩).symm
    · rw [hb, surely]
    · simp [hbefore c hc, surely]

theorem arrives_routeTo (hn : w.Named) (hd : w.Distinct) (hs : w.steps[i]? = some s)
    (target : Option String) (reason : String) (branch : Option String) :
    w.Arrives (w.routeTo w.strategy s target reason branch).position
      ((w.target? target).or (w.sequentialGoal? s w.steps[i + 1]?)) := by
  unfold routeTo
  split
  · next t ht =>
    rw [ht]
    exact arrives_positionOf hn hd (mem_of_target? ht)
  · next ht =>
    rw [ht]
    exact arrives_sequential hn hd hs

theorem arrives_fallback (hn : w.Named) (hd : w.Distinct) (hs : w.steps[i]? = some s)
    (h : w.fallback w.strategy s rs = .ok route) :
    w.Arrives route.position (w.fallbackGoal? s w.steps[i + 1]? rs) := by
  cases hg : w.isGraph with
  | false =>
    have harrives := arrives_sequential hn hd hs
    rw [strategy_linear hg] at h harrives
    cases h
    simpa [sequentialGoal?, fallbackGoal?, hg] using harrives
  | true =>
    rw [strategy_graph hg] at h
    rw [transitionRoute_goal h, fallbackGoal?, hg, if_pos rfl, transitionGoal?]
    split
    · next t ht =>
      obtain ⟨e, -, hgoal⟩ := List.exists_of_findSome?_eq_some ht
      rw [ht]
      exact arrives_node hn hd hg (mem_of_goal? hgoal)
    · next hnone =>
      rw [hnone]
      exact arrives_nowhere w

theorem arrives_decisionRoute {d : Decision} (hn : w.Named) (hd : w.Distinct)
    (hs : w.steps[i]? = some s) (h : w.decisionRoute w.strategy s d rs = .ok route) :
    w.Arrives route.position (w.decisionGoal? s w.steps[i + 1]? d rs) := by
  obtain ⟨first, hfirst, h⟩ := bind_eq_ok.1 h
  rw [decisionGoal?, ← firstBranch?_find hfirst]
  cases first with
  | some found =>
    cases h
    exact arrives_routeTo hn hd hs _ _ _
  | none =>
    cases htarget : d.elseTarget.filter (!·.isEmpty) with
    | some target =>
      simp only [Option.map_none, Check.given?, htarget] at h ⊢
      cases h
      exact arrives_routeTo hn hd hs _ _ _
    | none =>
      simp only [Option.map_none, Check.given?, htarget] at h ⊢
      obtain ⟨onward, honward, h⟩ := bind_eq_ok.1 h
      have harrives := arrives_fallback hn hd hs honward
      cases h
      exact harrives

theorem onwardGoal?_decision {d : Decision} {next : Option Step} (hd : s.body = .decision d) :
    w.onwardGoal? s next rs = w.decisionGoal? s next d rs := by
  simp [onwardGoal?, hd]

theorem onwardGoal?_other {next : Option Step} (hd : ∀ d, s.body ≠ .decision d) :
    w.onwardGoal? s next rs = w.fallbackGoal? s next rs := by
  unfold onwardGoal?
  split
  · next d hbody => exact absurd hbody (hd d)
  · rfl

theorem arrives_nextRoute (hn : w.Named) (hd : w.Distinct) (hs : w.steps[i]? = some s)
    (h : w.nextRoute w.strategy s rs = .ok route) :
    w.Arrives route.position (w.nextGoal? s w.steps[i + 1]? rs) := by
  obtain ⟨jumped, hjumped, h⟩ := bind_eq_ok.1 h
  have hgoal : jumped.map (·.position) = (w.jumpGoal? s rs).map w.positionOf :=
    jumpRoute?_goal hjumped
  cases jumped with
  | some taken =>
    cases h
    obtain ⟨t, ht, hposition⟩ := Option.map_eq_some_iff.1 hgoal.symm
    obtain ⟨j, -, hj⟩ := List.exists_of_findSome?_eq_some ht
    have hposition : w.positionOf t = route.position := hposition
    rw [nextGoal?, ht, ← hposition]
    exact arrives_positionOf hn hd (mem_of_goal? hj)
  | none =>
    have hnone : w.jumpGoal? s rs = none := by simpa using hgoal.symm
    rw [nextGoal?, hnone, Option.none_or]
    simp only at h
    split at h
    · next d hbody =>
      rw [onwardGoal?_decision hbody]
      exact arrives_decisionRoute hn hd hs h
    · next hbody =>
      rw [onwardGoal?_other hbody]
      exact arrives_fallback hn hd hs h

theorem isOk_jumpRoute? {js : List Jump} (hk : ∀ j ∈ js, (j.applies s rs).isOk = true) :
    (w.jumpRoute? s rs js).isOk = true := by
  induction js with
  | nil => rfl
  | cons j js ih =>
    have hrest := ih fun j hj => hk j (List.mem_cons_of_mem _ hj)
    obtain ⟨applies, happlies⟩ := exists_ok_of_isOk (hk j List.mem_cons_self)
    rw [jumpRoute?_cons_eq]
    split
    · refine isOk_bind.2 ⟨applies, happlies, ?_⟩
      split
      · split
        · rfl
        · exact hrest
      · exact hrest
    · exact hrest

theorem isOk_transitionRoute {es : List Transition} (hk : ∀ e ∈ es, (e.applies rs).isOk = true) :
    (w.transitionRoute rs es).isOk = true := by
  induction es with
  | nil => rfl
  | cons e es ih =>
    have hrest := ih fun e he => hk e (List.mem_cons_of_mem _ he)
    obtain ⟨applies, happlies⟩ := exists_ok_of_isOk (hk e List.mem_cons_self)
    rw [transitionRoute_cons]
    refine isOk_bind.2 ⟨applies, happlies, ?_⟩
    split
    · split
      · rfl
      · exact hrest
    · exact hrest

theorem isOk_firstBranch? {bs : List Branch} (hk : Branch.Known rs bs) :
    (firstBranch? rs bs).isOk = true := by
  induction bs with
  | nil => rfl
  | cons b bs ih =>
    obtain ⟨applies, happlies⟩ := exists_ok_of_isOk (hk b List.mem_cons_self)
    rw [firstBranch?_cons_eq]
    refine isOk_bind.2 ⟨applies, happlies, ?_⟩
    split
    · rfl
    · exact ih fun b hb => hk b (List.mem_cons_of_mem _ hb)

theorem isOk_fallback {strategy : Strategy} (hk : s.Known rs) :
    (w.fallback strategy s rs).isOk = true := by
  cases strategy with
  | linear => rfl
  | graph => exact isOk_transitionRoute hk.transitions

theorem isOk_nextRoute {strategy : Strategy} (hk : s.Known rs) :
    (w.nextRoute strategy s rs).isOk = true := by
  obtain ⟨jumped, hjumped⟩ := exists_ok_of_isOk (isOk_jumpRoute? (w := w) hk.jumps)
  refine isOk_bind.2 ⟨jumped, hjumped, ?_⟩
  cases jumped with
  | some taken => rfl
  | none =>
    simp only
    split
    · next d hbody =>
      obtain ⟨first, hfirst⟩ := exists_ok_of_isOk (isOk_firstBranch? (hk.branches d hbody))
      refine isOk_bind.2 ⟨first, hfirst, ?_⟩
      cases first with
      | some found => rfl
      | none =>
        simp only
        split
        · rfl
        · obtain ⟨onward, honward⟩ := exists_ok_of_isOk (isOk_fallback (w := w) hk)
          exact isOk_bind.2 ⟨onward, honward, rfl⟩
    · exact isOk_fallback hk

/-- Where no two steps of a definition share an id, each step stands at its position, and every route
out of it ends at the step that was chosen or, without one, past the end. There is a route wherever
the conditions can be told. -/
theorem arrives_of_read {fresh : Nat} {raw : Value} (h : Workflow.read fresh raw = .ok w)
    (hd : w.Distinct) :
    (∀ s ∈ w.steps, w.stepAt? (w.positionOf s) = some s) ∧
      ∀ i s, w.steps[i]? = some s →
        w.Arrives (w.sequential s w.strategy) (w.sequentialGoal? s w.steps[i + 1]?) ∧
        ∀ rs,
          (s.Known rs → (∃ route, w.fallback w.strategy s rs = .ok route) ∧
            ∃ route, w.nextRoute w.strategy s rs = .ok route) ∧
          (∀ route, w.fallback w.strategy s rs = .ok route →
            w.Arrives route.position (w.fallbackGoal? s w.steps[i + 1]? rs)) ∧
          ∀ route, w.nextRoute w.strategy s rs = .ok route →
            w.Arrives route.position (w.nextGoal? s w.steps[i + 1]? rs) := by
  have hn := named_of_read h
  refine ⟨fun s hs => (arrives_positionOf hn hd hs).1, fun i s hs =>
    ⟨arrives_sequential hn hd hs, fun rs => ⟨fun hk => ?_, fun route => ?_, fun route => ?_⟩⟩⟩
  · exact ⟨exists_ok_of_isOk (isOk_fallback hk), exists_ok_of_isOk (isOk_nextRoute hk)⟩
  · exact arrives_fallback hn hd hs
  · exact arrives_nextRoute hn hd hs

def sendingRaw : Value := .record
  [("id", .text "sending"), ("steps", .list [
    .record [("id", .text "pick"), ("type", .text "decision"),
      ("jumps", .list [
        .record [("condition", .text "level == 'high'"), ("target", .text "nobody")]]),
      ("branches", .list [
        .record [("condition", .text "level == 'low'"), ("target", .text "wait")],
        .record [("condition", .text "level == 'high'"), ("target", .text " call them ")]])],
    .record [("id", .text "wait"), ("type", .text "action"), ("title", .text "Wait")],
    .record [("id", .text "call"), ("type", .text "action"), ("title", .text "Call Them")]])]

def sendingPick : Step where
  id := "pick"
  title := ""
  description := none
  jumps := [⟨some "level == 'high'", some "nobody"⟩]
  transitions := []
  body := .decision ⟨false, [⟨some "level == 'low'", some "wait"⟩,
    ⟨some "level == 'high'", some "call them"⟩], none⟩
  extras := []

def sending : Workflow where
  id := "sending"
  title := ""
  isGraph := false
  startId := none
  steps := [sendingPick, ⟨"wait", "Wait", none, [], [], .action ⟨none, []⟩, []⟩,
    ⟨"call", "Call Them", none, [], [], .action ⟨none, []⟩, []⟩]

theorem arrives_of_read_sample :
    Workflow.read 0 sendingRaw = .ok sending ∧ sending.Distinct ∧
      sendingPick.Known [(.text "level", .text "high")] ∧
      ∃ route t, sending.nextRoute .linear sendingPick [(.text "level", .text "high")] = .ok route ∧
        sending.stepAt? route.position = some t ∧ t.id = "call" := by
  have hread : Workflow.read 0 sendingRaw = .ok sending := by rfl
  have hd : sending.Distinct := by decide +kernel
  have hk : sendingPick.Known [(.text "level", .text "high")] := by
    refine ⟨?jumps, ?branches, by simp [sendingPick]⟩
    case jumps => decide +kernel
    case branches =>
      rintro d ⟨⟩
      unfold Branch.Known
      decide +kernel
  obtain ⟨hreturns, -, harrives⟩ :=
    ((arrives_of_read hread hd).2 0 sendingPick rfl).2 [(.text "level", .text "high")]
  obtain ⟨route, hroute⟩ := (hreturns hk).2
  have hgoal : (sending.nextGoal? sendingPick sending.steps[1]?
      [(.text "level", .text "high")]).map (·.id) = some "call" := by decide +kernel
  obtain ⟨t, ht, hid⟩ := Option.map_eq_some_iff.1 hgoal
  exact ⟨hread, hd, hk, route, t, hroute, (harrives route hroute).1.trans ht, hid⟩

end Workflow
end Runbook
