import Runbook.Proofs.ConvertedRuns

/-! Calls that fail. Only a whole number that no float is near to, among the results or as the answer,
can stop a step, and only data that cannot be read an answer to a checkpoint. The run then stays where
it is, but the call is counted and what was written before the failure is kept. -/
namespace Runbook

theorem bind_eq_error {ε α β : Type} {x : Except ε α} {f : α → Except ε β} {e : ε} :
    (x >>= f) = .error e ↔ x = .error e ∨ ∃ a, x = .ok a ∧ f a = .error e := by
  cases x with
  | error e' => exact ⟨fun h => .inl (by simpa [bind, Except.bind] using h),
      fun h => h.elim (fun h => by cases h; rfl) fun ⟨_, h, _⟩ => nomatch h⟩
  | ok a => exact ⟨fun h => .inr ⟨a, rfl, h⟩,
      fun h => h.elim nofun fun ⟨_, ha, h⟩ => by cases ha; exact h⟩

namespace Store
variable {rs : Store} {key k : Key} {v v' : Value} {name : String}

theorem mem_of_get? (h : rs.get? key = some v) : ∃ k, (k, v) ∈ rs := by
  induction rs with
  | nil => cases h
  | cons head rest ih =>
    simp only [get?] at h
    split at h
    · cases h
      exact ⟨head.1, .head _⟩
    · obtain ⟨k, hk⟩ := ih h
      exact ⟨k, .tail _ hk⟩

theorem mem_put (h : (k, v) ∈ rs.put key v') : v = v' ∨ (k, v) ∈ rs := by
  induction rs with
  | nil => exact .inl (congrArg Prod.snd (List.mem_singleton.1 h))
  | cons head rest ih =>
    simp only [put] at h
    split at h
    · obtain h | h := List.mem_cons.1 h
      · exact .inl (congrArg Prod.snd h)
      · exact .inr (.tail _ h)
    · obtain h | h := List.mem_cons.1 h
      · exact .inr (h ▸ .head _)
      · exact (ih h).imp_right (.tail _)

theorem mem_record (h : (k, v) ∈ rs.record name v') : v = v' ∨ (k, v) ∈ rs := by
  unfold record at h
  split at h
  · exact .inr h
  · exact mem_put h

theorem whole_mem_of_record {n : Int} {text : String}
    (h : (k, .whole n) ∈ rs.record name (.text text)) : (k, .whole n) ∈ rs := by
  obtain h | h := mem_record h
  · cases h
  · exact h

theorem whole_mem_of_put {n : Int} {text : String} {fields : List (String × Value)}
    (h : (k, .whole n) ∈ (rs.record name (.text text)).put key (Fields.ofSet fields)) :
    (k, .whole n) ∈ rs := by
  obtain h | h := mem_put h
  · cases h
  · exact whole_mem_of_record h

theorem mem_of_lookup (rs : Store) (name : String) :
    rs.lookup name = .null ∨ ∃ k, (k, rs.lookup name) ∈ rs := by
  unfold lookup
  simp only
  split
  · next hexact =>
    cases hget : rs.get? (.text name) with
    | none => simp [get, hget, Value.isNull] at hexact
    | some v =>
      simp only [get, hget, Option.getD_some]
      exact .inr (mem_of_get? hget)
  · split
    · unfold latest
      split
      · next k v hlast => exact .inr ⟨k, List.mem_of_getLast? hlast⟩
      · exact .inl rfl
    · unfold lookupFolded
      split
      · next k v hfind => exact .inr ⟨k, List.mem_of_find?_eq_some hfind⟩
      · exact .inl rfl

/-- The store holds a whole number that no float is near to. -/
def Overflows (rs : Store) (o : Overflow) : Prop :=
  (∃ k, (k, .whole o.number) ∈ rs) ∧ Binary64.ofInt? o.number = none

end Store

namespace Condition
variable {rs : Store} {o : Overflow} {v : Value}

theorem numberOf_eq_error_iff :
    numberOf v = .error o ↔ v = .whole o.number ∧ Binary64.ofInt? o.number = none := by
  cases v with
  | whole n =>
    cases hn : Binary64.ofInt? n with
    | none =>
      simp only [numberOf, hn, Value.whole.injEq]
      constructor
      · intro h
        have ho : (⟨n⟩ : Overflow) = o := Except.error.inj h
        exact ho ▸ ⟨rfl, hn⟩
      · rintro ⟨rfl, -⟩
        rfl
    | some x =>
      simp only [numberOf, hn, Value.whole.injEq]
      refine ⟨nofun, ?_⟩
      rintro ⟨rfl, hnone⟩
      simp [hn] at hnone
  | _ => exact ⟨nofun, nofun⟩

theorem ordered_eq_error_iff {compare : Binary64 → Binary64 → Bool} {literal : String} :
    ordered compare v literal = .error o ↔
      v = .whole o.number ∧ Binary64.ofInt? o.number = none := by
  cases hnull : v.isNull with
  | true =>
    have hmissing : v ≠ .whole o.number := by
      rintro rfl
      cases hnull
    simp only [ordered, hnull, if_true, pure_bind]
    split <;> simp [hmissing, pure, Except.pure]
  | false =>
    simp only [ordered, hnull, Bool.false_eq_true, if_false]
    rw [bind_eq_error, numberOf_eq_error_iff]
    refine or_iff_left fun ⟨left, _, h⟩ => ?_
    split at h <;> cases h

/-- A comparison fails exactly if it is one by order, with a whole number that no float is near to. -/
theorem compareWith_eq_error_iff {c : Condition} :
    c.compareWith v = .error o ↔ c.comparison ≠ .eq ∧ c.comparison ≠ .ne ∧
      v = .whole o.number ∧ Binary64.ofInt? o.number = none := by
  unfold compareWith
  cases c.comparison with
  | eq => simp [pure, Except.pure]
  | ne => simp [pure, Except.pure]
  | _ => simp [ordered_eq_error_iff]

theorem holds_eq_error {expression : String} (h : holds expression rs = .error o) :
    rs.Overflows o := by
  unfold holds at h
  split at h
  · next c _ =>
    obtain ⟨-, -, hv, hnone⟩ := compareWith_eq_error_iff.1 h
    obtain hnull | ⟨k, hk⟩ := rs.mem_of_lookup c.name
    · rw [hnull] at hv
      cases hv
    · exact ⟨⟨k, hv ▸ hk⟩, hnone⟩
  · cases h

end Condition

theorem Step.jumpHolds_eq_error {s : Step} {condition : String} {rs : Store} {o : Overflow}
    (h : s.jumpHolds condition rs = .error o) : rs.Overflows o := by
  unfold jumpHolds at h
  split at h
  · cases h
  · split at h
    · cases h
    · exact Condition.holds_eq_error h
  · exact Condition.holds_eq_error h

theorem Transition.satisfied_eq_error {t : Transition} {rs : Store} {o : Overflow}
    (h : t.satisfied rs = .error o) : rs.Overflows o := by
  unfold satisfied at h
  split at h
  · exact Condition.holds_eq_error h
  · cases h

theorem Action.mem_apply {a : Action} {title : String} {rs : Store} {k : Key} {n : Int}
    (h : (k, .whole n) ∈ a.apply title rs) : ∃ k, (k, .whole n) ∈ rs := by
  have hfold : ∀ (os : List OutputField) (rs : Store),
      (k, .whole n) ∈ os.foldl (fun rs o =>
        rs.put (.text o.name) (.text (Template.fill rs o.template))) rs →
      (k, .whole n) ∈ rs := by
    intro os
    induction os with
    | nil => exact fun _ h => h
    | cons o os ih =>
      intro rs h
      exact (Store.mem_put (ih _ h)).resolve_left nofun
  exact ⟨k, Store.whole_mem_of_record (hfold _ _ h)⟩

namespace Workflow
variable {w : Workflow} {s : Step} {rs : Store} {o : Overflow}

theorem jumpRoute?_eq_error {js : List Jump} (h : w.jumpRoute? s rs js = .error o) :
    rs.Overflows o := by
  induction js with
  | nil => cases h
  | cons j js ih =>
    simp only [jumpRoute?] at h
    split at h
    · split at h
      · exact ih h
      · obtain h | ⟨holds, -, h⟩ := bind_eq_error.1 h
        · exact Step.jumpHolds_eq_error h
        · split at h
          · split at h
            · cases h
            · exact ih h
          · exact ih h
    · exact ih h

theorem transitionRoute_eq_error {es : List Transition} (h : w.transitionRoute rs es = .error o) :
    rs.Overflows o := by
  induction es with
  | nil => cases h
  | cons e es ih =>
    simp only [transitionRoute] at h
    split at h
    · exact ih h
    · split at h
      · exact ih h
      · obtain h | ⟨satisfied, -, h⟩ := bind_eq_error.1 h
        · exact Transition.satisfied_eq_error h
        · split at h
          · split at h
            · cases h
            · exact ih h
          · exact ih h

theorem fallback_eq_error {strategy : Strategy} (h : w.fallback strategy s rs = .error o) :
    rs.Overflows o := by
  cases strategy with
  | linear => cases h
  | graph => exact transitionRoute_eq_error h

theorem firstBranch?_eq_error {bs : List Branch} (h : firstBranch? rs bs = .error o) :
    rs.Overflows o := by
  induction bs with
  | nil => cases h
  | cons b bs ih =>
    rw [firstBranch?_cons] at h
    split at h
    · exact ih h
    · obtain h | ⟨holds, -, h⟩ := bind_eq_error.1 h
      · exact Condition.holds_eq_error h
      · split at h
        · cases h
        · exact ih h

theorem decisionRoute_eq_error {strategy : Strategy} {d : Decision}
    (h : w.decisionRoute strategy s d rs = .error o) : rs.Overflows o := by
  obtain h | ⟨first, -, h⟩ := bind_eq_error.1 h
  · exact firstBranch?_eq_error h
  · cases first with
    | some found => cases h
    | none =>
      simp only at h
      split at h
      · cases h
      · obtain h | ⟨route, -, h⟩ := bind_eq_error.1 h
        · exact fallback_eq_error h
        · cases h

theorem nextRoute_eq_error {strategy : Strategy} (h : w.nextRoute strategy s rs = .error o) :
    rs.Overflows o := by
  obtain h | ⟨jumped, -, h⟩ := bind_eq_error.1 h
  · exact jumpRoute?_eq_error h
  · cases jumped with
    | some route => cases h
    | none =>
      simp only at h
      split at h
      · exact decisionRoute_eq_error h
      · exact fallback_eq_error h

theorem way_eq_error (h : w.way s rs = .error o) : rs.Overflows o := by
  unfold way at h
  split at h
  · cases h
  · exact nextRoute_eq_error h

theorem checkpointWay_eq_error {resolved : Value} (h : w.checkpointWay s resolved rs = .error o) :
    rs.Overflows o := by
  unfold checkpointWay at h
  split at h
  · cases h
  · cases hf : w.fallback w.strategy s rs with
    | ok route => simp [hf, Except.map] at h
    | error o' =>
      simp only [hf, Except.map, Except.error.injEq] at h
      exact h ▸ fallback_eq_error hf

/-- A step writes no whole number but the answer to a question. -/
theorem mem_writes {r : Run} {a : Value} {k : Key} {n : Int}
    (h : (k, .whole n) ∈ (writes s r a).results) :
    (∃ k, (k, .whole n) ∈ r.results) ∨ a = .whole n := by
  unfold writes at h
  split at h
  · next q _ =>
    simp only [Question.record] at h
    split at h
    · obtain h | h := Store.mem_record h
      · exact .inr h.symm
      · obtain h | h := Store.mem_record h
        · exact .inr h.symm
        · exact .inl ⟨k, h⟩
    · exact .inl ⟨k, h⟩
  · next act _ =>
    obtain ⟨k, h⟩ := Action.mem_apply h
    exact .inl ⟨k, h⟩
  · exact .inl ⟨k, Store.whole_mem_of_record h⟩
  · exact .inl ⟨k, Store.whole_mem_of_put h⟩
  · exact .inl ⟨k, Store.whole_mem_of_put h⟩
  · exact .inl ⟨k, h⟩

end Workflow

namespace Interaction

/-- What a failed call on a run is put down to: a whole number that no float is near to is the answer
or among the results, or the answer to a checkpoint cannot be read. -/
inductive Blamed (r : Run) : Interaction → Failure → Prop where
  | overflow {c : Interaction} {n : Int} : Binary64.ofInt? n = none →
      c = .process (.whole n) ∨ (∃ k, (k, .whole n) ∈ r.results) → Blamed r c .tooLarge
  | unread {now : Instant} {s : Step} {resolved notes : Value} {f : Failure} :
      (Workflow.checkpointEntry now s r.position resolved notes).toExcept "ExecutionEntry" =
        .error f →
      Blamed r (.answerCheckpoint resolved notes) f

end Interaction

namespace Runner

/-- An active run stands at a step, and the guard has room for it. -/
structure Due (rn : Runner) (r : Run) (s : Step) : Prop where
  active : r.status = .active
  stands : rn.currentStep? r = some s
  room : rn.guard.hasRoom r = true

theorem Due.isFinal {rn : Runner} {r : Run} {s : Step} (h : rn.Due r s) : r.isFinal = false :=
  Run.isFinal_eq_false.2 h.active

/-- A call breaks off with a failure, and this is the run that it leaves behind. The step has been
counted in each case, and the run stays active where it is. -/
inductive Breaks (rn : Runner) (now : Instant) (r : Run) : Interaction → Failure → Run → Prop where
  /-- There is no telling where the step leads. Its own writes are made, the trail is as it was. -/
  | step {s : Step} {a : Value} {o : Overflow} : rn.Due r s → s.isCheckpoint = false →
      rn.workflow.way s (Workflow.writes s r a).results = .error o →
      Breaks rn now r (.process a) .tooLarge
        { r with
          results := (Workflow.writes s r a).results
          inputs := (Workflow.writes s r a).inputs
          iterations := r.iterations + 1 }
  /-- The answer cannot be read, which is found before anything is written. -/
  | unread {s : Step} {resolved notes : Value} {f : Failure} : rn.Due r s → s.isCheckpoint = true →
      (Workflow.checkpointEntry now s r.position resolved notes).toExcept "ExecutionEntry" =
        .error f →
      Breaks rn now r (.answerCheckpoint resolved notes) f
        { r with iterations := r.iterations + 1 }
  /-- There is no telling where the checkpoint leads. Its text and its entry are written, the inputs
  are as they were. -/
  | checkpoint {s : Step} {resolved notes : Value} {e : Entry} {o : Overflow} : rn.Due r s →
      s.isCheckpoint = true →
      (Workflow.checkpointEntry now s r.position resolved notes).toExcept "ExecutionEntry" = .ok e →
      rn.workflow.checkpointWay s resolved
        (r.results.record s.title (Workflow.checkpointText resolved)) = .error o →
      Breaks rn now r (.answerCheckpoint resolved notes) .tooLarge
        { r with
          results := r.results.record s.title (Workflow.checkpointText resolved)
          trail := r.trail ++ [e]
          iterations := r.iterations + 1 }

variable {rn : Runner} {now : Instant} {r r' : Run} {c : Interaction} {f : Failure}

theorem breaks_of_process {a : Value} (h : rn.process now r a = (r', .error f)) :
    rn.Breaks now r (.process a) f r' := by
  cases hr : r.isFinal with
  | true => simp [process_final hr] at h
  | false =>
    cases hs : rn.currentStep? r with
    | none => simp [process_ended hr hs] at h
    | some s =>
      cases hc : s.isCheckpoint with
      | true => simp [process_waiting hr hs hc] at h
      | false =>
        cases hg : rn.guard.hasRoom r with
        | false => simp [process_overrun hr hs hc hg] at h
        | true =>
          rw [process_eq hr hs hc hg] at h
          cases hway : rn.workflow.way s (Workflow.writes s r a).results with
          | ok route => simp [hway] at h
          | error o =>
            rw [hway, Workflow.writes_eq] at h
            cases h
            exact .step ⟨Run.isFinal_eq_false.1 hr, hs, hg⟩ hc hway

theorem breaks_of_answerCheckpoint {resolved notes : Value}
    (h : rn.answerCheckpoint now r resolved notes = (r', .error f)) :
    rn.Breaks now r (.answerCheckpoint resolved notes) f r' := by
  cases hr : r.isFinal with
  | true => simp [answerCheckpoint_final hr] at h
  | false =>
    cases hs : (rn.currentStep? r).any (·.isCheckpoint) with
    | false => simp [answerCheckpoint_refused hs] at h
    | true =>
      obtain ⟨s, hs, hc⟩ := (Option.any_eq_true _ _).1 hs
      cases hg : rn.guard.hasRoom r with
      | false => simp [answerCheckpoint_overrun hr hs hc hg] at h
      | true =>
        have hdue : rn.Due r s := ⟨Run.isFinal_eq_false.1 hr, hs, hg⟩
        rw [answerCheckpoint_eq hr hs hc hg] at h
        cases he : (Workflow.checkpointEntry now s r.position resolved notes).toExcept
            "ExecutionEntry" with
        | error f' =>
          rw [he] at h
          cases h
          exact .unread hdue hc he
        | ok e =>
          cases hway : rn.workflow.checkpointWay s resolved
              (r.results.record s.title (Workflow.checkpointText resolved)) with
          | ok p => simp [he, hway] at h
          | error o =>
            simp only [he, hway] at h
            cases h
            exact .checkpoint hdue hc he hway

theorem Breaks.interact_eq (h : rn.Breaks now r c f r') : rn.interact now r c = (r', .error f) := by
  cases h with
  | step hdue hc hway =>
    simp only [interact]
    rw [process_eq hdue.isFinal hdue.stands hc hdue.room, hway, Workflow.writes_eq]
  | unread hdue hc he =>
    simp only [interact]
    rw [answerCheckpoint_eq hdue.isFinal hdue.stands hc hdue.room, he]
  | checkpoint hdue hc he hway =>
    simp only [interact]
    rw [answerCheckpoint_eq hdue.isFinal hdue.stands hc hdue.room, he]
    simp only [hway]
    rfl

/-- A call fails just as `Breaks` says, and leaves just the run that it tells of. -/
theorem interact_eq_error_iff : rn.interact now r c = (r', .error f) ↔ rn.Breaks now r c f r' := by
  refine ⟨fun h => ?_, Breaks.interact_eq⟩
  cases c with
  | process a => exact breaks_of_process h
  | answerCheckpoint resolved notes => exact breaks_of_answerCheckpoint h

theorem Breaks.iterations (h : rn.Breaks now r c f r') : r'.iterations = r.iterations + 1 := by
  cases h <;> rfl

theorem Breaks.blamed (h : rn.Breaks now r c f r') : c.Blamed r f := by
  cases h with
  | step _ _ hway =>
    obtain ⟨⟨k, hk⟩, hnone⟩ := Workflow.way_eq_error hway
    obtain hmem | ha := Workflow.mem_writes hk
    · exact .overflow hnone (.inr hmem)
    · exact .overflow hnone (.inl (congrArg _ ha))
  | unread _ _ he => exact .unread he
  | checkpoint _ _ _ hway =>
    obtain ⟨⟨k, hk⟩, hnone⟩ := Workflow.checkpointWay_eq_error hway
    exact .overflow hnone (.inr ⟨k, Store.whole_mem_of_record hk⟩)

/-- A call returns or breaks off. It breaks off exactly where `Breaks` says, with the failure and the
run behind it that are given there, for a number too large or for an answer that cannot be read, as
whole numbers of any length have a text (`Value.display`). So a call is atomic exactly if it returns:
one that breaks off has been counted at least. -/
theorem interact_breaks_iff (rn : Runner) (now : Instant) (r : Run) (c : Interaction) :
    (∀ f r', rn.interact now r c = (r', .error f) ↔ rn.Breaks now r c f r') ∧
    ((∃ b, (rn.interact now r c).2 = .ok b) ∨ (rn.interact now r c).1 = r ↔
      ∀ f r', ¬rn.Breaks now r c f r') ∧
    ∀ f r', rn.Breaks now r c f r' → c.Blamed r f := by
  refine ⟨fun f r' => interact_eq_error_iff, ⟨fun h f r' hbreaks => ?_, fun h => ?_⟩,
    fun f r' => Breaks.blamed⟩
  · rw [hbreaks.interact_eq] at h
    obtain ⟨b, hb⟩ | hsame := h
    · cases hb
    · have hcount := congrArg Run.iterations hsame
      simp only [hbreaks.iterations] at hcount
      omega
  · cases hx : (rn.interact now r c).2 with
    | ok b => exact .inl ⟨b, rfl⟩
    | error f => exact absurd (interact_eq_error_iff.1 (Prod.ext rfl hx)) (h f _)

def levels : Runner where
  workflow := ⟨"levels", "Levels", false, none,
    [⟨"ask", "Level?", none, [], [], .question ⟨none, some "level", "text", []⟩, []⟩,
      ⟨"choose", "", none, [], [], .decision ⟨false, [⟨some "level > 3", some "ask"⟩], none⟩, []⟩]⟩
  guard := ⟨10, .whole 5⟩

def highRun : Run :=
  (levels.process .leapDay (levels.opening "run" []) (.whole (tenTo 400))).1

/-- A call that fails can leave a run with one more step counted than its trail shows. -/
theorem process_not_atomic :
    ¬∀ (rn : Runner) (now : Instant) (r : Run) (c : Interaction), r.status = .active →
      (∃ b, (rn.interact now r c).2 = .ok b) ∨ (rn.interact now r c).1 = r := by
  intro h
  have hfailed : (levels.interact .leapDay highRun (.process .null)).2.toBool = false := by
    decide +kernel
  have hcounted : (levels.interact .leapDay highRun (.process .null)).1.iterations = 2 := by
    decide +kernel
  obtain ⟨b, hb⟩ | hsame := h levels .leapDay highRun (.process .null) (by decide +kernel)
  · simp [hb, Except.toBool] at hfailed
  · rw [hsame] at hcounted
    exact absurd hcounted (by decide +kernel)

end Runner
end Runbook
