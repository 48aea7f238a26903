import Runbook.Proofs.BatchCommit
import Runbook.Proofs.BatchAnswers

/-! What a blank answer hides. A batch passes over nulls and empty texts when it looks for an answer,
while an answer that is recorded may not be blank at all. So a text of blanks is taken for the answer,
is not recorded, and hides what stands under the names after it. -/
namespace Runbook

namespace Question
variable {q : Question} {title : String} {p : Position} {m : Store}

/-- The answer that is found is not blank exactly if one that is not blank stands behind nothing but
nulls and empty texts. -/
theorem present_answerIn_iff :
    (q.answerIn title p m).present = true ↔
      ∃ before name after, q.inputNames title p = before ++ name :: after ∧
        (m.get (.text name)).present = true ∧
        ∀ other ∈ before, (m.get (.text other)).isAnswer = false := by
  rw [answerIn, List.find?_map]
  constructor
  · intro h
    cases hfind : (q.inputNames title p).find? ((·.isAnswer) ∘ fun name => m.get (.text name)) with
    | none =>
      rw [hfind] at h
      cases h
    | some name =>
      rw [hfind] at h
      obtain ⟨-, before, after, hsplit, hbefore⟩ := List.find?_eq_some_iff_append.1 hfind
      exact ⟨before, name, after, hsplit, h, by simpa using hbefore⟩
  · rintro ⟨before, name, after, hsplit, hname, hbefore⟩
    have hfind : (q.inputNames title p).find? ((·.isAnswer) ∘ fun name => m.get (.text name)) =
        some name :=
      List.find?_eq_some_iff_append.2
        ⟨Value.isAnswer_of_present hname, before, after, hsplit, by simpa using hbefore⟩
    rw [hfind]
    exact hname

theorem isAnswer_answerIn {name : String} (hname : name ∈ q.inputNames title p)
    (h : (m.get (.text name)).isAnswer = true) : (q.answerIn title p m).isAnswer = true := by
  unfold answerIn
  cases hfind : ((q.inputNames title p).map fun name => m.get (.text name)).find? (·.isAnswer) with
  | none => simp [List.find?_eq_none.1 hfind _ (List.mem_map_of_mem hname)] at h
  | some a => exact List.find?_some hfind

end Question

namespace Runner
variable {κ τ : Type} [Moment τ] [Clock κ τ] {rn : Runner} {deadline : τ} {r u : Run}
  {clock clock' : κ} {s : Step} {q : Question} {n : Nat}

theorem trail_of_leaves {x : Run × Except Failure BatchEnd × κ} {how : BatchEnd}
    (h : rn.pass deadline r clock = .leaves x) (hx : x.2.1 = .ok how) : x.1.trail = r.trail := by
  have hpass := passed rn deadline r clock
  rw [h] at hpass
  cases hpass with
  | failed _ _ _ _ _ _ => cases hx
  | _ => rfl

theorem Loops.trail {x : Run × Except Failure BatchEnd × κ} {how : BatchEnd}
    (h : Loops rn deadline n r clock x) (hx : x.2.1 = .ok how) : r.trail <+: x.1.trail := by
  induction h with
  | last hp => exact (trail_of_leaves hp hx).symm ▸ List.prefix_rfl
  | next hp _ ih =>
    obtain ⟨-, -, e, htrail⟩ := pass_goesOn hp
    have hrest := ih hx
    rw [htrail] at hrest
    exact (List.prefix_append _ _).trans hrest

/-- A pass at a question tells of the answer that the inputs hold for it, and keeps it under the names
of the question unless it is blank. -/
theorem pass_answered (hs : rn.currentStep? r = some s) (hq : s.body = .question q)
    (h : rn.pass deadline r clock = .goesOn u clock') :
    (∃ e, u.trail = r.trail ++ [e] ∧ e.answer = answerFor r s) ∧
      ((answerFor r s).present = true →
        (∀ name ∈ r.position.toValue.display :: q.names s.title,
          u.inputs.get (.text name) = answerFor r s) ∧
        ∀ name ∈ q.names s.title, u.results.get (.text name) = answerFor r s) ∧
      ((answerFor r s).present = false → u.inputs = r.inputs ∧ u.results = r.results) := by
  obtain ⟨t, route, ht, -, rfl⟩ := pass_stepped h
  obtain rfl : t = s := Option.some.inj (ht.symm.trans hs)
  refine ⟨⟨_, Run.stepped_trail .., ?_⟩, fun hpresent => ?_, fun hblank => ?_⟩
  · simp [Workflow.entryAfter, Workflow.Entry.routed, Workflow.entryOf, hq]
  · simp only [Run.stepped_inputs, Run.stepped_results, Workflow.writes, hq,
      q.record_eq t.title r.position hpresent]
    exact ⟨fun name hname => Store.get_recordAll_of_mem hname,
      fun name hname => Store.get_recordAll_of_mem hname⟩
  · simp [Workflow.writes, hq, Question.record, hblank]

theorem execute_passes {inputs : Store} {b : Bool} {r' : Run}
    (h : rn.execute r inputs clock = (r', .ok b, clock')) :
    r'.trail = r.trail ∨ ∃ deadline u c,
      rn.pass deadline { r with inputs := r.inputs.merge inputs } (Clock.read clock).2 =
        .goesOn u c ∧ u.trail <+: r'.trail := by
  cases hr : r.isFinal with
  | true =>
    rw [execute_final hr] at h
    cases h
    exact .inl rfl
  | false =>
    cases hd : rn.guard.deadline (Clock.read clock).1 with
    | error e =>
      rw [execute_eq hr, hd] at h
      cases h
    | ok deadline =>
      obtain ⟨n, ⟨v, x, c⟩, hloop, hpublish⟩ := execute_loops inputs hr hd
      rw [hpublish] at h
      cases x with
      | error e => cases h
      | ok how =>
        cases h
        cases hloop with
        | last hp => exact .inl (trail_of_leaves hp rfl)
        | next hp hrest => exact .inr ⟨deadline, _, _, hp, hrest.trail rfl⟩

/-- A batch that is called at a question takes the first value under the names of the question that
is neither null nor the empty text. So one that is not blank is taken exactly if nothing but nulls and
empty texts stands before it. The pass at the question tells of the value, and keeps it under the
names of the question unless it is blank. A batch that returns has made that pass first, or none. -/
theorem execute_answer (rn : Runner) (r : Run) (inputs : Store) (clock : κ)
    (hs : rn.currentStep? r = some s) (hq : s.body = .question q) :
    let work : Run := { r with inputs := r.inputs.merge inputs }
    let names := q.inputNames s.title r.position
    let a := q.answerIn s.title r.position work.inputs
    (a.present = true ↔ ∃ before name after, names = before ++ name :: after ∧
      (work.inputs.get (.text name)).present = true ∧
      ∀ other ∈ before, (work.inputs.get (.text other)).isAnswer = false) ∧
    ((∃ name ∈ names, (work.inputs.get (.text name)).present = true) → a.isAnswer = true) ∧
    (∀ deadline u (c c' : κ), rn.pass deadline work c = .goesOn u c' →
      (∃ e, u.trail = r.trail ++ [e] ∧ e.answer = a) ∧
      (a.present = true →
        (∀ name ∈ r.position.toValue.display :: q.names s.title, u.inputs.get (.text name) = a) ∧
        ∀ name ∈ q.names s.title, u.results.get (.text name) = a) ∧
      (a.present = false → u.inputs = work.inputs ∧ u.results = r.results)) ∧
    ∀ r' b clock', rn.execute r inputs clock = (r', .ok b, clock') →
      r'.trail = r.trail ∨ ∃ deadline u c,
        rn.pass deadline work (Clock.read clock).2 = .goesOn u c ∧ u.trail <+: r'.trail := by
  intro work names a
  have ha : answerFor work s = a := answerFor_question hq
  refine ⟨Question.present_answerIn_iff, ?_, fun deadline u c c' hpass => ?_,
    fun r' b clock' => execute_passes⟩
  · rintro ⟨name, hname, hpresent⟩
    exact Question.isAnswer_answerIn hname (Value.isAnswer_of_present hpresent)
  · have hwork : rn.currentStep? work = some s := hs
    rw [← ha]
    exact pass_answered hwork hq hpass

def askName : Step :=
  ⟨"ask", "Name?", none, [], [], .question ⟨none, some "name", "text", []⟩, []⟩

def naming : Runner where
  workflow := ⟨"naming", "Naming", false, none, [askName]⟩
  guard := ⟨10, .real (.inf false)⟩

theorem execute_answer_sample :
    naming.currentStep? (naming.opening "run" []) = some askName ∧
      ∃ u, naming.pass (.inf false) { naming.opening "run" [] with
          inputs := Store.merge [] [(.text "name", .text ""), (.text "0", .text "Ann")] }
            SteadyClock.stopped = .goesOn u .stopped ∧
        u.inputs.get (.text "name") = .text "Ann" ∧ u.results.get (.text "name") = .text "Ann" := by
  have hpass : naming.pass (.inf false) { naming.opening "run" [] with
      inputs := Store.merge [] [(.text "name", .text ""), (.text "0", .text "Ann")] }
        SteadyClock.stopped = .goesOn _ .stopped := rfl
  obtain ⟨hfound, -, hvisit, -⟩ := execute_answer naming (naming.opening "run" [])
    [(.text "name", .text ""), (.text "0", .text "Ann")] SteadyClock.stopped rfl rfl
  obtain ⟨-, hkept, -⟩ := hvisit _ _ _ _ hpass
  obtain ⟨hinputs, hresults⟩ := hkept (hfound.2 ⟨["name"], "0", ["Name?"], rfl, by decide, by decide⟩)
  exact ⟨rfl, _, hpass, hinputs "name" (by decide), hresults "name" (by decide)⟩

/-- A text of blanks under the first name hides the answer under the last one. -/
theorem answer_hidden :
    ¬∀ (rn : Runner) (r r' : Run) (inputs : Store) (clock clock' : SteadyClock) (s : Step)
      (q : Question), r.status = .active → rn.currentStep? r = some s →
      s.body = .question q →
      (∃ name ∈ q.inputNames s.title r.position,
        ((r.inputs.merge inputs).get (.text name)).present = true) →
      rn.execute r inputs clock = (r', .ok true, clock') →
      ∃ e more, r'.trail = r.trail ++ e :: more ∧ e.answer.present = true := by
  intro h
  obtain ⟨e, more, htrail, hpresent⟩ := h naming (naming.opening "run" []) _
    [(.text "name", .text "  "), (.text "Name?", .text "Ann")] .stopped _ askName _ rfl rfl rfl
    ⟨"Name?", by decide, by decide⟩ rfl
  cases htrail
  cases hpresent

end Runner
end Runbook
