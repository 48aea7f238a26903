import Runbook.Command.Overview
import Runbook.Command.Talk
import Runbook.Run.Drive

/-! Walking through a workflow: questions are asked one by one, and at a checkpoint whether the
issue is resolved. -/
namespace Runbook

/-- The exit code tells whether the guard ended the run. -/
def Run.exitCode (r : Run) : Nat :=
  match r.status with
  | .error | .timeout => 1
  | _ => 0

/-- What a question asks, with its options. -/
def Question.prompt (q : Question) (title : String) : String :=
  firstText [q.question] title ++
    (if q.options.isEmpty then ""
      else " [" ++ " / ".intercalate (q.options.map (·.display)) ++ "]")

/-- What the last step of the trail told. -/
def Run.told (r : Run) : List String :=
  match r.trail.getLast? with
  | some e => [e.content.getD ""]
  | none => []

namespace Runner

/-- The last word on a run. -/
def conclude (rn : Runner) (r : Run) : Talk :=
  .lines (r.summary rn.workflow) (.exit r.exitCode)

/-- Walks on from the current step as long as steps advance. Each of them takes room of the guard,
so a walk ends within one pass more than there is room for. Nothing that is said tells when a step was
made, so all of them are given the time at which the walk began. -/
def walk (rn : Runner) (now : Instant) : Nat → Run → Talk
  | 0, r => rn.conclude r
  | passes + 1, r =>
    if r.isFinal then rn.conclude r
    else match rn.currentStep? r with
      | none => rn.conclude r
      | some s =>
        let goOn := fun (x : Run × Except Failure Bool) (tell : Run → List String) =>
          match x with
          | (r, .ok true) => Talk.lines (tell r) (walk rn now passes r)
          | (r, .ok false) => Talk.lines (tell r) (rn.conclude r)
          | (_, .error e) => .fail e
        let title := s.title ++ " (" ++ s.kind ++ ")"
        match s.body with
        | .checkpoint message =>
          .line (firstText [message] s.title) <| .confirm "Is the issue resolved?" fun b =>
            goOn (rn.answerCheckpoint now r (.flag b) .null) fun _ => []
        | .question q =>
          .ask (q.prompt s.title) fun typed => goOn (rn.process now r (.text typed)) fun _ => []
        | .message _ => .line title (goOn (rn.process now r .null) Run.told)
        | _ => .line title (goOn (rn.process now r .null) fun _ => [])

/-- Walks from where a run stands. -/
def walkThrough (rn : Runner) (now : Instant) (r : Run) : Talk :=
  rn.walk now (room rn.guard r + 1) r

end Runner
end Runbook
