import Runbook.Fault
import Runbook.Text.Blank
import Runbook.Text.Line
import Runbook.Text.Lower
import Runbook.Text.Plain
import Runbook.Value

/-! Talks: what a command says and asks, as data. A talk is played against the lines typed in; the
transcript holds what was printed and saved, and how it ended. -/
namespace Runbook

/-- What is printed or saved: a text, the data of a definition, or the faults of one. -/
inductive Output where
  | text (s : String)
  | document (v : Value)
  | faults (model : String) (faults : List Fault)
  deriving Inhabited

inductive Ending where
  | exit (code : Nat)
  /-- The command was called wrongly. -/
  | misuse
  /-- A failure that the command has no answer to. -/
  | failed (e : Failure)
  deriving Inhabited

def Ending.code : Ending → Nat
  | .exit code => code
  | .misuse => 2
  | .failed _ => 1

inductive Talk where
  | close (ending : Ending)
  | say (o : Output) (next : Talk)
  | save (file : String) (o : Output) (next : Talk)
  /-- Asks for a line, which may be empty. -/
  | ask (question : String) (next : String → Talk)
  /-- Asks until the line says yes or no. -/
  | confirm (question : String) (next : Bool → Talk)

structure Transcript where
  printed : List Output
  saved : List (String × Output)
  ending : Ending
  deriving Inhabited

/-- The first line of a report of faults. -/
def faultHeading (model : String) (faults : List Fault) : String :=
  toString faults.length ++ " validation error" ++ (if faults.length = 1 then "" else "s") ++
    " for " ++ model

namespace Talk

/-- Says a line. Nothing in it may steer the terminal. -/
def line (s : String) (next : Talk) : Talk := .say (.text (Text.plain (s ++ "\n"))) next

def lines (ss : List String) (next : Talk) : Talk := ss.foldr line next

def exit (code : Nat) : Talk := .close (.exit code)

def fail (e : Failure) : Talk := .close (.failed e)

/-- What a typed line answers to a question of yes or no; a blank one says yes. -/
def decision? (typed : String) : Option Bool :=
  let word := Text.trim (Text.lower typed)
  if word.isEmpty || word == "y" || word == "yes" then some true
  else if word == "n" || word == "no" then some false
  else none

def prompt (question : String) : String := Text.plain (question ++ ": ")

def choicePrompt (question : String) : String := Text.plain (question ++ " [Y/n]: ")

def refusal : String := "Error: invalid input\n"

/-- What is shown of a prompt and the line typed at it. -/
def echo (shown typed : String) : Output := .text (shown ++ typed ++ "\n")

/-- Asks until a line says yes or no: what is printed on the way, and the decision with the lines
left, unless the lines end first. -/
def decide (question : String) : List String → List Output × Option (Bool × List String)
  | [] => ([.text (choicePrompt question)], none)
  | typed :: rest =>
    match decision? typed with
    | some b => ([echo (choicePrompt question) typed], some (b, rest))
    | none =>
      let (printed, result) := decide question rest
      (echo (choicePrompt question) typed :: .text refusal :: printed, result)

/-- Plays a talk; where the lines typed in end too early, so does the talk. -/
def play : Talk → List String → Transcript
  | .close ending, _ => ⟨[], [], ending⟩
  | .say o next, typed =>
    let t := next.play typed
    { t with printed := o :: t.printed }
  | .save file o next, typed =>
    let t := next.play typed
    { t with saved := (file, o) :: t.saved }
  | .ask question _, [] => ⟨[.text (prompt question)], [], .exit 1⟩
  | .ask question next, first :: rest =>
    let t := (next first).play rest
    { t with printed := echo (prompt question) first :: t.printed }
  | .confirm question next, typed =>
    match decide question typed with
    | (printed, none) => ⟨printed, [], .exit 1⟩
    | (printed, some (b, rest)) =>
      let t := (next b).play rest
      { t with printed := printed ++ t.printed }

end Talk
end Runbook
