import Runbook.Command.Perform
import Runbook.Json.Read

/-! The command line tool. Definitions, settings and saved runs are files of JSON. -/
namespace Runbook.Tool

/-- What a path leads to. The file of an empty text holds null. -/
def find (path : String) : IO Found := do
  try
    let text ← IO.FS.readFile path
    if Text.allBlank text then return .file .null
    match Json.read? text with
    | some v => return .file v
    | none => throw (IO.userError (path ++ " holds no JSON"))
  catch
    | .noFileOrDirectory .. => return .missing
    | .inappropriateType _ 21 _ => return .folder
    | .inappropriateType .. => return .blocked
    | .invalidArgument .. => return .tooLong
    | e => throw e

def settingNames : List String :=
  ["WAYFINDER_CONFIG", "SIMULATION_MAX_ITERATIONS", "SIMULATION_MAX_SECONDS"]

/-- The definition a command works on, the settings it asks for, and the file it writes. -/
def paths : Command → String × Option String × Option String
  | .overview file => (file, none, none)
  | .convert file output => (file, none, output)
  | .validate file _ settings => (file, settings, none)
  | .run file _ state settings => (file, settings, state)
  | .walk file settings => (file, settings, none)

/-- The first number that a text starts with. -/
def number? (text : String) : Option Nat := (text.takeWhile (·.isDigit)).toNat?

/-- The universal time, to the second: when the system came up, and for how long it has been up. -/
def readNow : IO Instant := do
  try
    let lines := Text.lines (← IO.FS.readFile "/proc/stat")
    let start := lines.findSome? fun l =>
      if l.startsWith "btime " then number? (l.drop 6).toString else none
    let up := number? (← IO.FS.readFile "/proc/uptime")
    pure ((start.bind fun a => up.bind fun b => Instant.ofSeconds? (a + b)).getD default)
  catch _ => pure default

/-- Reads the variables and the time, and looks at the paths that a command may go along. -/
def look (c : Command) : IO Settings.Surroundings := do
  let values ← settingNames.mapM fun name => do pure (name, ← IO.getEnv name)
  let setting? := fun name => (values.lookup name).join
  let (file, asked, target) := paths c
  let now ← readNow
  let settings := Settings.fileName ⟨fun _ => .missing, setting?, now⟩ asked
  let targets := target.toList ++ (target.map FileName.parent).toList
  let found ← (file :: settings :: targets).mapM fun path => do pure (path, ← find path)
  pure ⟨fun path => (found.lookup path).getD .missing, setting?, now⟩

def placeText : Place → String
  | .field name => name
  | .item index => toString index

def faultLines (f : Fault) : List String :=
  [".".intercalate (f.path.map placeText), "  " ++ f.cause.message]

def Output.written : Output → String
  | .text s => s
  | .document v => Json.print v ++ "\n"
  | .faults model faults =>
    "\n".intercalate (faultHeading model faults :: faults.flatMap faultLines) ++ "\n"

/-- The next line typed, if there is one. -/
def typedLine (input : IO.FS.Stream) : IO (Option String) := do
  let line ← input.getLine
  pure (if line.isEmpty then none else some ((Text.lines line).headD ""))

partial def askDecision (input output : IO.FS.Stream) (question : String) :
    IO (Option Bool) := do
  output.putStr (Talk.choicePrompt question)
  output.flush
  match ← typedLine input with
  | none => pure none
  | some typed =>
    match Talk.decision? typed with
    | some b => pure (some b)
    | none =>
      output.putStr Talk.refusal
      askDecision input output question

/-- Holds a talk with whoever is at the terminal, and gives the exit code. -/
def hold (input output : IO.FS.Stream) : Talk → IO UInt32
  | .close ending => do
    match ending with
    | .failed e => (← IO.getStderr).putStrLn e.message
    | .misuse => (← IO.getStderr).putStrLn ("\n".intercalate usage)
    | .exit _ => pure ()
    pure ending.code.toUInt32
  | .say o next => do
    output.putStr (Output.written o)
    hold input output next
  | .save file o next => do
    IO.FS.writeFile file (Output.written o)
    hold input output next
  | .ask question next => do
    output.putStr (Talk.prompt question)
    output.flush
    match ← typedLine input with
    | some typed => hold input output (next typed)
    | none => pure 1
  | .confirm question next => do
    match ← askDecision input output question with
    | some b => hold input output (next b)
    | none => pure 1

end Runbook.Tool

open Runbook

/-- Reads the arguments, looks at the files they name, and holds the talk. -/
def main (arguments : List String) : IO UInt32 := do
  let request := Request.ofArguments arguments
  let surroundings ← match request with
    | .command c => Tool.look c
    | _ => pure ⟨fun _ => .missing, fun _ => none, default⟩
  Tool.hold (← IO.getStdin) (← IO.getStdout) (request.talk surroundings)
