import Runbook.FileName

/-! Command lines: from the arguments to what they ask for. -/
namespace Runbook

/-- What the tool does with the definition in a file. -/
inductive Command where
  | overview (file : String)
  | validate (file : String) (strict : Bool) (settings : Option String)
  | convert (file : String) (output : Option String)
  | run (file : String) (inputs : List String) (state settings : Option String)
  | walk (file : String) (settings : Option String)
  deriving DecidableEq, Inhabited

inductive Request where
  | command (c : Command)
  | help
  | misuse
  deriving DecidableEq, Inhabited

/-- What follows an option: nothing, a text, or the name of a file. -/
inductive Operand where
  | nothing
  | text
  | file
  deriving DecidableEq, Inhabited

/-- An option that a command knows: its name, its one-letter name, and what follows it. -/
structure Switch where
  name : String
  letter : Option Char
  operand : Operand
  deriving DecidableEq, Inhabited

/-- The options given, in order, each with its value if it takes one. -/
abbrev Given := List (String × String)

namespace Given

def has (given : Given) (name : String) : Bool := given.any (·.1 == name)

def values (given : Given) (name : String) : List String :=
  (given.filter (·.1 == name)).map (·.2)

/-- The file an option names; the last one counts. -/
def file? (given : Given) (name : String) : Option String :=
  (given.values name).getLast?.map FileName.normal

end Given

/-- What one argument gives: options, and the name of one whose value is the next argument. -/
structure Piece where
  given : Given
  due : Option String

namespace Switch

def help : Switch := ⟨"--help", none, .nothing⟩

def verbose : Switch := ⟨"--verbose", some 'v', .nothing⟩

def strict : Switch := ⟨"--strict", none, .nothing⟩

def settings : Switch := ⟨"--config", none, .file⟩

def output : Switch := ⟨"--output", some 'o', .file⟩

def input : Switch := ⟨"--input", some 'i', .text⟩

def state : Switch := ⟨"--state", none, .file⟩

def takesValue (s : Switch) : Bool := s.operand != .nothing

/-- Whether the file that an option names, if any, can have that name. -/
def accepts (given : Given) (s : Switch) : Bool :=
  s.operand != .file || (given.file? s.name).all FileName.isPossible

/-- An option by its whole name, with or without a value after an equals sign. -/
def readLong (known : List Switch) (argument : List Char) : Option Piece :=
  let name := String.ofList (argument.takeWhile (· != '='))
  (known.find? (·.name == name)).bind fun s =>
    match argument.dropWhile (· != '='), s.takesValue with
    | [], true => some ⟨[], some s.name⟩
    | [], false => some ⟨[(s.name, "")], none⟩
    | _ :: value, true => some ⟨[(s.name, String.ofList value)], none⟩
    | _ :: _, false => none

/-- Options by their letters; one that takes a value takes the rest of the letters. -/
def readLetters (known : List Switch) : List Char → Option Piece
  | [] => some ⟨[], none⟩
  | c :: rest =>
    (known.find? (·.letter == some c)).bind fun s =>
      if !s.takesValue then
        (readLetters known rest).map fun p => { p with given := (s.name, "") :: p.given }
      else if rest.isEmpty then some ⟨[], some s.name⟩
      else some ⟨[(s.name, String.ofList rest)], none⟩

def read (known : List Switch) : List Char → Option Piece
  | '-' :: '-' :: rest => readLong known ('-' :: '-' :: rest)
  | letters => readLetters known (letters.drop 1)

/-- A dash alone is no option. -/
def isSwitch : List Char → Bool
  | '-' :: _ :: _ => true
  | _ => false

/-- Parts the options from the other arguments. If `mixed`, options may stand between these; else
the first of them ends the options, as two dashes always do. -/
def scan (known : List Switch) (mixed : Bool) : List String → Option (Given × List String)
  | [] => some ([], [])
  | argument :: rest =>
    if argument == "--" then some ([], rest)
    else if isSwitch argument.toList then
      (read known argument.toList).bind fun p =>
        match p.due, rest with
        | none, rest =>
          (scan known mixed rest).map fun (given, others) => (p.given ++ given, others)
        | some _, [] => none
        | some name, value :: rest =>
          (scan known mixed rest).map fun (given, others) =>
            (p.given ++ (name, value) :: given, others)
    else if mixed then
      (scan known mixed rest).map fun (given, others) => (given, argument :: others)
    else some ([], argument :: rest)

end Switch

namespace Request

/-- Reads what stands after the name of a command: its options and one file. -/
def ofCommand (known : List Switch) (make : Given → String → Command) (arguments : List String) :
    Request :=
  match Switch.scan (.help :: known) true arguments with
  | none => .misuse
  | some (given, files) =>
    if given.has "--help" then .help
    else match files with
      | [file] =>
        if FileName.isPossible file && known.all (Switch.accepts given) then
          .command (make given (FileName.normal file))
        else .misuse
      | _ => .misuse

/-- Reads the options in front of a command's name, and hands the rest on. -/
def ofGroup (known : List Switch) (member : String → List String → Request)
    (arguments : List String) : Request :=
  match Switch.scan (.help :: known) false arguments with
  | none => .misuse
  | some (given, rest) =>
    if given.has "--help" then .help
    else match rest with
      | [] => .misuse
      | name :: rest => member name rest

/-- The commands on definitions. -/
def ofWorkflow (name : String) : List String → Request :=
  match name with
  | "show" => ofCommand [] fun _ file => .overview file
  | "validate" => ofCommand [.strict, .settings] fun given file =>
    .validate file (given.has "--strict") (given.file? "--config")
  | "convert" => ofCommand [.output] fun given file => .convert file (given.file? "--output")
  | _ => fun _ => .misuse

def ofArguments : List String → Request :=
  ofGroup [.verbose] fun name =>
    match name with
    | "workflow" => ofGroup [] ofWorkflow
    | "run" => ofCommand [.input, .state, .settings] fun given file =>
      .run file (given.values "--input") (given.file? "--state") (given.file? "--config")
    | "walk" => ofCommand [.settings] fun given file => .walk file (given.file? "--config")
    | _ => fun _ => .misuse

end Request
end Runbook
