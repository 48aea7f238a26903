import Runbook.FileName
import Runbook.Fault
import Runbook.Value

/-! Paths and what they lead to, seen from the folder that a command works in. -/
namespace Runbook

inductive Found where
  | file (content : Value)
  | folder
  | missing
  /-- A file stands where the path needs a folder. -/
  | blocked
  /-- The path, or a part of it, is longer than it can be. -/
  | tooLong
  deriving Inhabited

/-- The files in a folder that holds no folders, by their names. -/
abbrev Folder := String → Option Value

namespace Folder

/-- Where a walk along a path stands: in the folder, in one of those around it, of which nothing but
that they exist is known, or where it ends, unless more parts follow. -/
inductive Spot where
  | inside
  | outside
  | at (found : Found)

def maxName : Nat := 255

def maxPath : Nat := 4095

/-- Goes on by one part of the path. A file is left by no part, not even by an empty one. -/
def step (files : Folder) (spot : Spot) (part : String) : Spot :=
  match spot with
  | .inside =>
    if part.isEmpty || part == "." then .inside
    else if part == ".." then .outside
    else if maxName < part.utf8ByteSize then .at .tooLong
    else match files part with
      | some content => .at (.file content)
      | none => .at .missing
  | .outside =>
    if part.isEmpty || part == "." || part == ".." then .outside
    else if maxName < part.utf8ByteSize then .at .tooLong
    else .at .missing
  | .at (.file _) => .at .blocked
  | .at found => .at found

def find (files : Folder) (path : String) : Found :=
  if path.isEmpty then .missing
  else if maxPath < path.utf8ByteSize then .tooLong
  else
    let start : Spot := if path.startsWith "/" then .outside else .inside
    match (path.splitOn "/").foldl (step files) start with
    | .inside | .outside => .folder
    | .at found => found

end Folder

/-- Why no file can be written at a path, if none can; `find` tells what paths lead to. -/
def Found.refusal? (find : String → Found) (path : String) : Option Failure :=
  match find path with
  | .file _ => none
  | .folder => some (.isFolder path)
  | .blocked => some (.notFolder path)
  | .tooLong => some (.longName path)
  | .missing =>
    match find (FileName.parent path) with
    | .folder => none
    | _ => some (.noFolder path)

end Runbook
