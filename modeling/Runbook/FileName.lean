/-! File names in normal form, so that two spellings of one name are the same text. -/
namespace Runbook.FileName

/-- The parts between the slashes; empty ones and single dots say nothing. -/
def parts (name : String) : List String :=
  (name.splitOn "/").filter fun p => !p.isEmpty && p != "."

/-- The slashes in front: one, but for two, which stay. -/
def root (name : String) : String :=
  match name.toList with
  | '/' :: '/' :: '/' :: _ => "/"
  | '/' :: '/' :: _ => "//"
  | '/' :: _ => "/"
  | _ => ""

def join (root : String) (parts : List String) : String :=
  let name := root ++ "/".intercalate parts
  if name.isEmpty then "." else name

def normal (name : String) : String := join (root name) (parts name)

/-- Whether a file can have the name: the character of code zero stands in none. -/
def isPossible (name : String) : Bool := name.toList.all fun c => c.toNat != 0

/-- The folder of a file. -/
def parent (name : String) : String := join (root name) (parts name).dropLast

end Runbook.FileName
