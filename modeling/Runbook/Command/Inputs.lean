import Runbook.Fault
import Runbook.Store

/-! Inputs given on the command line, as `name=value`. -/
namespace Runbook

/-- Splits at the first equals sign; the name is trimmed and must not be blank. -/
def splitInput (pair : String) : Except Failure (String × String) :=
  let cs := pair.toList
  match cs.dropWhile (· != '=') with
  | [] => .error (.badPair (Text.quote pair))
  | _ :: value =>
    let name := Text.trimChars Text.isBlank (cs.takeWhile (· != '='))
    if name.isEmpty then .error (.badPair (Text.quote pair))
    else .ok (String.ofList name, String.ofList value)

/-- Reads inputs; a later one replaces an earlier one of the same name. -/
def parseInputs (pairs : List String) : Except Failure Store := do
  let entries ← pairs.mapM splitInput
  pure (Store.ofPairs (entries.map fun (k, v) => (.text k, .text v)))

end Runbook
