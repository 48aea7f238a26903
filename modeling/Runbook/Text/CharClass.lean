/-! Classes of characters, given by the code points at which membership changes. -/
namespace Runbook.Text

/-- Membership in the class that starts empty and flips at each of the ascending `flips`. -/
def inClass (flips : List Nat) (c : Char) : Bool :=
  flips.countP (· ≤ c.toNat) % 2 == 1

end Runbook.Text
