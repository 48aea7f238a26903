import Runbook.Proofs.FailedCalls
import Runbook.Proofs.DecimalRounding

/-! Conditions without a truth value. Rounding to a float is finite below the midpoint between the
largest float and the power of two after it. A comparison by order with a whole number from there on
fails, and nothing else in a condition does. -/
namespace Runbook

namespace Binary64
variable {a b m : Nat}

theorem divNearest_le (a b : Nat) : divNearest a b ≤ a / b + 1 := by
  simp only [divNearest]
  split <;> omega

theorem le_divNearest (a b : Nat) : a / b ≤ divNearest a b := by
  simp only [divNearest]
  split <;> omega

theorem even_le_divNearest (hb : 0 < b) (hm : m % 2 = 0) :
    m ≤ divNearest a b ↔ 2 * (m * b) ≤ 2 * a + b := by
  have hdiv := Nat.div_add_mod a b
  have hmod := Nat.mod_lt a hb
  rw [Nat.mul_comm] at hdiv
  obtain h | h | h := Nat.lt_trichotomy (a / b + 1) m
  · have hmul : (a / b + 2) * b ≤ m * b := Nat.mul_le_mul_right b h
    have hbelow := divNearest_le a b
    rw [Nat.add_mul] at hmul
    omega
  · have hmul : m * b = a / b * b + b := by rw [← h, Nat.succ_mul]
    have hodd : a / b % 2 = 1 := by omega
    simp only [divNearest, hodd, hmul, beq_self_eq_true, Bool.and_true, Bool.or_eq_true,
      decide_eq_true_eq, beq_iff_eq]
    split <;> omega
  · have hmul : m * b ≤ a / b * b := Nat.mul_le_mul_right b (by omega)
    have habove := le_divNearest a b
    omega

/-- The least magnitude that is too large for a float: half a step below the power of two where the
floats end. -/
def ceiling : Nat := twoTo 1024 - twoTo 970

theorem two_mul_ceiling : 2 * (ceiling * unit) + twoTo 2045 = 2 * (twoTo 53 * twoTo 2045) := by
  decide +kernel

theorem codeLimit_le_iff (units : Nat) :
    codeLimit ≤ doublings units 1 * twoTo 52 +
        divNearest units (twoTo (doublings units 1)) ↔ ceiling * unit ≤ units := by
  have hlt := doublings_lt (a := units) Nat.one_pos
  have hle := doublings_le (a := units) (b := 1)
  have hlimit : codeLimit = 2047 * twoTo 52 := rfl
  have hstretch : twoTo 53 = 2 * twoTo 52 := Nat.pow_succ'
  have hceiling := two_mul_ceiling
  have hend : twoTo 53 * twoTo 2045 = 2 * twoTo 2097 := by decide +kernel
  have hstep : twoTo 2045 ≤ twoTo 2097 := twoTo_le (by omega)
  rw [Nat.mul_one] at hlt hle
  generalize doublings units 1 = s at *
  have hpos := twoTo_pos s
  obtain hs | rfl | hs := Nat.lt_trichotomy s 2045
  · have hunits : twoTo (53 + s) ≤ twoTo 2097 := twoTo_le (by omega)
    have hquotient : units / twoTo s < twoTo 53 := by
      rw [Nat.div_lt_iff_lt_mul hpos, ← twoTo_add]
      exact hlt
    have hbelow := divNearest_le units (twoTo s)
    have hcode : s * twoTo 52 ≤ 2044 * twoTo 52 := Nat.mul_le_mul_right _ (by omega)
    have hone := twoTo_pos 52
    omega
  · have hround := even_le_divNearest (a := units) (m := twoTo 53) hpos (by decide)
    omega
  · have hunits : twoTo 2098 ≤ twoTo (52 + s) := twoTo_le (by omega)
    have hleast := hle (by omega)
    have hquotient : twoTo 52 ≤ units / twoTo s := by
      rw [Nat.le_div_iff_mul_le hpos, ← twoTo_add]
      exact hleast
    have habove := le_divNearest units (twoTo s)
    have hcode : 2046 * twoTo 52 ≤ s * twoTo 52 := Nat.mul_le_mul_right _ (by omega)
    have hlast : twoTo 2098 = 2 * twoTo 2097 := by decide +kernel
    omega

theorem ofInt_eq (n : Int) : ∃ negative, ofInt n = ofRatio negative n.natAbs 1 := by
  cases n with
  | ofNat n => exact ⟨false, rfl⟩
  | negSucc n => exact ⟨true, rfl⟩

theorem ofCode_eq_inf_iff (negative : Bool) (code : Nat) :
    (∃ b, ofCode negative code = .inf b) ↔ codeLimit ≤ code := by
  unfold ofCode
  split
  · next h => simpa using h
  · next h => simpa using h

/-- A whole number is too large for a float exactly from the ceiling on. -/
theorem ofInt?_eq_none_iff (n : Int) : ofInt? n = none ↔ ceiling ≤ n.natAbs := by
  have hinf : ofInt? n = none ↔ ∃ b, ofInt n = .inf b := by
    unfold ofInt?
    cases ofInt n <;> simp
  obtain ⟨negative, hn⟩ := ofInt_eq n
  rw [hinf, hn, ofRatio, ofCode_eq_inf_iff, Nat.one_mul, codeLimit_le_iff]
  exact Nat.mul_le_mul_right_iff unit_pos

end Binary64

namespace Condition

/-- A condition has a truth value unless it compares by order a variable that is a whole number from
the ceiling on; then there is none. -/
theorem truth_eq_error_iff (expression : Option String) (rs : Store) (o : Overflow) :
    truth expression rs = .error o ↔ ∃ c, expression.bind parse? = some c ∧
      c.comparison ≠ .eq ∧ c.comparison ≠ .ne ∧ rs.lookup c.name = .whole o.number ∧
      Binary64.ceiling ≤ o.number.natAbs := by
  cases expression with
  | none => simp [truth, pure, Except.pure]
  | some e =>
    rw [truth, Option.bind_some, holds]
    cases parse? e with
    | none => simp [pure, Except.pure]
    | some c => simp [eval, compareWith_eq_error_iff, Binary64.ofInt?_eq_none_iff]

/-- A comparison by order with a number of 401 digits has no truth value. -/
theorem truth_overflows :
    ¬∀ (expression : Option String) (rs : Store), ∃ b, truth expression rs = .ok b := by
  intro h
  have hfails : (truth (some "level > 3") [(.text "level", .whole (tenTo 400))]).toBool = false := by
    decide +kernel
  obtain ⟨b, hb⟩ := h (some "level > 3") [(.text "level", .whole (tenTo 400))]
  simp [hb, Except.toBool] at hfails

end Condition
end Runbook
