import Mathlib.Tactic.Ring
import Runbook.Number.Shortest

/-! Rounding a decimal to a float depends on its value alone, however that is split into digits and
an exponent. So the decimal that is written for a float reads back as the same float. -/
namespace Runbook.Binary64

theorem twoTo_pos (n : Nat) : 0 < twoTo n := Nat.two_pow_pos n

theorem tenTo_pos (n : Nat) : 0 < tenTo n := Nat.pow_pos (by omega)

theorem one_lt_tenTo {n : Nat} (hn : n ≠ 0) : 1 < tenTo n := Nat.one_lt_pow hn (by omega)

theorem twoTo_add (m n : Nat) : twoTo (m + n) = twoTo m * twoTo n := Nat.pow_add 2 m n

theorem tenTo_add (m n : Nat) : tenTo (m + n) = tenTo m * tenTo n := Nat.pow_add 10 m n

theorem tenTo_succ (n : Nat) : tenTo (n + 1) = 10 * tenTo n := Nat.pow_succ'

theorem twoTo_le {m n : Nat} (h : m ≤ n) : twoTo m ≤ twoTo n := Nat.pow_le_pow_right (by omega) h

def fiveTo (n : Nat) : Nat := Nat.pow 5 n

theorem fiveTo_pos (n : Nat) : 0 < fiveTo n := Nat.pow_pos (by omega)

theorem tenTo_eq (n : Nat) : tenTo n = twoTo n * fiveTo n := Nat.mul_pow 2 5 n

theorem unit_pos : 0 < unit := twoTo_pos 1074

section Doublings
variable {a b a' b' s : Nat}

theorem doublings_lt (hb : 0 < b) : a < twoTo (53 + doublings a b) * b := by
  have ha : a < twoTo (a.log2 + 1) := Nat.lt_log2_self
  have hlog : twoTo b.log2 ≤ b := Nat.log2_self_le (by omega)
  simp only [doublings]
  -- the lengths of both numbers give an estimate that is right or one too many
  split
  · rename_i h
    by_cases hd : a.log2 - b.log2 - 52 = 0
    · have hstep : 53 + (a.log2 - b.log2 - 52 - 1) = 1 + (52 + (a.log2 - b.log2 - 52)) := by omega
      rw [hstep, twoTo_add, Nat.mul_assoc]
      exact Nat.lt_of_lt_of_le h (Nat.le_mul_of_pos_left _ (twoTo_pos 1))
    · have hstep : 53 + (a.log2 - b.log2 - 52 - 1) = 52 + (a.log2 - b.log2 - 52) := by omega
      rw [hstep]
      exact h
  · have hexp : a.log2 + 1 ≤ 53 + (a.log2 - b.log2 - 52) + b.log2 := by omega
    calc a < twoTo (a.log2 + 1) := ha
      _ ≤ twoTo (53 + (a.log2 - b.log2 - 52) + b.log2) := twoTo_le hexp
      _ = twoTo (53 + (a.log2 - b.log2 - 52)) * twoTo b.log2 := twoTo_add _ _
      _ ≤ twoTo (53 + (a.log2 - b.log2 - 52)) * b := Nat.mul_le_mul_left _ hlog

theorem doublings_le (hs : doublings a b ≠ 0) : twoTo (52 + doublings a b) * b ≤ a := by
  have hlog : b < twoTo (b.log2 + 1) := Nat.lt_log2_self
  have ha : a ≠ 0 := by
    intro h
    subst h
    simp [doublings] at hs
  have hmost : twoTo a.log2 ≤ a := Nat.log2_self_le ha
  simp only [doublings] at hs ⊢
  split at hs <;> rename_i h
  · rw [if_pos h]
    have hexp : 52 + (a.log2 - b.log2 - 52 - 1) + (b.log2 + 1) = a.log2 := by omega
    calc twoTo (52 + (a.log2 - b.log2 - 52 - 1)) * b
        ≤ twoTo (52 + (a.log2 - b.log2 - 52 - 1)) * twoTo (b.log2 + 1) :=
          Nat.mul_le_mul_left _ (Nat.le_of_lt hlog)
      _ = twoTo (52 + (a.log2 - b.log2 - 52 - 1) + (b.log2 + 1)) := (twoTo_add _ _).symm
      _ = twoTo a.log2 := by rw [hexp]
      _ ≤ a := hmost
  · rw [if_neg h]
    omega

theorem doublings_eq (hb : 0 < b) (hlt : a < twoTo (53 + s) * b)
    (hle : s = 0 ∨ twoTo (52 + s) * b ≤ a) : doublings a b = s := by
  have hlt' := doublings_lt (a := a) hb
  have hpow : ∀ m n : Nat, m < n → twoTo (53 + m) * b ≤ twoTo (52 + n) * b := fun m n h =>
    Nat.mul_le_mul_right b (twoTo_le (by omega))
  obtain h | h | h := Nat.lt_trichotomy (doublings a b) s
  · have hle := hle.resolve_left (by omega)
    have := hpow _ _ h
    omega
  · exact h
  · have hle' := doublings_le (a := a) (b := b) (by omega)
    have := hpow _ _ h
    omega

theorem doublings_congr (hb : 0 < b) (hb' : 0 < b') (h : a * b' = a' * b) :
    doublings a b = doublings a' b' := by
  have hlt : a < twoTo (53 + doublings a' b') * b := by
    refine Nat.lt_of_mul_lt_mul_right (a := b') ?_
    calc a * b' = a' * b := h
      _ < twoTo (53 + doublings a' b') * b' * b :=
        Nat.mul_lt_mul_of_pos_right (doublings_lt hb') hb
      _ = twoTo (53 + doublings a' b') * b * b' := Nat.mul_right_comm _ _ _
  refine doublings_eq hb hlt ?_
  by_cases hs : doublings a' b' = 0
  · exact .inl hs
  · right
    refine Nat.le_of_mul_le_mul_right ?_ hb'
    calc twoTo (52 + doublings a' b') * b * b'
        = twoTo (52 + doublings a' b') * b' * b := Nat.mul_right_comm _ _ _
      _ ≤ a' * b := Nat.mul_le_mul_right b (doublings_le hs)
      _ = a * b' := h.symm

theorem divNearest_mul_right {k : Nat} (hk : 0 < k) :
    divNearest (a * k) (b * k) = divNearest a b := by
  have hgt : 2 * (a % b * k) > b * k ↔ 2 * (a % b) > b := by
    rw [← Nat.mul_assoc]
    exact Nat.mul_lt_mul_right hk
  have heq : (2 * (a % b * k) == b * k) = (2 * (a % b) == b) := by
    rw [← Nat.mul_assoc, Bool.eq_iff_iff, beq_iff_eq, beq_iff_eq]
    exact Nat.mul_left_inj (by omega)
  simp only [divNearest, Nat.mul_div_mul_right _ _ hk, Nat.mul_mod_mul_right, hgt, heq]

theorem divNearest_congr (hb : 0 < b) (hb' : 0 < b') (h : a * b' = a' * b) :
    divNearest a b = divNearest a' b' := by
  rw [← divNearest_mul_right hb', h, Nat.mul_comm b b', divNearest_mul_right hb]

/-- Rounding sees no more of a quotient than its value. -/
theorem ofRatio_congr (negative : Bool) (hb : 0 < b) (hb' : 0 < b') (h : a * b' = a' * b) :
    ofRatio negative a b = ofRatio negative a' b' := by
  have hunit : a * unit * b' = a' * unit * b := by
    rw [Nat.mul_right_comm, h, Nat.mul_right_comm]
  have hs := doublings_congr hb hb' hunit
  have hq : divNearest (a * unit) (b * twoTo (doublings (a' * unit) b')) =
      divNearest (a' * unit) (b' * twoTo (doublings (a' * unit) b')) := by
    apply divNearest_congr (Nat.mul_pos hb (twoTo_pos _)) (Nat.mul_pos hb' (twoTo_pos _))
    rw [← Nat.mul_assoc, hunit, Nat.mul_assoc]
  simp only [ofRatio, hs, hq]

end Doublings

theorem divNearest_one (a : Nat) : divNearest a 1 = a := by
  simp [divNearest, Nat.mod_one]

theorem divNearest_twoTo (a s : Nat) : divNearest (a * twoTo s) (twoTo s) = a := by
  have h := divNearest_mul_right (a := a) (b := 1) (twoTo_pos s)
  rw [Nat.one_mul] at h
  rw [h, divNearest_one]

theorem unitsOf_eq {code : Nat} (h : ¬code < twoTo 52) :
    ∃ s m, m < twoTo 52 ∧ code = s * twoTo 52 + (twoTo 52 + m) ∧
      unitsOf code = (twoTo 52 + m) * twoTo s := by
  have hdiv := Nat.div_add_mod code (twoTo 52)
  have hpos : 0 < code / twoTo 52 := Nat.div_pos (by omega) (twoTo_pos 52)
  obtain ⟨s, hs⟩ : ∃ s, code / twoTo 52 = s + 1 := ⟨code / twoTo 52 - 1, by omega⟩
  refine ⟨s, code % twoTo 52, Nat.mod_lt _ (twoTo_pos 52), ?_, ?_⟩
  · rw [hs, Nat.mul_succ, Nat.mul_comm] at hdiv
    omega
  · rw [unitsOf, if_neg h, hs, Nat.add_sub_cancel]

theorem code_unitsOf (code : Nat) :
    doublings (unitsOf code) 1 * twoTo 52 +
      divNearest (unitsOf code) (twoTo (doublings (unitsOf code) 1)) = code := by
  have hstretch : twoTo 53 = 2 * twoTo 52 := Nat.pow_succ'
  by_cases h : code < twoTo 52
  · have hunits : unitsOf code = code := if_pos h
    have hs : doublings code 1 = 0 :=
      doublings_eq Nat.one_pos (by simp only [Nat.add_zero]; omega) (.inl rfl)
    rw [hunits, hs, Nat.zero_mul, Nat.zero_add]
    exact divNearest_one code
  · obtain ⟨s, m, hm, hcode, hunits⟩ := unitsOf_eq h
    have hs : doublings ((twoTo 52 + m) * twoTo s) 1 = s := by
      refine doublings_eq Nat.one_pos ?_ (.inr ?_)
      · rw [Nat.mul_one, twoTo_add]
        exact Nat.mul_lt_mul_of_pos_right (by omega) (twoTo_pos s)
      · rw [Nat.mul_one, twoTo_add]
        exact Nat.mul_le_mul_right _ (Nat.le_add_right _ _)
    rw [hunits, hs, divNearest_twoTo, ← hcode]

theorem ofRatio_unitsOf (negative : Bool) (code : Nat) {k : Nat} (hk : 0 < k) :
    ofRatio negative (unitsOf code * k) (unit * k) = ofCode negative code := by
  have hcongr : ofRatio negative (unitsOf code * k) (unit * k) =
      ofRatio negative (unitsOf code) unit :=
    ofRatio_congr negative (Nat.mul_pos unit_pos hk) unit_pos (by ring)
  have hs : doublings (unitsOf code * unit) unit = doublings (unitsOf code) 1 :=
    doublings_congr unit_pos Nat.one_pos (by ring)
  have hq : ∀ s, divNearest (unitsOf code * unit) (unit * twoTo s) =
      divNearest (unitsOf code) (twoTo s) := fun s => by
    rw [Nat.mul_comm unit, divNearest_mul_right unit_pos]
  rw [hcongr, ofRatio, hs, hq, code_unitsOf]

def Decimal.top (d : Decimal) : Nat := d.digits * tenTo d.exponent.toNat

def Decimal.bottom (d : Decimal) : Nat := tenTo (-d.exponent).toNat

def Decimal.lead (d : Decimal) : Int := (Nat.toDigits 10 d.digits).length + d.exponent

theorem ofDecimal_eq (d : Decimal) :
    ofDecimal d =
      if d.digits = 0 ∨ d.lead < -400 then .finite d.negative ⟨0, by decide⟩
      else if d.lead > 400 then .inf d.negative
      else ofRatio d.negative d.top d.bottom := by
  have hlead : ((Nat.toDigits 10 d.digits).length : Int) + d.exponent = d.lead := rfl
  simp only [ofDecimal, hlead, Bool.or_eq_true, decide_eq_true_eq]
  split
  · rfl
  · split
    · rfl
    · split
      · rename_i h
        have hzero : (-d.exponent).toNat = 0 := by omega
        rw [Decimal.top, Decimal.bottom, hzero]
        rfl
      · rename_i h
        have hzero : d.exponent.toNat = 0 := by omega
        rw [Decimal.top, Decimal.bottom, hzero]
        exact congrArg (ofRatio d.negative · _) (Nat.mul_one _).symm

theorem ofDecimal_zero (negative : Bool) (e : Int) :
    ofDecimal ⟨negative, 0, e⟩ = .finite negative ⟨0, by decide⟩ := by
  simp [ofDecimal]

theorem length_toDigits_mul_tenTo {n : Nat} (hn : n ≠ 0) (k : Nat) :
    (Nat.toDigits 10 (n * tenTo k)).length = (Nat.toDigits 10 n).length + k := by
  induction k with
  | zero => rw [tenTo, Nat.pow_eq, Nat.pow_zero, Nat.mul_one, Nat.add_zero]
  | succ k ih =>
    have hpos : 0 < n * tenTo k := Nat.mul_pos (by omega) (tenTo_pos k)
    have hdigits := Nat.toDigits_append_toDigits (by omega : 1 < 10) hpos (by omega : 0 < 10)
    have hten : n * tenTo (k + 1) = 10 * (n * tenTo k) + 0 := by rw [tenTo_succ]; ring
    rw [hten, ← hdigits, List.length_append, ih]
    rfl

theorem ofDecimal_mul_tenTo (negative : Bool) (n k : Nat) (e : Int) :
    ofDecimal ⟨negative, n * tenTo k, e⟩ = ofDecimal ⟨negative, n, e + k⟩ := by
  by_cases hn : n = 0
  · rw [hn, Nat.zero_mul, ofDecimal_zero, ofDecimal_zero]
  · have hlead : (⟨negative, n * tenTo k, e⟩ : Decimal).lead =
        (⟨negative, n, e + k⟩ : Decimal).lead := by
      simp only [Decimal.lead, length_toDigits_mul_tenTo hn]
      omega
    have hne : n * tenTo k ≠ 0 := Nat.mul_ne_zero hn (by have := tenTo_pos k; omega)
    have hratio : ofRatio negative (⟨negative, n * tenTo k, e⟩ : Decimal).top
          (⟨negative, n * tenTo k, e⟩ : Decimal).bottom =
        ofRatio negative (⟨negative, n, e + k⟩ : Decimal).top
          (⟨negative, n, e + k⟩ : Decimal).bottom := by
      refine ofRatio_congr negative (tenTo_pos _) (tenTo_pos _) ?_
      simp only [Decimal.top, Decimal.bottom]
      have hexp : k + e.toNat + (-(e + k)).toNat = (e + k).toNat + (-e).toNat := by omega
      calc n * tenTo k * tenTo e.toNat * tenTo (-(e + k)).toNat
          = n * tenTo (k + e.toNat + (-(e + k)).toNat) := by rw [tenTo_add, tenTo_add]; ring
        _ = n * tenTo (e + k).toNat * tenTo (-e).toNat := by rw [hexp, tenTo_add]; ring
    simp only [ofDecimal_eq, hlead, hn, hne, hratio]

theorem unitsOf_pos {code : Nat} (h : 0 < code) : 0 < unitsOf code := by
  by_cases hc : code < twoTo 52
  · simpa [unitsOf, hc] using h
  · obtain ⟨s, m, -, -, hunits⟩ := unitsOf_eq hc
    rw [hunits]
    exact Nat.mul_pos (Nat.add_pos_left (twoTo_pos 52) m) (twoTo_pos s)

theorem unitsOf_lt {code : Nat} (h : code < codeLimit) : unitsOf code < twoTo 2098 := by
  have hstretch : twoTo 53 = 2 * twoTo 52 := Nat.pow_succ'
  by_cases hc : code < twoTo 52
  · have hunits : unitsOf code = code := if_pos hc
    rw [hunits]
    exact Nat.lt_of_lt_of_le hc (twoTo_le (by omega))
  · obtain ⟨s, m, hm, hcode, hunits⟩ := unitsOf_eq hc
    have hs : s ≤ 2045 := by
      have hlimit : codeLimit = 2047 * twoTo 52 := rfl
      have hpos := twoTo_pos 52
      refine Nat.le_of_lt_succ (Nat.lt_of_mul_lt_mul_right (a := twoTo 52) ?_)
      omega
    rw [hunits]
    calc (twoTo 52 + m) * twoTo s < twoTo 53 * twoTo s :=
          Nat.mul_lt_mul_of_pos_right (by omega) (twoTo_pos s)
      _ = twoTo (53 + s) := (twoTo_add 53 s).symm
      _ ≤ twoTo 2098 := twoTo_le (by omega)

theorem length_toDigits_le {n k : Nat} (hk : 0 < k) :
    (Nat.toDigits 10 n).length ≤ k ↔ n < tenTo k :=
  Nat.length_toDigits_le_iff (by omega) hk

theorem length_toDigits_unitsOf {code : Nat} (hpos : 0 < code) (hlt : code < codeLimit) :
    673 < (Nat.toDigits 10 (unitsOf code * fiveTo 1074)).length ∧
      (Nat.toDigits 10 (unitsOf code * fiveTo 1074)).length ≤ 1474 := by
  have hleast : tenTo 673 ≤ fiveTo 1074 := by decide +kernel
  have hmost : twoTo 2098 * fiveTo 1074 < tenTo 1474 := by decide +kernel
  have hlow : ¬(Nat.toDigits 10 (unitsOf code * fiveTo 1074)).length ≤ 673 := by
    rw [length_toDigits_le (by omega)]
    have hone := Nat.le_mul_of_pos_left (fiveTo 1074) (unitsOf_pos hpos)
    omega
  have hhigh : (Nat.toDigits 10 (unitsOf code * fiveTo 1074)).length ≤ 1474 := by
    rw [length_toDigits_le (by omega)]
    exact Nat.lt_of_le_of_lt (Nat.mul_le_mul_right _ (Nat.le_of_lt (unitsOf_lt hlt))) hmost
  exact ⟨by omega, hhigh⟩

theorem ofDecimal_unitsOf {code k : Nat} (hpos : 0 < code)
    (hlow : (k : Int) - 400 ≤ (Nat.toDigits 10 (unitsOf code * fiveTo k)).length)
    (hhigh : ((Nat.toDigits 10 (unitsOf code * fiveTo k)).length : Int) ≤ k + 400) :
    ofDecimal ⟨false, unitsOf code * fiveTo k, -(k : Int)⟩ =
      ofRatio false (unitsOf code * fiveTo k) (twoTo k * fiveTo k) := by
  have hdigits : unitsOf code * fiveTo k ≠ 0 :=
    Nat.mul_ne_zero (Nat.ne_of_gt (unitsOf_pos hpos)) (Nat.ne_of_gt (fiveTo_pos k))
  have htop : (-(k : Int)).toNat = 0 := by omega
  have hbottom : (- -(k : Int)).toNat = k := by omega
  rw [ofDecimal_eq]
  simp only [Decimal.lead, Decimal.top, Decimal.bottom, hdigits, htop, hbottom, false_or]
  rw [if_neg (by omega), if_neg (by omega), tenTo_eq k, tenTo, Nat.pow_eq, Nat.pow_zero,
    Nat.mul_one]

theorem ofDecimal_exact {code : Nat} (hpos : 0 < code) (hlt : code < codeLimit) :
    ofDecimal (exactDecimal code) = ofCode false code := by
  obtain ⟨hlow, hhigh⟩ := length_toDigits_unitsOf hpos hlt
  have hround := ofDecimal_unitsOf hpos (k := 1074) (by omega) (by omega)
  have hunit : twoTo 1074 = unit := rfl
  have hexact : exactDecimal code =
      ⟨false, unitsOf code * fiveTo 1074, -((1074 : Nat) : Int)⟩ := rfl
  rw [hexact, hround, hunit, ofRatio_unitsOf false code (fiveTo_pos 1074)]

theorem candidate?_eq_some {code width n : Nat} {exact d : Decimal}
    (h : candidate? code exact width n = some d) :
    d.negative = false ∧ ofDecimal d = ofCode false code := by
  have hread : d.negative = false ∧ readsBack code d = true := by
    simp only [candidate?] at h
    split at h <;> rename_i hdown hup
    · split at h <;> cases h
      · exact ⟨rfl, hdown⟩
      · exact ⟨rfl, hup⟩
    · cases h; exact ⟨rfl, hdown⟩
    · cases h; exact ⟨rfl, hup⟩
    · cases h
  exact ⟨hread.1, by simpa [readsBack] using hread.2⟩

theorem shortest_spec {code : Nat} (hpos : 0 < code) (hlt : code < codeLimit) :
    (shortest code).negative = false ∧ ofDecimal (shortest code) = ofCode false code := by
  simp only [shortest]
  generalize (Nat.toDigits 10 (exactDecimal code).digits).length = width
  cases hd : (List.range' 1 17).findSome? (candidate? code (exactDecimal code) width) with
  | none => exact ⟨rfl, ofDecimal_exact hpos hlt⟩
  | some d =>
    obtain ⟨n, -, hn⟩ := List.exists_of_findSome?_eq_some hd
    exact candidate?_eq_some hn

theorem ofCode_negative {code : Nat} {c : Fin codeLimit} (negative : Bool)
    (h : ofCode false code = .finite false c) : ofCode negative code = .finite negative c := by
  simp only [ofCode] at h ⊢
  split at h
  · rename_i hcode
    cases h
    exact dif_pos hcode
  · cases h

theorem ofDecimal_negative {n : Nat} {e : Int} {c : Fin codeLimit} (negative : Bool)
    (h : ofDecimal ⟨false, n, e⟩ = .finite false c) :
    ofDecimal ⟨negative, n, e⟩ = .finite negative c := by
  have hlead : (⟨negative, n, e⟩ : Decimal).lead = (⟨false, n, e⟩ : Decimal).lead := rfl
  rw [ofDecimal_eq] at h ⊢
  rw [hlead]
  split at h
  · rename_i hzero
    cases h
    exact if_pos hzero
  · rename_i hzero
    rw [if_neg hzero]
    split at h
    · cases h
    · rename_i hmost
      rw [if_neg hmost]
      exact ofCode_negative negative h

/-- The decimal that is chosen for a magnitude reads back as it, with either sign. -/
theorem ofDecimal_shortest (negative : Bool) {c : Fin codeLimit} (hc : c.val ≠ 0) :
    ofDecimal ⟨negative, (shortest c).digits, (shortest c).exponent⟩ = .finite negative c := by
  obtain ⟨hsign, hread⟩ := shortest_spec (Nat.pos_of_ne_zero hc) c.isLt
  generalize shortest c = d at hsign hread
  obtain ⟨_, n, e⟩ := d
  cases hsign
  rw [ofCode, dif_pos c.isLt] at hread
  exact ofDecimal_negative negative hread

theorem digits_shortest {c : Fin codeLimit} (hc : c.val ≠ 0) : (shortest c).digits ≠ 0 := by
  have hread := ofDecimal_shortest false hc
  intro hzero
  rw [hzero, ofDecimal_zero, Binary64.finite.injEq] at hread
  exact hc (by rw [← hread.2])

end Runbook.Binary64
