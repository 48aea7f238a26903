import Runbook.Json.Figure
import Runbook.Json.Print
import Runbook.Proofs.DecimalRounding

/-! Numbers as they are written in JSON: the parts of a literal, what the machine for numbers makes of
them, and the literals that floats and whole numbers are written as. -/
namespace Runbook

namespace Numeral
open Runbook.Text

def natOf (ds : List Char) : Nat := Nat.ofDigitChars 10 ds 0

/-- A row of digits, and of nothing else. -/
def AreDigits (ds : List Char) : Prop := ∀ c ∈ ds, c.isDigit = true

theorem AreDigits.append {ds es : List Char} (hd : AreDigits ds) (he : AreDigits es) :
    AreDigits (ds ++ es) := by
  intro c hc
  obtain hc | hc := List.mem_append.1 hc
  · exact hd c hc
  · exact he c hc

theorem AreDigits.sublist {ds es : List Char} (hd : AreDigits ds) (h : es.Sublist ds) :
    AreDigits es := fun c hc => hd c (h.subset hc)

theorem areDigits_toDigits (n : Nat) : AreDigits (Nat.toDigits 10 n) := fun _ hc =>
  Nat.isDigit_of_mem_toDigits (by omega) (by omega) hc

theorem areDigits_zeros (n : Nat) : AreDigits (Binary64.zeros n) := fun c hc => by
  rw [Binary64.zeros, List.mem_replicate] at hc
  rw [hc.2]
  rfl

theorem natOf_toDigits (n : Nat) : natOf (Nat.toDigits 10 n) = n := Nat.ofDigitChars_ten_toDigits

theorem natOf_append (ds es : List Char) :
    natOf (ds ++ es) = natOf ds * tenTo es.length + natOf es := by
  rw [natOf, Nat.ofDigitChars_append, Nat.ofDigitChars_eq_ofDigitChars_zero, Nat.mul_comm]
  rfl

theorem natOf_zeros (n : Nat) : natOf (Binary64.zeros n) = 0 := by
  rw [natOf, Binary64.zeros, Nat.ofDigitChars_replicate_zero, Nat.mul_zero]

theorem natOf_append_zeros (ds : List Char) (n : Nat) :
    natOf (ds ++ Binary64.zeros n) = natOf ds * tenTo n := by
  rw [natOf_append, natOf_zeros, Binary64.zeros, List.length_replicate, Nat.add_zero]

theorem natOf_zeros_append (n : Nat) (ds : List Char) :
    natOf (Binary64.zeros n ++ ds) = natOf ds := by
  rw [natOf_append, natOf_zeros, Nat.zero_mul, Nat.zero_add]

theorem head_toDigits {n : Nat} (hn : n ≠ 0) :
    ∃ c rest, Nat.toDigits 10 n = c :: rest ∧ c ≠ '0' := by
  induction n using Nat.strongRecOn with
  | ind n ih =>
    by_cases hlt : n < 10
    · refine ⟨n.digitChar, [], Nat.toDigits_of_lt_base hlt, fun h => ?_⟩
      have hvalue := Nat.toNat_digitChar_of_lt_ten hlt
      rw [h] at hvalue
      exact hn (by simpa using hvalue)
    · obtain ⟨c, rest, hdigits, hc⟩ := ih (n / 10) (by omega) (by omega)
      rw [Nat.toDigits_of_base_le (by omega) (by omega), hdigits]
      exact ⟨c, _, List.cons_append, hc⟩

theorem digits_append {ds rest : List Char} (hd : AreDigits ds)
    (hrest : ∀ c ∈ rest.head?, c.isDigit = false) :
    digits latinDigit? (ds ++ rest) = (ds.map (·.toNat - 48), rest) := by
  induction ds with
  | nil =>
    cases rest with
    | nil => rfl
    | cons c rest =>
      have hc : c.isDigit = false := hrest c rfl
      simp [digits, latinDigit?, hc]
  | cons d ds ih =>
    have hfirst : d.isDigit = true := hd d List.mem_cons_self
    have hothers := ih fun c hc => hd c (List.mem_cons_of_mem d hc)
    simp [digits, latinDigit?, hfirst, hothers]

theorem digits_eq {ds : List Char} (hd : AreDigits ds) :
    digits latinDigit? ds = (ds.map (·.toNat - 48), []) := by
  have hnone : ∀ c ∈ ([] : List Char).head?, c.isDigit = false := nofun
  have hread := digits_append hd hnone
  rwa [List.append_nil] at hread

theorem ofDigits_map (ds : List Char) : ofDigits (ds.map (·.toNat - 48)) = natOf ds := by
  rw [ofDigits, List.foldl_map]
  rfl

end Numeral

namespace Json
open Runbook.Numeral Runbook.Text

/-- A number in JSON text, by its parts. No point is written where there is no fraction. -/
structure Literal where
  negative : Bool
  whole : List Char
  fraction : List Char
  power : Option Int

namespace Literal
variable {l : Literal}

def powerChars (l : Literal) : List Char :=
  l.power.elim [] fun e => 'e' :: Binary64.writeExponent floatStyle e

def unsigned (l : Literal) : List Char :=
  l.whole ++ ((if l.fraction.isEmpty then [] else '.' :: l.fraction) ++ l.powerChars)

def chars (l : Literal) : List Char :=
  if l.negative then '-' :: l.unsigned else l.unsigned

/-- The digits are digits, and the whole ones begin with a zero only if that is alone. -/
structure Valid (l : Literal) : Prop where
  whole : AreDigits l.whole
  leading : l.whole = ['0'] ∨ ∃ c rest, l.whole = c :: rest ∧ c ≠ '0'
  fits : l.whole.length ≤ maxDigits
  fraction : AreDigits l.fraction

def decimal (l : Literal) : Binary64.Decimal :=
  ⟨l.negative, natOf (l.whole ++ l.fraction), l.power.getD 0 - l.fraction.length⟩

theorem Valid.head (h : l.Valid) : ∃ c rest, l.whole = c :: rest ∧ c.isDigit = true := by
  obtain hzero | ⟨c, rest, hw, -⟩ := h.leading
  · exact ⟨'0', [], hzero, rfl⟩
  · exact ⟨c, rest, hw, h.whole c (by rw [hw]; exact List.mem_cons_self)⟩

theorem Valid.unsigned_head (h : l.Valid) :
    ∃ c rest, l.unsigned = c :: rest ∧ c.isDigit = true := by
  obtain ⟨c, rest, hw, hc⟩ := h.head
  exact ⟨c, _, by rw [unsigned, hw, List.cons_append], hc⟩

theorem sign_chars (h : l.Valid) : sign l.chars = (l.negative, l.unsigned) := by
  rw [chars]
  cases hn : l.negative with
  | true => rfl
  | false =>
    obtain ⟨c, rest, hw, hc⟩ := h.unsigned_head
    rw [hw]
    have hplus : c ≠ '+' := by rintro rfl; cases hc
    have hminus : c ≠ '-' := by rintro rfl; cases hc
    simp [sign, hplus, hminus]

theorem writeExponent_eq (e : Int) : ∃ ds, AreDigits ds ∧ ds ≠ [] ∧ natOf ds = e.natAbs ∧
    Binary64.writeExponent floatStyle e = (if e < 0 then '-' else '+') :: ds := by
  refine ⟨Binary64.zeros (1 - (Nat.toDigits 10 e.natAbs).length) ++ Nat.toDigits 10 e.natAbs,
    (areDigits_zeros _).append (areDigits_toDigits _),
    List.append_ne_nil_of_right_ne_nil _ Nat.toDigits_ne_nil, ?_, ?_⟩
  · rw [natOf_zeros_append, natOf_toDigits]
  · by_cases he : e < 0 <;> simp [Binary64.writeExponent, floatStyle, he]

theorem exponent?_eq {negative : Bool} {cs ds : List Char} (hs : sign cs = (negative, ds))
    (hd : AreDigits ds) (hne : ds ≠ []) :
    exponent? latinDigit? ('e' :: cs) =
      some (if negative then -(natOf ds : Int) else natOf ds) := by
  have hread := digits_eq hd
  have hvalue := ofDigits_map ds
  obtain ⟨d, ds, rfl⟩ := List.exists_cons_of_ne_nil hne
  simp only [exponent?, hs, hread, List.map_cons] at hvalue ⊢
  rw [hvalue]
  rfl

theorem exponent?_writeExponent (e : Int) :
    exponent? latinDigit? ('e' :: Binary64.writeExponent floatStyle e) = some e := by
  obtain ⟨ds, hd, hne, hn, hw⟩ := writeExponent_eq e
  have hs : sign (Binary64.writeExponent floatStyle e) = (decide (e < 0), ds) := by
    rw [hw]
    by_cases he : e < 0 <;> simp [he, sign]
  have hvalue : (if decide (e < 0) then -(e.natAbs : Int) else e.natAbs) = e := by
    by_cases he : e < 0
    · rw [if_pos (decide_eq_true he)]
      omega
    · rw [if_neg (by simpa using he)]
      omega
  rw [exponent?_eq hs hd hne, hn, hvalue]

theorem exponent?_powerChars (l : Literal) :
    exponent? latinDigit? l.powerChars = some (l.power.getD 0) := by
  cases hp : l.power with
  | none => simp [powerChars, hp, exponent?]
  | some e => simp [powerChars, hp, exponent?_writeExponent]

theorem powerChars_cases (l : Literal) :
    l.powerChars = [] ∨ ∃ rest, l.powerChars = 'e' :: rest := by
  cases hp : l.power with
  | none => exact .inl (by simp [powerChars, hp])
  | some e =>
    exact .inr ⟨Binary64.writeExponent floatStyle e, by simp only [powerChars, hp, Option.elim_some]⟩

theorem decimal?_chars (h : l.Valid) : decimal? latinDigit? l.chars = some l.decimal := by
  obtain ⟨d, ds, hw, -⟩ := h.head
  have hwhole : (l.whole.map (·.toNat - 48)).isEmpty = false := by simp [hw]
  have hpower := exponent?_powerChars l
  have hnone : ∀ c ∈ l.powerChars.head?, c.isDigit = false := by
    obtain hp | ⟨rest, hp⟩ := powerChars_cases l <;> simp [hp]
  cases hf : l.fraction with
  | nil =>
    have hrest : l.unsigned = l.whole ++ l.powerChars := by simp [unsigned, hf]
    have hdigits := digits_append h.whole hnone
    have hs := sign_chars h
    rw [hrest] at hs
    obtain hp | ⟨rest, hp⟩ := powerChars_cases l
    · rw [hp] at hpower
      rw [hp, List.append_nil] at hdigits hs
      simp [decimal?, hs, hdigits, hwhole, hpower, ofDigits_map, decimal, hf]
    · rw [hp] at hpower hdigits hs
      simp [decimal?, hs, hdigits, hwhole, hpower, ofDigits_map, decimal, hf]
  | cons c cs =>
    have hrest : l.unsigned = l.whole ++ '.' :: ((c :: cs) ++ l.powerChars) := by
      simp [unsigned, hf]
    have hfraction := digits_append (hf ▸ h.fraction : AreDigits (c :: cs)) hnone
    have hpoint : ∀ d ∈ ('.' :: ((c :: cs) ++ l.powerChars)).head?, d.isDigit = false := by simp
    have hdigits := digits_append h.whole hpoint
    simp only [decimal?, sign_chars h, hrest, hdigits, hfraction, hwhole, hpower, Bool.false_and,
      Bool.false_eq_true, if_false, Option.map_some, ← List.map_append, ofDigits_map, decimal, hf,
      List.length_map]

end Literal

namespace Figure

/-- Takes a character, unless that makes the number too long. -/
def take? (f : Figure) (c : Char) : Option Figure := (f.next? c).filter fun f' => !f'.tooLong

def after? (f : Figure) (cs : List Char) : Option Figure := cs.foldlM take? f

/-- What the machine makes of the characters of a number, from the first one on. -/
def ofChars? : List Char → Option Figure
  | [] => none
  | c :: cs => (begin? c).bind fun f => f.after? cs

/-- The characters are a complete number, which stands for a value. -/
def Stands (cs : List Char) (v : Value) : Prop :=
  ∃ f, ofChars? cs = some f ∧ f.isComplete = true ∧ f.value cs = v

/-- Only the digits of a whole number have been taken. -/
def IsWhole (f : Figure) : Prop := f = .zero ∨ ∃ n, f = .whole n

theorem after?_nil (f : Figure) : f.after? [] = some f := rfl

theorem after?_cons (f : Figure) (c : Char) (cs : List Char) :
    f.after? (c :: cs) = (f.take? c).bind fun f' => f'.after? cs := rfl

theorem after?_append (f : Figure) (cs ds : List Char) :
    f.after? (cs ++ ds) = (f.after? cs).bind fun f' => f'.after? ds := List.foldlM_append

theorem after?_digits {f : Figure} {ds : List Char}
    (hf : ∀ c : Char, c.isDigit = true → f.take? c = some f) (hd : AreDigits ds) :
    f.after? ds = some f := by
  induction ds with
  | nil => rfl
  | cons d ds ih =>
    rw [after?_cons, hf d (hd d List.mem_cons_self)]
    exact ih fun c hc => hd c (List.mem_cons_of_mem d hc)

theorem fraction_digit {c : Char} (hc : c.isDigit = true) : fraction.take? c = some .fraction := by
  simp [take?, next?, hc, tooLong]

theorem power_digit {c : Char} (hc : c.isDigit = true) : power.take? c = some .power := by
  simp [take?, next?, hc, tooLong]

theorem after?_whole {n : Nat} {ds : List Char} (hd : AreDigits ds)
    (hn : n + ds.length ≤ maxDigits) : (whole n).after? ds = some (.whole (n + ds.length)) := by
  induction ds generalizing n with
  | nil => rfl
  | cons d ds ih =>
    have hfirst : d.isDigit = true := hd d List.mem_cons_self
    have hlength : (d :: ds).length = ds.length + 1 := rfl
    have htake : (whole n).take? d = some (.whole (n + 1)) := by
      have hfit : ¬maxDigits < n + 1 := by omega
      simp [take?, next?, hfirst, tooLong, hfit]
    have hrest := ih (n := n + 1) (fun c hc => hd c (List.mem_cons_of_mem d hc)) (by omega)
    rw [after?_cons, htake]
    simp only [Option.bind_some, hrest, hlength]
    congr 2
    omega

theorem begin?_digit {c : Char} (hc : c.isDigit = true) : begin? c = Figure.minus.take? c := by
  have hminus : c ≠ '-' := by rintro rfl; cases hc
  by_cases hzero : c = '0'
  · subst hzero
    rfl
  · simp [begin?, take?, next?, hc, hminus, hzero, tooLong, maxDigits, Option.filter]

variable {l : Literal}

theorem ofChars?_chars (h : l.Valid) : ofChars? l.chars = Figure.minus.after? l.unsigned := by
  cases hn : l.negative with
  | true =>
    rw [Literal.chars, hn]
    rfl
  | false =>
    obtain ⟨c, rest, hw, hc⟩ := h.unsigned_head
    rw [Literal.chars, hn, if_neg Bool.false_ne_true, hw, after?_cons, ← begin?_digit hc]
    rfl

theorem minus_whole (h : l.Valid) : ∃ f, Figure.minus.after? l.whole = some f ∧ f.IsWhole := by
  obtain hzero | ⟨c, rest, hw, hne⟩ := h.leading
  · exact ⟨.zero, by rw [hzero]; rfl, .inl rfl⟩
  · have hdigits := h.whole
    have hfits := h.fits
    rw [hw] at hdigits hfits ⊢
    have hc : c.isDigit = true := hdigits c List.mem_cons_self
    have htake : Figure.minus.take? c = some (.whole 1) := by
      simp [take?, next?, hc, hne, tooLong, maxDigits]
    have hrest := after?_whole (n := 1) (fun d hd => hdigits d (List.mem_cons_of_mem c hd)) (by
      rw [List.length_cons] at hfits
      omega)
    exact ⟨_, by rw [after?_cons, htake, Option.bind_some, hrest], .inr ⟨_, rfl⟩⟩

theorem IsWhole.point {f : Figure} (h : f.IsWhole) : f.take? '.' = some .point := by
  obtain rfl | ⟨n, rfl⟩ := h <;> rfl

theorem IsWhole.letter {f : Figure} (h : f.IsWhole) : f.take? 'e' = some .letter := by
  obtain rfl | ⟨n, rfl⟩ := h <;> rfl

theorem letter_writeExponent (e : Int) :
    letter.after? (Binary64.writeExponent floatStyle e) = some .power := by
  obtain ⟨ds, hd, hne, -, hw⟩ := Literal.writeExponent_eq e
  obtain ⟨d, ds, rfl⟩ := List.exists_cons_of_ne_nil hne
  have hsign : letter.take? (if e < 0 then '-' else '+') = some .sign := by
    split <;> rfl
  have hfirst : sign.take? d = some .power := by
    simp [take?, next?, hd d List.mem_cons_self, tooLong]
  rw [hw, after?_cons, hsign, Option.bind_some, after?_cons, hfirst, Option.bind_some]
  exact after?_digits (fun c => power_digit) fun c hc => hd c (List.mem_cons_of_mem d hc)

theorem point_digits {ds : List Char} (hd : AreDigits ds) (hne : ds ≠ []) :
    Figure.point.after? ds = some .fraction := by
  obtain ⟨d, ds, rfl⟩ := List.exists_cons_of_ne_nil hne
  have hfirst : Figure.point.take? d = some .fraction := by
    simp [take?, next?, hd d List.mem_cons_self, tooLong]
  rw [after?_cons, hfirst, Option.bind_some]
  exact after?_digits (fun c => fraction_digit) fun c hc => hd c (List.mem_cons_of_mem d hc)

theorem minus_unsigned (h : l.Valid) : ∃ f, Figure.minus.after? l.unsigned = some f ∧
    (l.fraction = [] ∧ l.power = none → f.IsWhole) ∧
    (l.fraction ≠ [] ∨ l.power ≠ none → f = .fraction ∨ f = .power) := by
  obtain ⟨f, hf, hwhole⟩ := minus_whole h
  rw [Literal.unsigned, after?_append, hf, Option.bind_some, after?_append]
  cases hp : l.power with
  | none =>
    have hpower : l.powerChars = [] := by simp [Literal.powerChars, hp]
    rw [hpower]
    by_cases hfr : l.fraction = []
    · exact ⟨f, by simp [hfr, after?_nil], fun _ => hwhole, fun hne => by simp [hfr] at hne⟩
    · refine ⟨.fraction, ?_, fun hnil => absurd hnil.1 hfr, fun _ => .inl rfl⟩
      simp only [List.isEmpty_iff, hfr, if_false, after?_cons, hwhole.point, Option.bind_some,
        point_digits h.fraction hfr, after?_nil]
  | some e =>
    have hpower : l.powerChars = 'e' :: Binary64.writeExponent floatStyle e := by
      simp only [Literal.powerChars, hp, Option.elim_some]
    rw [hpower]
    refine ⟨.power, ?_, fun hnil => by simp at hnil, fun _ => .inr rfl⟩
    by_cases hfr : l.fraction = []
    · simp only [hfr, List.isEmpty_nil, if_true, after?_cons, hwhole.letter, Option.bind_some,
        letter_writeExponent, after?_nil]
    · have hletter : fraction.take? 'e' = some .letter := rfl
      simp only [List.isEmpty_iff, hfr, if_false, after?_cons, hwhole.point, Option.bind_some,
        point_digits h.fraction hfr, hletter, letter_writeExponent]

theorem stands_whole (h : l.Valid) (hf : l.fraction = []) (hp : l.power = none) :
    Stands l.chars (.whole (if l.negative then -(natOf l.whole : Int) else natOf l.whole)) := by
  obtain ⟨f, hafter, hwhole, -⟩ := minus_unsigned h
  have hunsigned : l.unsigned = l.whole := by simp [Literal.unsigned, Literal.powerChars, hf, hp]
  have hdigits := digits_eq h.whole
  refine ⟨f, (ofChars?_chars h).trans hafter, ?_, ?_⟩
  · obtain rfl | ⟨n, rfl⟩ := hwhole ⟨hf, hp⟩ <;> rfl
  · obtain rfl | ⟨n, rfl⟩ := hwhole ⟨hf, hp⟩ <;>
      simp only [value, Literal.sign_chars h, hunsigned, hdigits, ofDigits_map]

theorem stands_real (h : l.Valid) (hr : l.fraction ≠ [] ∨ l.power ≠ none) :
    Stands l.chars (.real (Binary64.ofDecimal l.decimal)) := by
  obtain ⟨f, hafter, -, hreal⟩ := minus_unsigned h
  refine ⟨f, (ofChars?_chars h).trans hafter, ?_, ?_⟩
  · obtain rfl | rfl := hreal hr <;> rfl
  · obtain rfl | rfl := hreal hr <;>
      simp only [value, Literal.decimal?_chars h, Option.map_some, Option.getD_some]

theorem toList_toString (n : Int) : (toString n).toList =
    if n < 0 then '-' :: Nat.toDigits 10 n.natAbs else Nat.toDigits 10 n.natAbs := by
  cases n with
  | ofNat m =>
    have hsign : ¬Int.ofNat m < 0 := by simp
    have hrepr : toString (Int.ofNat m) = m.repr := rfl
    rw [if_neg hsign, hrepr, Nat.repr_eq_ofList_toDigits, String.toList_ofList]
    rfl
  | negSucc m =>
    have hrepr : toString (Int.negSucc m) = "-" ++ (m + 1).repr := rfl
    rw [if_pos (Int.negSucc_lt_zero m), hrepr, String.toList_append, Nat.repr_eq_ofList_toDigits,
      @String.toList_ofList (Nat.toDigits 10 (m + 1))]
    rfl

/-- A whole number that is not too long reads as itself. -/
theorem stands_toString {n : Int} (hn : n.natAbs < tenTo maxDigits) :
    Stands (toString n).toList (.whole n) := by
  let l : Literal := ⟨decide (n < 0), Nat.toDigits 10 n.natAbs, [], none⟩
  have hvalid : l.Valid := by
    refine ⟨areDigits_toDigits _, ?_, (Binary64.length_toDigits_le (by decide)).2 hn, nofun⟩
    by_cases hzero : n.natAbs = 0
    · exact .inl (by simp [l, hzero])
    · exact .inr (head_toDigits hzero)
  have hchars : l.chars = (toString n).toList := by
    rw [toList_toString]
    simp [l, Literal.chars, Literal.unsigned, Literal.powerChars]
  have hvalue : (if l.negative then -(natOf l.whole : Int) else natOf l.whole) = n := by
    simp only [l, natOf_toDigits, decide_eq_true_eq]
    split <;> omega
  have hstands := stands_whole hvalid rfl rfl
  rwa [hchars, hvalue] at hstands

end Figure

def Literal.ofDigits (negative : Bool) (ds : List Char) (place : Int) : Literal :=
  if -5 < place ∧ place ≤ 16 then
    if place ≤ 0 then ⟨negative, ['0'], Binary64.zeros (-place).toNat ++ ds, none⟩
    else
      ⟨negative, ds.take place.toNat ++ Binary64.zeros (place.toNat - ds.length),
        if ds.length ≤ place.toNat then ['0'] else ds.drop place.toNat, none⟩
  else ⟨negative, ds.take 1, ds.drop 1, some (place - 1)⟩

namespace Literal

theorem negative_ofDigits (negative : Bool) (ds : List Char) (place : Int) :
    (ofDigits negative ds place).negative = negative := by
  unfold ofDigits
  split
  · split <;> rfl
  · rfl

theorem unsigned_ofDigits (negative : Bool) {ds : List Char} (hne : ds ≠ []) (place : Int) :
    (ofDigits negative ds place).unsigned = Binary64.writeDigits floatStyle ds place := by
  have hstyle : floatStyle.above = -5 ∧ floatStyle.upTo = 16 := ⟨rfl, rfl⟩
  simp only [ofDigits, Binary64.writeDigits, hstyle, Bool.and_eq_true, decide_eq_true_eq]
  by_cases hplain : -5 < place ∧ place ≤ 16
  · rw [if_pos hplain, if_pos hplain]
    by_cases hsmall : place ≤ 0
    · simp [hsmall, unsigned, powerChars, hne]
    · by_cases hshort : ds.length ≤ place.toNat
      · simp [hsmall, hshort, unsigned, powerChars]
      · simp [hsmall, hshort, unsigned, powerChars]
  · rw [if_neg hplain, if_neg hplain]
    obtain ⟨c, rest, rfl⟩ := List.exists_cons_of_ne_nil hne
    cases rest <;> simp [unsigned, powerChars]

theorem valid_ofDigits (negative : Bool) {ds : List Char} (hd : AreDigits ds)
    (hhead : ∃ c rest, ds = c :: rest ∧ c ≠ '0') (place : Int) :
    (ofDigits negative ds place).Valid := by
  obtain ⟨c, rest, hds, hc⟩ := hhead
  have hzero : AreDigits ['0'] := areDigits_zeros 1
  unfold ofDigits
  split
  · rename_i hplain
    split
    · exact ⟨hzero, .inl rfl, Nat.le_of_ble_eq_true rfl, (areDigits_zeros _).append hd⟩
    · rename_i hlarge
      obtain ⟨n, hn⟩ : ∃ n, place.toNat = n + 1 := ⟨place.toNat - 1, by omega⟩
      refine ⟨(hd.sublist (List.take_sublist _ _)).append (areDigits_zeros _), .inr ?_, ?_, ?_⟩
      · exact ⟨c, rest.take n ++ Binary64.zeros (place.toNat - ds.length),
          by rw [hds, hn, List.take_succ_cons, List.cons_append], hc⟩
      · simp [Binary64.zeros, maxDigits]
        omega
      · split
        · exact hzero
        · exact hd.sublist (List.drop_sublist _ _)
  · refine ⟨hd.sublist (List.take_sublist _ _), .inr ⟨c, [], by simp [hds], hc⟩, ?_,
      hd.sublist (List.drop_sublist _ _)⟩
    simp [maxDigits]

theorem real_ofDigits (negative : Bool) {ds : List Char} (hne : ds ≠ []) (place : Int) :
    (ofDigits negative ds place).fraction ≠ [] ∨ (ofDigits negative ds place).power ≠ none := by
  unfold ofDigits
  split
  · left
    split
    · exact List.append_ne_nil_of_right_ne_nil _ hne
    · split
      · exact List.cons_ne_nil _ _
      · rename_i hlong
        exact fun h => hlong (List.drop_eq_nil_iff.1 h)
  · exact .inr nofun

theorem ofDecimal_ofDigits (negative : Bool) {ds : List Char} (hne : ds ≠ []) (place : Int) :
    Binary64.ofDecimal (ofDigits negative ds place).decimal =
      Binary64.ofDecimal ⟨negative, natOf ds, place - ds.length⟩ := by
  unfold ofDigits
  split
  · rename_i hplain
    split
    · rename_i hsmall
      have hexp : (0 : Int) - ((Binary64.zeros (-place).toNat ++ ds).length : Int) =
          place - ds.length := by
        simp [Binary64.zeros]
        omega
      have hvalue : natOf (['0'] ++ (Binary64.zeros (-place).toNat ++ ds)) = natOf ds := by
        rw [← List.append_assoc]
        exact natOf_zeros_append ((-place).toNat + 1) ds
      simp only [decimal, hvalue, Option.getD_none, hexp]
    · rename_i hlarge
      split
      · rename_i hshort
        have hdigits : ds.take place.toNat ++ Binary64.zeros (place.toNat - ds.length) ++ ['0'] =
            ds ++ Binary64.zeros (place.toNat - ds.length + 1) := by
          rw [List.take_of_length_le hshort, List.append_assoc, Binary64.zeros, Binary64.zeros,
            List.replicate_succ']
        have hexp : ((0 : Int) - (['0'].length : Int)) + (place.toNat - ds.length + 1 : Nat) =
            place - ds.length := by
          simp only [List.length_singleton]
          omega
        simp only [decimal, hdigits, natOf_append_zeros, Option.getD_none]
        rw [Binary64.ofDecimal_mul_tenTo, hexp]
      · rename_i hlong
        have hzeros : place.toNat - ds.length = 0 := by omega
        have hexp : (0 : Int) - ((ds.drop place.toNat).length : Int) = place - ds.length := by
          rw [List.length_drop]
          omega
        simp only [decimal, hzeros, Binary64.zeros, List.replicate_zero, List.append_nil,
          List.take_append_drop, Option.getD_none, hexp]
  · have hlength : 0 < ds.length := List.length_pos_iff.2 hne
    have hexp : place - 1 - ((ds.drop 1).length : Int) = place - ds.length := by
      rw [List.length_drop]
      omega
    simp only [decimal, List.take_append_drop, Option.getD_some, hexp]

end Literal

namespace Figure
open Binary64

theorem dropTrailingZeros_append (cs : List Char) :
    ∃ n, cs = dropTrailingZeros cs ++ zeros n := by
  refine ⟨(cs.reverse.takeWhile (· == '0')).length, ?_⟩
  have hzeros : cs.reverse.takeWhile (· == '0') =
      zeros (cs.reverse.takeWhile (· == '0')).length := by
    refine List.eq_replicate_iff.2 ⟨rfl, fun c hc => ?_⟩
    have hzero := List.all_eq_true.1 List.all_takeWhile c hc
    simpa using hzero
  have hsplit := congrArg List.reverse
    (@List.takeWhile_append_dropWhile _ (· == '0') cs.reverse)
  rw [List.reverse_reverse, List.reverse_append] at hsplit
  rw [hzeros, zeros, List.reverse_replicate] at hsplit
  exact hsplit.symm

theorem digits_of_shortest {c : Fin codeLimit} (hc : c.val ≠ 0) :
    ∃ ds n, dropTrailingZeros (Nat.toDigits 10 (shortest c).digits) = ds ∧ AreDigits ds ∧
      (∃ d rest, ds = d :: rest ∧ d ≠ '0') ∧
      (Nat.toDigits 10 (shortest c).digits).length = ds.length + n ∧
      (shortest c).digits = natOf ds * tenTo n := by
  obtain ⟨n, hn⟩ := dropTrailingZeros_append (Nat.toDigits 10 (shortest c).digits)
  obtain ⟨d, rest, hhead, hd⟩ := head_toDigits (digits_shortest hc)
  have hall := areDigits_toDigits (shortest c).digits
  have hvalue := natOf_toDigits (shortest c).digits
  generalize dropTrailingZeros (Nat.toDigits 10 (shortest c).digits) = ds at hn
  refine ⟨ds, n, rfl, ?_, ?_, ?_, ?_⟩
  · exact (hn ▸ hall).sublist (List.sublist_append_left _ _)
  · cases ds with
    | nil =>
      -- All zeros would be no number, but the first digit is none.
      rw [hhead, List.nil_append] at hn
      have hmem : d ∈ zeros n := hn ▸ List.mem_cons_self
      exact absurd (List.mem_replicate.1 hmem).2 hd
    | cons e es =>
      rw [hhead] at hn
      cases hn
      exact ⟨_, _, rfl, hd⟩
  · rw [hn, List.length_append, zeros, List.length_replicate]
  · rw [← hvalue, hn, natOf_append_zeros]

/-- A finite float reads as itself, the two zeros included. -/
theorem stands_write {x : Binary64} (hx : x.isFinite = true) :
    Stands (x.write floatStyle).toList (.real x) := by
  obtain _ | _ | ⟨negative, c⟩ := x
  · cases hx
  · cases hx
  · rw [write, String.toList_ofList]
    by_cases hc : c.val = 0
    · let l : Literal := ⟨negative, ['0'], ['0'], none⟩
      have hvalid : l.Valid :=
        ⟨areDigits_zeros 1, .inl rfl, Nat.le_of_ble_eq_true rfl, areDigits_zeros 1⟩
      have hvalue : ofDecimal l.decimal = .finite negative c := by
        have hzero : l.decimal = ⟨negative, 0, -1⟩ := rfl
        rw [hzero, ofDecimal_zero]
        exact congrArg _ (Fin.ext hc.symm)
      have hstands := stands_real hvalid (.inl (List.cons_ne_nil _ _))
      rw [hvalue] at hstands
      rw [if_pos hc]
      exact hstands
    · obtain ⟨ds, n, hds, hdigits, hhead, hlength, hvalue⟩ := digits_of_shortest hc
      have hne : ds ≠ [] := by
        obtain ⟨d, rest, rfl, -⟩ := hhead
        exact List.cons_ne_nil _ _
      have hread := ofDecimal_shortest negative hc
      have hexp : (ds.length + n : Nat) + (shortest c).exponent - ds.length =
          (shortest c).exponent + n := by omega
      have hstands := stands_real (Literal.valid_ofDigits negative hdigits hhead
        ((ds.length + n : Nat) + (shortest c).exponent)) (Literal.real_ofDigits negative hne _)
      rw [Literal.ofDecimal_ofDigits negative hne, hexp, ← ofDecimal_mul_tenTo, ← hvalue, hread,
        Literal.chars, Literal.negative_ofDigits, Literal.unsigned_ofDigits negative hne] at hstands
      rw [if_neg hc]
      simp only [hds, hlength]
      exact hstands

end Figure
end Json
end Runbook
