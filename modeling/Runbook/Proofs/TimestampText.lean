import Runbook.Proofs.JsonNumbers
import Runbook.Timestamp

/-! Timestamps as text. What is written of a date, a time of day and a zone is read back as it was,
to the microsecond, so a clock can show nothing that a saved trail would lose. -/
namespace Runbook

namespace Date
open Numeral Timestamp

theorem number_append (flaw : Flaw) {ds : List Char} (hd : AreDigits ds) (read : Nat)
    (rest : List Char) :
    number flaw read ds.length (ds ++ rest) = .ok (Nat.ofDigitChars 10 ds read, rest) := by
  induction ds generalizing read with
  | nil => rfl
  | cons c ds ih =>
    have hc : c.isDigit = true := hd c List.mem_cons_self
    have hds : AreDigits ds := fun d h => hd d (List.mem_cons_of_mem c h)
    simp only [List.length_cons, List.cons_append, number, hc, if_true, ih hds]
    rfl

end Date

namespace Timestamp
open Numeral

section Digits
variable {width n : Nat}

theorem areDigits_digits (width n : Nat) : AreDigits (digits width n) :=
  (areDigits_zeros _).append (areDigits_toDigits n)

theorem natOf_digits (width n : Nat) : natOf (digits width n) = n :=
  (natOf_zeros_append _ _).trans (natOf_toDigits n)

theorem length_digits (hw : 0 < width) (h : n < 10 ^ width) : (digits width n).length = width := by
  have hle : (Nat.toDigits 10 n).length ≤ width := (Nat.length_toDigits_le_iff (by decide) hw).2 h
  simp only [digits, List.length_append, List.length_replicate]
  omega

theorem number_digits (flaw : Flaw) (hw : 0 < width) (h : n < 10 ^ width) (rest : List Char) :
    Date.number flaw 0 width (digits width n ++ rest) = .ok (n, rest) := by
  have hread := Date.number_append flaw (areDigits_digits width n) 0 rest
  have hvalue : Nat.ofDigitChars 10 (digits width n) 0 = n := natOf_digits width n
  rwa [length_digits hw h, hvalue] at hread

theorem two?_digits {most : Nat} (h : n ≤ most) (hmost : most < 100) (rest : List Char) :
    two? most (digits 2 n ++ rest) = some (n, rest) := by
  simp [two?, number_digits .excess (by decide : 0 < 2) (by omega : n < 10 ^ 2) rest, h]

theorem fraction?_digits (h : n < million) {rest : List Char}
    (hrest : ∀ c ∈ rest.head?, c.isDigit = false) :
    fraction? (digits 6 n ++ rest) = some (n, rest) := by
  have hlength : (digits 6 n).length = 6 := length_digits (by decide) h
  have hread := digits_append (areDigits_digits 6 n) hrest
  have hvalue := ofDigits_map (digits 6 n)
  rw [natOf_digits] at hvalue
  unfold fraction?
  rw [hread]
  cases hmap : (digits 6 n).map (·.toNat - 48) with
  | nil => simp [← List.length_eq_zero_iff, hlength] at hmap
  | cons d ds =>
    have hsix : (d :: ds).length = 6 := by rw [← hmap, List.length_map, hlength]
    rw [hmap] at hvalue
    simp only [List.take_left' hsix, hvalue]

end Digits

theorem le_utf8ByteSize (cs : List Char) : cs.length ≤ (String.ofList cs).utf8ByteSize := by
  induction cs with
  | nil => exact Nat.zero_le _
  | cons c cs ih =>
    have hc := c.utf8Size_pos
    rw [String.ofList_cons, String.utf8ByteSize_append, String.utf8ByteSize_singleton,
      List.length_cons]
    omega

theorem front_digits {d : Date} (h : d.IsDay) (rest : List Char) :
    Date.front (digits 4 d.year ++ '-' :: (digits 2 d.month ++ '-' :: (digits 2 d.day ++ rest))) =
      .ok (d, rest) := by
  obtain ⟨⟨-, hyear⟩, ⟨hmonth, hmonth'⟩, hday, hday'⟩ := h
  have hmost : Date.daysIn d.year d.month ≤ 31 := by
    unfold Date.daysIn
    repeat' split
    all_goals decide
  have hyears := number_digits .yearDigit (by decide : 0 < 4) (by omega : d.year < 10 ^ 4)
  have hmonths := number_digits .monthDigit (by decide : 0 < 2) (by omega : d.month < 10 ^ 2)
  have hdays := number_digits .dayDigit (by decide : 0 < 2) (by omega : d.day < 10 ^ 2)
  have hsize := le_utf8ByteSize
    (digits 4 d.year ++ '-' :: (digits 2 d.month ++ '-' :: (digits 2 d.day ++ rest)))
  simp only [List.length_append, List.length_cons,
    length_digits (by decide : 0 < 4) (by omega : d.year < 10 ^ 4),
    length_digits (by decide : 0 < 2) (by omega : d.month < 10 ^ 2),
    length_digits (by decide : 0 < 2) (by omega : d.day < 10 ^ 2)] at hsize
  have hshort : ¬(String.ofList (digits 4 d.year ++
      '-' :: (digits 2 d.month ++ '-' :: (digits 2 d.day ++ rest)))).utf8ByteSize < 10 := by omega
  have hmonth_bad : (decide (d.month < 1) || decide (12 < d.month)) = false := by simp; omega
  have hday_bad : (decide (d.day < 1) || decide (Date.daysIn d.year d.month < d.day)) = false := by
    simp; omega
  simp only [Date.front, hshort, if_false, bind, Except.bind, pure, Except.pure, Date.dash, hyears,
    hmonths, hdays, hmonth_bad, hday_bad, Bool.false_eq_true]

/-- A day, a time of day, and a clock that is off universal time by less than a day, if it is known
by how much. -/
structure Sound (t : Timestamp) : Prop where
  date : t.date.IsDay
  second : t.second < 86400
  microsecond : t.microsecond < million
  ahead : ∀ a ∈ t.ahead, a.natAbs < 24 * 60

theorem head_writeZone (ahead : Option Int) :
    ∀ c ∈ (writeZone ahead).head?, c.isDigit = false ∧ c ≠ '.' ∧ c ≠ ',' := by
  cases ahead with
  | none => simp [writeZone]
  | some a =>
    by_cases hzero : a = 0
    · simp [writeZone, hzero]
    · by_cases hneg : a < 0 <;> simp [writeZone, hzero, hneg]

theorem zoneMinutes?_digits {n : Nat} (h : n < 24 * 60) :
    zoneMinutes? (digits 2 (n / 60) ++ ':' :: digits 2 (n % 60)) = some (n : Int) := by
  have hminutes := two?_digits (by omega : n % 60 ≤ 59) (by decide) []
  rw [List.append_nil] at hminutes
  have hsum : 60 * (n / 60) + n % 60 = n := Nat.div_add_mod n 60
  simp only [zoneMinutes?, two?_digits (by omega : n / 60 ≤ 99) (by decide), hminutes, hsum, bind,
    Option.bind, pure, List.isEmpty_nil, h, decide_true, Bool.and_true, if_true]

theorem zone?_writeZone {ahead : Option Int} (h : ∀ a ∈ ahead, a.natAbs < 24 * 60) :
    zone? (writeZone ahead) = some ahead := by
  cases ahead with
  | none => rfl
  | some a =>
    have hminutes := zoneMinutes?_digits (h a rfl)
    simp only [writeZone]
    split
    · next hzero => rw [hzero]; rfl
    · split
      · next hneg =>
        have hsign : (a.natAbs : Int) = -a := by omega
        rw [hsign] at hminutes
        simp [zone?, hminutes]
      · next hneg =>
        have hsign : (a.natAbs : Int) = a := by omega
        rw [hsign] at hminutes
        simp [zone?, hminutes]

theorem seconds?_digits {second microsecond : Nat} (hs : second ≤ 59) (hm : microsecond < million)
    (ahead : Option Int) :
    seconds? (':' :: (digits 2 second ++ ((if microsecond = 0 then []
      else '.' :: digits 6 microsecond) ++ writeZone ahead))) =
      some (second, microsecond, writeZone ahead) := by
  have hhead := head_writeZone ahead
  by_cases hzero : microsecond = 0
  · simp only [hzero, if_true, List.nil_append, seconds?, two?_digits hs (by decide), bind,
      Option.bind]
    cases hz : writeZone ahead with
    | nil => rfl
    | cons c cs =>
      obtain ⟨-, hpoint, hcomma⟩ := hhead c (by simp [hz])
      simp [hpoint, hcomma]
  · have hfraction := fraction?_digits hm fun c hc => (hhead c hc).1
    simp [hzero, seconds?, two?_digits hs (by decide), hfraction]

theorem full?_write {t : Timestamp} (h : t.Sound) : full? t.write.toList = some t := by
  obtain ⟨date, second, microsecond, ahead⟩ := t
  obtain ⟨hdate, hsecond, hmicro, hahead⟩ := h
  simp only at hdate hsecond hmicro hahead
  have hhour := two?_digits (by omega : second / 3600 ≤ 23) (by decide)
  have hminute := two?_digits (by omega : second / 60 % 60 ≤ 59) (by decide)
  have htail := seconds?_digits (by omega : second % 60 ≤ 59) hmicro ahead
  have hsum : 3600 * (second / 3600) + 60 * (second / 60 % 60) + second % 60 = second := by omega
  simp only [write, String.toList_ofList, List.append_assoc, List.cons_append, full?,
    front_digits hdate, Except.toOption, bind, Option.bind, isSeparator, hhour, hminute, htail,
    zone?_writeZone hahead, hsum, pure]
  rfl

/-- What is written of a timestamp is read back as it was. -/
theorem ofText_write {t : Timestamp} (h : t.Sound) : ofText t.write = .ok t := by
  simp only [ofText, full?_write h]

example :
    write ⟨⟨1999, 12, 31⟩, 86399, 1, some (-210)⟩ = "1999-12-31T23:59:59.000001-03:30" := by
  rfl

end Timestamp

theorem Instant.sound_stamp (i : Instant) : i.stamp.Sound :=
  ⟨i.isDay, i.second_lt, i.microsecond_lt, by simp [stamp]⟩

end Runbook
