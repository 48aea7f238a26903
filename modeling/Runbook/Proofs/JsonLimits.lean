import Runbook.Proofs.JsonValues

/-! What the reader of JSON refuses of what the printer writes: values that are nested too deep, and
whole numbers that are too long. With what it takes, this says exactly what is read back. -/
namespace Runbook.Json
open Runbook.Text

namespace Reader
variable {limit : Option Nat} {most : Nat} {r r' : Reader} {stack : List Frame} {c : Char}
  {cs ds : List Char} {v : Value}

/-- The characters rule the text out, whatever follows them. -/
def Fails (limit : Option Nat) (r : Reader) (cs : List Char) : Prop :=
  ∀ here rest, ∃ mistake, run limit r here (cs ++ rest) = .error mistake

theorem Fails.append (h : Fails limit r cs) (ds : List Char) : Fails limit r (cs ++ ds) := by
  intro here rest
  rw [List.append_assoc]
  exact h here (ds ++ rest)

theorem Takes.fails (h : Takes limit r cs r') (hfail : Fails limit r' ds) :
    Fails limit r (cs ++ ds) := by
  intro here rest
  obtain ⟨there, hrun⟩ := h here (ds ++ rest)
  rw [List.append_assoc, hrun]
  exact hfail there rest

theorem Fails.cons (h : ∀ rest, r.step limit c rest = .ok r') (hlong : r'.overlong = false)
    (hfail : Fails limit r' cs) : Fails limit r (c :: cs) := (Takes.step h hlong).fails hfail

theorem Fails.step (h : ∀ rest, ∃ flaw, r.step limit c rest = .error flaw) (cs : List Char) :
    Fails limit r (c :: cs) := by
  intro here rest
  obtain ⟨flaw, hflaw⟩ := h (cs ++ rest)
  rw [List.cons_append, run, hflaw]
  exact ⟨_, rfl⟩

theorem Fails.overlong (h : ∀ rest, r.step limit c rest = .ok r') (hlong : r'.overlong = true)
    (cs : List Char) : Fails limit r (c :: cs) := by
  intro here rest
  rw [List.cons_append, run, h]
  simp only [hlong, if_true]
  exact ⟨_, rfl⟩

theorem fails_whole {n : Nat} {gathered : List Char} (hd : Numeral.AreDigits cs)
    (hn : n ≤ Numeral.maxDigits) (hlong : Numeral.maxDigits < n + cs.length) :
    Fails limit ⟨.number (.whole n) gathered, stack⟩ cs := by
  induction cs generalizing n gathered with
  | nil => exact absurd hlong (by simpa using hn)
  | cons c cs ih =>
    have hc : c.isDigit = true := hd c List.mem_cons_self
    have hstep : ∀ rest, Reader.step limit ⟨.number (.whole n) gathered, stack⟩ c rest =
        .ok ⟨.number (.whole (n + 1)) (c :: gathered), stack⟩ := fun rest => by
      change goOn (.whole n) gathered stack c = _
      simp [goOn, Figure.step, Figure.next?, hc]
    by_cases hfull : n = Numeral.maxDigits
    · refine Fails.overlong hstep ?_ cs
      simp [Reader.overlong, Figure.tooLong, hfull]
    · have hfit : ¬Numeral.maxDigits < n + 1 := by omega
      refine Fails.cons hstep (by simp [Reader.overlong, Figure.tooLong, hfit]) ?_
      refine ih (fun d hd' => hd d (List.mem_cons_of_mem c hd')) (by omega) ?_
      rw [List.length_cons] at hlong
      omega

theorem long_toDigits {n : Nat} (hn : ¬n < tenTo Numeral.maxDigits) :
    ∃ d ds, Nat.toDigits 10 n = d :: ds ∧ d ≠ '0' ∧ d.isDigit = true ∧ Numeral.AreDigits ds ∧
      Numeral.maxDigits < 1 + ds.length := by
  have hpos : n ≠ 0 := by
    rintro rfl
    exact hn (Binary64.tenTo_pos _)
  have hlength : Numeral.maxDigits < (Nat.toDigits 10 n).length :=
    Nat.lt_of_not_le fun hle => hn ((Binary64.length_toDigits_le (by decide)).1 hle)
  have hdigits := Numeral.areDigits_toDigits n
  obtain ⟨d, ds, hds, hd⟩ := Numeral.head_toDigits hpos
  rw [hds] at hlength hdigits
  rw [List.length_cons, Nat.add_comm] at hlength
  exact ⟨d, ds, hds, hd, hdigits d List.mem_cons_self,
    fun c hc => hdigits c (List.mem_cons_of_mem d hc), hlength⟩

theorem fails_toString (hroom : HasRoom limit stack) {n : Int}
    (hn : ¬n.natAbs < tenTo Numeral.maxDigits) (hr : Awaits limit r stack) :
    Fails limit r (toString n).toList := by
  obtain ⟨d, ds, hds, hd, hdigit, hrest, hlong⟩ := long_toDigits hn
  obtain ⟨hgap, hend, -⟩ := head_number (.inr hdigit)
  have hminus : d ≠ '-' := by
    rintro rfl
    cases hdigit
  rw [Figure.toList_toString, hds]
  split
  · have hsign : ∀ rest, r.step limit '-' rest = .ok ⟨.number .minus ['-'], stack⟩ := fun rest => by
      rw [hr '-' rest rfl (by decide), start_number hroom rfl]
    have hfirst : Figure.minus.take? d = some (.whole 1) := by
      simp [Figure.take?, Figure.next?, hdigit, hd, Figure.tooLong, Numeral.maxDigits,
        Option.filter]
    exact Fails.cons hsign rfl (Fails.cons (step_number hfirst) (tooLong_take? hfirst)
      (fails_whole hrest (by decide) hlong))
  · have hfirst : ∀ rest, r.step limit d rest = .ok ⟨.number (.whole 1) [d], stack⟩ := fun rest => by
      have hbegin : Figure.begin? d = some (.whole 1) := by
        simp [Figure.begin?, hdigit, hd, hminus]
      rw [hr d rest hgap hend, start_number hroom hbegin]
    exact Fails.cons hfirst rfl (fails_whole hrest (by decide) hlong)

theorem head_toString (n : Int) :
    ∃ c cs, (toString n).toList = c :: cs ∧ (c = '-' ∨ c.isDigit = true) := by
  rw [Figure.toList_toString]
  split
  · exact ⟨'-', _, rfl, .inl rfl⟩
  · obtain ⟨d, ds, hds⟩ := List.exists_cons_of_ne_nil (@Nat.toDigits_ne_nil n.natAbs 10)
    have hdigits := Numeral.areDigits_toDigits n.natAbs
    rw [hds] at hdigits
    exact ⟨d, ds, hds, .inr (hdigits d List.mem_cons_self)⟩

theorem head_stands (h : Figure.Stands cs v) :
    ∃ c rest, cs = c :: rest ∧ (c = '-' ∨ c.isDigit = true) := by
  obtain ⟨f, hf, -⟩ := h
  cases cs with
  | nil => cases hf
  | cons c cs =>
    rw [Figure.ofChars?, Option.bind_eq_some_iff] at hf
    obtain ⟨f₁, hbegin, -⟩ := hf
    exact ⟨c, cs, rfl, (begin?_cases hbegin).1⟩

theorem head_print (hdata : v.isData = true) :
    ∃ c cs, (print v).toList = c :: cs ∧ isGap c = false ∧ c ≠ ']' := by
  cases v with
  | null => exact ⟨'n', _, rfl, rfl, by decide⟩
  | flag b => cases b <;> exact ⟨_, _, rfl, rfl, by decide⟩
  | whole n =>
    obtain ⟨c, cs, hcs, hc⟩ := head_toString n
    obtain ⟨hgap, hend, -⟩ := head_number hc
    exact ⟨c, cs, by rw [print, hcs], hgap, hend⟩
  | real x =>
    have hx : x.isFinite = true := hdata
    obtain ⟨c, cs, hcs, hc⟩ := head_stands (Figure.stands_write hx)
    obtain ⟨hgap, hend, -⟩ := head_number hc
    exact ⟨c, cs, by rw [print, printReal, if_pos hx, hcs], hgap, hend⟩
  | text s =>
    have hquote : (print (.text s)).toList = '"' :: (s.toList.flatMap escapeChar ++ ['"']) := by
      simp [print, quote]
    exact ⟨_, _, hquote, rfl, by decide⟩
  | list items =>
    exact ⟨'[', _, by rw [print, String.toList_append, String.toList_append]; rfl, rfl, by decide⟩
  | record fields =>
    exact ⟨Char.ofNat 123, _, by rw [print, String.toList_append, String.toList_append]; rfl, rfl,
      by decide⟩

theorem head_intercalate (s : String) (rest : List String) :
    ∃ more, (",".intercalate (s :: rest)).toList = s.toList ++ more := by
  cases rest with
  | nil => exact ⟨[], by rw [String.intercalate_singleton, List.append_nil]⟩
  | cons t rest => exact ⟨_, toList_intercalate (List.cons_ne_nil t rest)⟩

theorem fails_room (hdata : v.isData = true) (hfull : most < stack.length)
    (hr : Awaits (some most) r stack) : Fails (some most) r (print v).toList := by
  obtain ⟨c, cs, hcs, hgap, hend⟩ := head_print hdata
  rw [hcs]
  refine Fails.step (fun rest => ⟨.tooDeep, ?_⟩) cs
  rw [hr c rest hgap hend]
  simp [start, hfull]

mutual

/-- A printed value is refused if it is too deep, or if a whole number in it is too long. -/
theorem fails_print {r : Reader} {stack : List Frame} (v : Value) (hdata : v.isData = true)
    (hbad : most + 1 < stack.length + v.height ∨ v.isShort = false)
    (hr : Awaits (some most) r stack) : Fails (some most) r (print v).toList := by
  by_cases hfull : most < stack.length
  · exact fails_room hdata hfull hr
  -- the value itself begins, so the fault is one of a number or of what the value holds
  have hroom : HasRoom (some most) stack := by simp [HasRoom, hfull]
  have hflat : v.height = 1 → v.isShort = false := by
    intro hheight
    refine hbad.resolve_left ?_
    omega
  cases v with
  | null => cases hflat rfl
  | flag b => cases hflat rfl
  | real x => cases hflat rfl
  | text s => cases hflat rfl
  | whole n =>
    have hn : ¬n.natAbs < tenTo Numeral.maxDigits := by
      have hshort := hflat rfl
      simpa [Value.isShort, Value.every, Value.isLegible] using hshort
    rw [print]
    exact fails_toString hroom hn hr
  | list items =>
    have hstart : ∀ rest, r.step (some most) '[' rest =
        .ok ⟨.firstItem, .items [] :: stack⟩ := fun rest => by
      rw [hr '[' rest rfl (by decide), start_list hroom]
    have hinner : most + 1 < stack.length + 1 + Value.heightOfItems items ∨
        Value.everyItem Value.isLegible items = false := by
      simp only [Value.height, Value.isShort, Value.every, Value.isLegible, Bool.true_and] at hbad
      refine hbad.imp_left fun h => ?_
      omega
    simp only [Value.isData, Value.every, Bool.and_eq_true] at hdata
    have hitems := fails_items items hdata.2 (Nat.le_of_not_lt hfull) hinner
      (show Awaits (some most) ⟨.firstItem, .items [] :: stack⟩ (.items [] :: stack) from
        awaits_firstItem)
    rw [print, String.toList_append, String.toList_append]
    exact Fails.cons hstart rfl (hitems.append _)
  | record fields =>
    have hstart : ∀ rest, r.step (some most) (Char.ofNat 123) rest =
        .ok ⟨.firstName, stack⟩ := fun rest => by
      rw [hr _ rest rfl (by decide), start_record hroom]
    have hinner : most + 1 < stack.length + 1 + Value.heightOfFields fields ∨
        Value.everyField Value.isLegible fields = false := by
      simp only [Value.height, Value.isShort, Value.every, Value.isLegible, Bool.true_and] at hbad
      refine hbad.imp_left fun h => ?_
      omega
    simp only [Value.isData, Value.every, Bool.and_eq_true] at hdata
    have hfields := fails_fields fields hdata.2 (Nat.le_of_not_lt hfull) hinner
      (show AwaitsName (some most) ⟨.firstName, stack⟩ [] stack from fun _ => rfl)
    rw [print, String.toList_append, String.toList_append]
    exact Fails.cons hstart rfl (hfields.append _)

theorem fails_items {r : Reader} {outer : List Frame} {prior : List Value} (items : List Value)
    (hdata : Value.everyItem Value.isSound items = true) (hroom : outer.length ≤ most)
    (hbad : most + 1 < outer.length + 1 + Value.heightOfItems items ∨
      Value.everyItem Value.isLegible items = false)
    (hr : Awaits (some most) r (.items prior :: outer)) :
    Fails (some most) r (",".intercalate (printItems items)).toList := by
  cases items with
  | nil =>
    simp only [Value.heightOfItems, Value.everyItem, Bool.true_eq_false, or_false] at hbad
    omega
  | cons v rest =>
    simp only [Value.everyItem, Value.heightOfItems, Bool.and_eq_true] at hdata hbad
    have hstack : (Frame.items prior :: outer).length = outer.length + 1 := rfl
    -- the text fails at the first item that is refused; those before it are read
    by_cases hv : most + 1 < (Frame.items prior :: outer).length + v.height ∨ v.isShort = false
    · obtain ⟨more, hmore⟩ := head_intercalate (print v) (printItems rest)
      rw [printItems, hmore]
      exact (fails_print v hdata.1 hv hr).append more
    · rw [not_or, Bool.not_eq_false] at hv
      have hothers : most + 1 < outer.length + 1 + Value.heightOfItems rest ∨
          Value.everyItem Value.isLegible rest = false := by
        have hshort : Value.every Value.isLegible v = true := hv.2
        rw [hshort, Bool.true_and] at hbad
        refine hbad.imp_left fun h => ?_
        omega
      have hne : rest ≠ [] := by
        rintro rfl
        simp only [Value.heightOfItems, Value.everyItem, Bool.true_eq_false, or_false] at hothers
        omega
      have hfirst : ∀ m ∈ some most, (Frame.items prior :: outer).length + v.height ≤ m + 1 := by
        rintro m hm
        cases hm
        exact Nat.le_of_not_lt hv.1
      obtain ⟨r', htake, hhold⟩ := reads_print v hdata.1 hv.2 hfirst r hr
      have hcomma : ∀ following, r'.step (some most) ',' following =
          .ok ⟨.nextItem, .items (v :: prior) :: outer⟩ := fun following =>
        hhold.follow ',' following (.inl rfl)
      have hawait : Awaits (some most) ⟨.nextItem, .items (v :: prior) :: outer⟩
          (.items (v :: prior) :: outer) := awaits_nextItem
      have hrest := fails_items rest hdata.2 hroom hothers hawait
      rw [printItems, toList_intercalate (printItems_ne_nil hne)]
      exact htake.fails (Fails.cons hcomma rfl hrest)

theorem fails_fields {r : Reader} {stack : List Frame} {done : Fields} (fields : Fields)
    (hdata : Value.everyField Value.isSound fields = true) (hroom : stack.length ≤ most)
    (hbad : most + 1 < stack.length + 1 + Value.heightOfFields fields ∨
      Value.everyField Value.isLegible fields = false)
    (hr : AwaitsName (some most) r done stack) :
    Fails (some most) r (",".intercalate (printFields fields)).toList := by
  cases fields with
  | nil =>
    simp only [Value.heightOfFields, Value.everyField, Bool.true_eq_false, or_false] at hbad
    omega
  | cons field rest =>
    obtain ⟨name, v⟩ := field
    simp only [Value.everyField, Value.heightOfFields, Bool.and_eq_true] at hdata hbad
    have hstack : (Frame.fields done name :: stack).length = stack.length + 1 := rfl
    have hname := takes_name hr name
    by_cases hv : most + 1 < (Frame.fields done name :: stack).length + v.height ∨
        v.isShort = false
    · obtain ⟨more, hmore⟩ := head_intercalate (quote name ++ ":" ++ print v) (printFields rest)
      rw [printFields, hmore, String.toList_append, String.toList_append]
      exact (hname.fails (fails_print v hdata.1 hv awaits_value)).append more
    · rw [not_or, Bool.not_eq_false] at hv
      have hothers : most + 1 < stack.length + 1 + Value.heightOfFields rest ∨
          Value.everyField Value.isLegible rest = false := by
        have hshort : Value.every Value.isLegible v = true := hv.2
        rw [hshort, Bool.true_and] at hbad
        refine hbad.imp_left fun h => ?_
        omega
      have hne : rest ≠ [] := by
        rintro rfl
        simp only [Value.heightOfFields, Value.everyField, Bool.true_eq_false, or_false] at hothers
        omega
      have hfirst : ∀ m ∈ some most, (Frame.fields done name :: stack).length + v.height ≤
          m + 1 := by
        rintro m hm
        cases hm
        exact Nat.le_of_not_lt hv.1
      obtain ⟨r', htake, hhold⟩ := reads_print v hdata.1 hv.2 hfirst _ awaits_value
      have hcomma : ∀ following, r'.step (some most) ',' following =
          .ok ⟨.nextName (done.put name v), stack⟩ := fun following =>
        hhold.follow ',' following (.inl rfl)
      have hawait : AwaitsName (some most) ⟨.nextName (done.put name v), stack⟩
          (done.put name v) stack := fun _ => rfl
      have hrest := fails_fields rest hdata.2 hroom hothers hawait
      rw [printFields, toList_intercalate (printFields_ne_nil hne), String.toList_append,
        String.toList_append]
      exact (hname.append htake).fails (Fails.cons hcomma rfl hrest)

end

end Reader

variable {most : Nat} {v : Value}

theorem read_print_error (hdata : v.isData = true)
    (hbad : most + 1 < v.height ∨ v.isShort = false) :
    ∃ mistake, read (some most) (print v) = .error mistake := by
  have hfull : most + 1 < ([] : List Frame).length + v.height ∨ v.isShort = false := by
    simpa using hbad
  obtain ⟨mistake, hrun⟩ := Reader.fails_print v hdata hfull Reader.awaits_value 0 []
  refine ⟨mistake, ?_⟩
  rw [read, ← List.append_nil (print v).toList]
  exact hrun

/-- What is read from printed data is the data itself, and it is read just if it is not too deep for
the reader and no whole number in it is too long. -/
theorem read_print_iff {x : Value} (hdata : v.isData = true) :
    read (some most) (print v) = .ok x ↔ x = v ∧ v.height ≤ most + 1 ∧ v.isShort = true := by
  by_cases hfit : v.height ≤ most + 1 ∧ v.isShort = true
  · have hread : read (some most) (print v) = .ok v :=
      read_print hdata hfit.2 fun m hm => by
        cases hm
        exact hfit.1
    rw [hread]
    refine ⟨fun h => ?_, fun h => by rw [h.1]⟩
    cases h
    exact ⟨rfl, hfit⟩
  · have hbad : most + 1 < v.height ∨ v.isShort = false := by
      rwa [not_and_or, Nat.not_le, Bool.not_eq_true] at hfit
    obtain ⟨mistake, hread⟩ := read_print_error hdata hbad
    rw [hread]
    refine ⟨fun h => ?_, fun h => absurd h.2 hfit⟩
    cases h

end Runbook.Json
