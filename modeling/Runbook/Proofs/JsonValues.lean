import Runbook.Json.Read
import Runbook.Proofs.JsonNumbers
import Runbook.Value.Height

/-! Reading printed JSON back: what the reader makes of each part that the printer writes, up to the
values that are not nested too deep and hold no number that is too long. -/
namespace Runbook

namespace Value

mutual

def every (p : Value → Bool) : Value → Bool
  | .list items => p (.list items) && everyItem p items
  | .record fields => p (.record fields) && everyField p fields
  | v => p v

def everyItem (p : Value → Bool) : List Value → Bool
  | [] => true
  | v :: rest => every p v && everyItem p rest

def everyField (p : Value → Bool) : List (String × Value) → Bool
  | [] => true
  | (_, v) :: rest => every p v && everyField p rest

end

def isSound : Value → Bool
  | .real x => x.isFinite
  | .record fields => decide (fields.map (·.1)).Nodup
  | _ => true

/-- Whether a value is JSON data: its floats are finite, and no record has a name twice. -/
def isData : Value → Bool := every isSound

def isLegible : Value → Bool
  | .whole n => n.natAbs < tenTo Numeral.maxDigits
  | _ => true

/-- Whether no whole number in a value has too many digits to be read. -/
def isShort : Value → Bool := every isLegible

theorem height_pos (v : Value) : 0 < v.height := by
  cases v <;> simp [height]

end Value

theorem Fields.put_eq_append {done : Fields} {name : String} (v : Value)
    (h : name ∉ done.map (·.1)) : done.put name v = done ++ [(name, v)] := by
  induction done with
  | nil => rfl
  | cons field rest ih =>
    rw [List.map_cons, List.mem_cons, not_or] at h
    have hne : ¬field.1 = name := fun heq => h.1 heq.symm
    simp [Fields.put, hne, ih h.2]

namespace Json
open Runbook.Text

namespace Reader
variable {limit : Option Nat} {r r' r'' : Reader} {c : Char} {cs ds : List Char}

/-- From one reader the characters lead to another, whatever follows them. -/
def Takes (limit : Option Nat) (r : Reader) (cs : List Char) (r' : Reader) : Prop :=
  ∀ here rest, ∃ here', run limit r here (cs ++ rest) = run limit r' here' rest

theorem Takes.nil : Takes limit r [] r := fun here _ => ⟨here, rfl⟩

theorem Takes.append (h : Takes limit r cs r') (h' : Takes limit r' ds r'') :
    Takes limit r (cs ++ ds) r'' := by
  intro here rest
  obtain ⟨there, hfirst⟩ := h here (ds ++ rest)
  obtain ⟨there', hsecond⟩ := h' there rest
  exact ⟨there', by rw [List.append_assoc, hfirst, hsecond]⟩

theorem run_cons {here : Nat} {rest : List Char} (h : r.step limit c rest = .ok r')
    (hlong : r'.overlong = false) :
    run limit r here (c :: rest) = run limit r' (here + c.utf8Size) rest := by
  rw [run, h]
  simp only [hlong, Bool.false_eq_true, if_false]

theorem Takes.step (h : ∀ rest, r.step limit c rest = .ok r') (hlong : r'.overlong = false) :
    Takes limit r [c] r' := fun _ rest => ⟨_, run_cons (h rest) hlong⟩

theorem Takes.cons (h : ∀ rest, r.step limit c rest = .ok r') (hlong : r'.overlong = false)
    (h' : Takes limit r' cs r'') : Takes limit r (c :: cs) r'' :=
  (Takes.step h hlong).append h'

section Quoted
variable {inside : Quotation → List Char → Reader} {closed : String → Reader}

/-- Readers that take a quoted text, with what they have gathered of it. -/
structure Quotes (limit : Option Nat) (inside : Quotation → List Char → Reader)
    (closed : String → Reader) : Prop where
  step : ∀ q gathered c rest,
    (inside q gathered).step limit c rest = quoted q gathered c rest inside closed
  short : ∀ q gathered, (inside q gathered).overlong = false
  ended : ∀ s, (closed s).overlong = false

theorem Quotes.take (h : Quotes limit inside closed) {q q' : Quotation} {gathered read : List Char}
    {here : Nat} {rest : List Char} (hq : q.step c rest = .ok (.take q' read)) :
    run limit (inside q gathered) here (c :: rest) =
      run limit (inside q' (read ++ gathered)) (here + c.utf8Size) rest := by
  refine run_cons ?_ (h.short _ _)
  rw [h.step, quoted, hq]

theorem fourBytes_cons (a b c d : Char) (rest : List Char) :
    Quotation.fourBytes (a :: b :: c :: d :: rest) = true := by
  have ha := a.utf8Size_pos
  have hb := b.utf8Size_pos
  have hc := c.utf8Size_pos
  have hd := d.utf8Size_pos
  simp only [Quotation.fourBytes, List.take_succ_cons, List.take_zero, String.ofList_cons,
    String.utf8ByteSize_append, String.utf8ByteSize_singleton, decide_eq_true_eq]
  omega

theorem Quotes.plain (h : Quotes limit inside closed) {gathered : List Char} (hquote : c ≠ '"')
    (hslash : c ≠ '\\') (hcode : 32 ≤ c.toNat) :
    Takes limit (inside .plain gathered) [c] (inside .plain (c :: gathered)) := by
  intro here rest
  have hcontrol : ¬c.toNat < 32 := by omega
  have htake : Quotation.plain.step c rest = .ok (.take .plain [c]) := by
    simp [Quotation.step, hquote, hslash, hcontrol]
  exact ⟨_, h.take htake⟩

theorem Quotes.escape (h : Quotes limit inside closed) {gathered : List Char} {d : Char}
    (hletter : d ≠ 'u') (hd : Quotation.escaped? d = some c) :
    Takes limit (inside .plain gathered) ['\\', d] (inside .plain (c :: gathered)) := by
  intro here rest
  have hslash : Quotation.plain.step '\\' (d :: rest) = .ok (.take .escape []) := rfl
  have htake : Quotation.escape.step d rest = .ok (.take .plain [c]) := by
    simp [Quotation.step, hletter, hd]
  exact ⟨_, (h.take hslash).trans (h.take htake)⟩

theorem Quotes.code (h : Quotes limit inside closed) {gathered : List Char} {d e : Char} {m n : Nat}
    (hd : Quotation.hexValue? d = some m) (he : Quotation.hexValue? e = some n)
    (hcode : 16 * m + n = c.toNat) (hsmall : c.toNat < 32) :
    Takes limit (inside .plain gathered) ['\\', 'u', '0', '0', d, e]
      (inside .plain (c :: gathered)) := by
  intro here rest
  have hslash : ∀ rest, Quotation.plain.step '\\' rest = .ok (.take .escape []) := fun _ => rfl
  have hletter : Quotation.escape.step 'u' ('0' :: '0' :: d :: e :: rest) =
      .ok (.take (.code none 4 0) []) := by
    simp [Quotation.step, Quotation.begin, fourBytes_cons]
  have hzero : ∀ rest, (Quotation.code none 4 0).step '0' rest =
      .ok (.take (.code none 3 0) []) := fun _ => rfl
  have hzero' : ∀ rest, (Quotation.code none 3 0).step '0' rest =
      .ok (.take (.code none 2 0) []) := fun _ => rfl
  have hfirst : ∀ rest, (Quotation.code none 2 0).step d rest =
      .ok (.take (.code none 1 m) []) := by
    simp [Quotation.step, hd]
  have hsecond : ∀ rest, (Quotation.code none 1 m).step e rest = .ok (.take .plain [c]) := by
    have hvalue : m * 16 + n = c.toNat := by omega
    have hhigh : Quotation.isHigh c.toNat = false := by simp [Quotation.isHigh]; omega
    have hlow : Quotation.isLow c.toNat = false := by simp [Quotation.isLow]; omega
    simp [Quotation.step, he, Quotation.complete, hvalue, hhigh, hlow]
  exact ⟨_, (h.take (hslash _)).trans ((h.take hletter).trans ((h.take (hzero _)).trans
    ((h.take (hzero' _)).trans ((h.take (hfirst _)).trans (h.take (hsecond _))))))⟩

theorem hexValue?_hexDigit {n : Nat} (hn : n < 16) :
    Quotation.hexValue? (hexDigit n) = some n := by
  have hall : ∀ n : Fin 16, Quotation.hexValue? (hexDigit n) = some n.val := by decide
  exact hall ⟨n, hn⟩

theorem hexDigits_small {n : Nat} (hn : n < 32) :
    hexDigits 4 n = ['0', '0', hexDigit (n / 16), hexDigit (n % 16)] := by
  have hall : ∀ n : Fin 32, hexDigits 4 n = ['0', '0', hexDigit (n / 16), hexDigit (n % 16)] := by
    decide
  exact hall ⟨n, hn⟩

theorem Quotes.control (h : Quotes limit inside closed) {gathered : List Char} {d : Char} {n : Nat}
    (hletter : d ≠ 'u') (hd : Quotation.escaped? d = some (Char.ofNat n)) (hn : c.toNat = n) :
    Takes limit (inside .plain gathered) ['\\', d] (inside .plain (c :: gathered)) := by
  refine h.escape hletter ?_
  rw [hd, ← hn, Char.ofNat_toNat]

theorem Quotes.escapeChar (h : Quotes limit inside closed) (gathered : List Char) (c : Char) :
    Takes limit (inside .plain gathered) (escapeChar c) (inside .plain (c :: gathered)) := by
  unfold Json.escapeChar
  split
  · rename_i hmark
    rw [Bool.or_eq_true, beq_iff_eq, beq_iff_eq] at hmark
    obtain rfl | rfl := hmark
    · exact h.escape (by decide) rfl
    · exact h.escape (by decide) rfl
  · rename_i hmark
    rw [Bool.or_eq_true, beq_iff_eq, beq_iff_eq, not_or] at hmark
    split
    · rename_i hcode
      exact h.plain hmark.1 hmark.2 hcode
    · rename_i hcode
      split
      · exact h.control (by decide) rfl ‹_›
      · exact h.control (by decide) rfl ‹_›
      · exact h.control (by decide) rfl ‹_›
      · exact h.control (by decide) rfl ‹_›
      · exact h.control (by decide) rfl ‹_›
      · rw [hexDigits_small (by omega)]
        exact h.code (hexValue?_hexDigit (by omega)) (hexValue?_hexDigit (by omega)) (by omega)
          (by omega)

theorem Quotes.escaped (h : Quotes limit inside closed) (gathered cs : List Char) :
    Takes limit (inside .plain gathered) (cs.flatMap Json.escapeChar)
      (inside .plain (cs.reverse ++ gathered)) := by
  induction cs generalizing gathered with
  | nil => exact .nil
  | cons c cs ih =>
    have hrest := ih (c :: gathered)
    rw [List.flatMap_cons, List.reverse_cons, List.append_assoc]
    exact (h.escapeChar gathered c).append hrest

theorem Quotes.quote (h : Quotes limit inside closed) (s : String) :
    ∃ cs, (quote s).toList = '"' :: cs ∧ Takes limit (inside .plain []) cs (closed s) := by
  refine ⟨s.toList.flatMap Json.escapeChar ++ ['"'], by simp [Json.quote], ?_⟩
  have hclose : ∀ rest, (inside .plain (s.toList.reverse ++ [])).step limit '"' rest =
      .ok (closed s) := by
    intro rest
    rw [h.step, quoted]
    simp [Quotation.step]
  exact (h.escaped [] s.toList).append (Takes.step hclose (h.ended s))

end Quoted
/-- A reader that begins a value with the next character, on the given stack. -/
def Awaits (limit : Option Nat) (r : Reader) (stack : List Frame) : Prop :=
  ∀ c rest, isGap c = false → c ≠ ']' → r.step limit c rest = start limit stack c

/-- The marks that may follow a value. -/
def IsMark (c : Char) : Prop := c = ',' ∨ c = ']' ∨ c = Char.ofNat 125

/-- A reader that has read a value, and goes on with the mark that follows it. -/
structure Holds (limit : Option Nat) (r : Reader) (v : Value) (stack : List Frame) : Prop where
  finish : r.finish = close v stack
  follow : ∀ c rest, IsMark c → r.step limit c rest = follow v stack c

variable {stack : List Frame} {v : Value}

theorem awaits_value : Awaits limit ⟨.value, stack⟩ stack := fun c rest hgap _ => by
  simp [step, hgap]

theorem awaits_firstItem : Awaits limit ⟨.firstItem, stack⟩ stack := fun c rest hgap hend => by
  simp [step, hgap, hend]

theorem awaits_nextItem : Awaits limit ⟨.nextItem, stack⟩ stack := fun c rest hgap hend => by
  simp [step, hgap, hend]

theorem holds_more : Holds limit ⟨.more v, stack⟩ v stack := ⟨rfl, fun _ _ _ => rfl⟩

section Numbers
variable {f f' : Figure} {gathered : List Char}

theorem tooLong_take? (hf : f.take? c = some f') : f'.tooLong = false := by
  rw [Figure.take?, Option.filter_eq_some_iff] at hf
  simpa using hf.2

theorem step_number (hf : f.take? c = some f') (rest : List Char) :
    Reader.step limit ⟨.number f gathered, stack⟩ c rest =
      .ok ⟨.number f' (c :: gathered), stack⟩ := by
  rw [Figure.take?, Option.filter_eq_some_iff] at hf
  obtain ⟨hnext, -⟩ := hf
  have hword : f = .minus → signedWord? c = none := by
    rintro rfl
    unfold signedWord?
    split
    · cases hnext
    · rfl
  change goOn f gathered stack c = _
  unfold goOn
  split
  · rename_i hsigned
    rw [hword rfl] at hsigned
    cases hsigned
  · simp [Figure.step, hnext]

theorem takes_number (h : f.after? cs = some f') :
    Takes limit ⟨.number f gathered, stack⟩ cs ⟨.number f' (cs.reverse ++ gathered), stack⟩ := by
  induction cs generalizing f gathered with
  | nil =>
    cases h
    exact .nil
  | cons c cs ih =>
    rw [Figure.after?_cons, Option.bind_eq_some_iff] at h
    obtain ⟨f₁, hfirst, hrest⟩ := h
    rw [List.reverse_cons, List.append_assoc]
    exact .cons (step_number hfirst) (tooLong_take? hfirst) (ih hrest)

theorem holds_number (hf : f.isComplete = true) (hv : f.value gathered.reverse = v) :
    Holds limit ⟨.number f gathered, stack⟩ v stack := by
  refine ⟨?_, fun c rest hc => ?_⟩
  · simp [finish, hf, hv]
  · have hgo : goOn f gathered stack c = Reader.follow (f.value gathered.reverse) stack c := by
      obtain rfl | rfl | rfl := hc <;> cases f <;> first | rfl | cases hf
    rw [← hv, ← hgo]
    rfl

theorem begin?_cases (hf : Figure.begin? c = some f) :
    (c = '-' ∨ c.isDigit = true) ∧ f.tooLong = false := by
  unfold Figure.begin? at hf
  split at hf
  · rename_i h
    cases hf
    exact ⟨.inl (by simpa using h), rfl⟩
  · split at hf
    · rename_i h
      cases hf
      have hzero : c = '0' := by simpa using h
      exact ⟨.inr (by rw [hzero]; rfl), rfl⟩
    · split at hf
      · rename_i h
        cases hf
        exact ⟨.inr h, rfl⟩
      · cases hf

end Numbers
/-- The characters are read as a value wherever one is awaited on the stack. -/
def Reads (limit : Option Nat) (stack : List Frame) (cs : List Char) (v : Value) : Prop :=
  ∀ r, Awaits limit r stack → ∃ r', Takes limit r cs r' ∧ Holds limit r' v stack

/-- One more value may begin on the stack. -/
def HasRoom (limit : Option Nat) (stack : List Frame) : Prop :=
  limit.any (· < stack.length) = false

theorem Reads.intro (hgap : isGap c = false) (hend : c ≠ ']')
    (hstart : start limit stack c = .ok r) (hlong : r.overlong = false) (htake : Takes limit r cs r')
    (hhold : Holds limit r' v stack) : Reads limit stack (c :: cs) v := by
  intro r₀ hr
  refine ⟨r', .cons (fun rest => ?_) hlong htake, hhold⟩
  rw [hr c rest hgap hend, hstart]

theorem head_number (hc : c = '-' ∨ c.isDigit = true) :
    isGap c = false ∧ c ≠ ']' ∧ c ≠ '[' ∧ c ≠ '"' ∧ isOpenBrace c = false := by
  have hne : ∀ d : Char, d.isDigit = false → d ≠ '-' → c ≠ d := by
    rintro d hdigit hminus rfl
    cases hc with
    | inl h => exact hminus h
    | inr h => simp [hdigit] at h
  have hgap : isGap c = false := by
    simp [isGap, hne ' ' rfl (by decide), hne '\t' rfl (by decide), hne '\n' rfl (by decide),
      hne '\r' rfl (by decide)]
  have hbrace : isOpenBrace c = false := by
    cases hopen : isOpenBrace c with
    | false => rfl
    | true =>
      have hcode : c = Char.ofNat 123 := by rw [← Char.ofNat_toNat c, of_decide_eq_true hopen]
      exact absurd hcode (hne _ rfl (by decide))
  exact ⟨hgap, hne _ rfl (by decide), hne _ rfl (by decide), hne _ rfl (by decide), hbrace⟩

theorem start_number {f : Figure} (hroom : HasRoom limit stack) (hf : Figure.begin? c = some f) :
    start limit stack c = .ok ⟨.number f [c], stack⟩ := by
  obtain ⟨-, -, hlist, hquote, hbrace⟩ := head_number (begin?_cases hf).1
  have hroom : limit.any (· < stack.length) = false := hroom
  simp [start, hroom, hbrace, hlist, hquote, hf]

theorem reads_number (hroom : HasRoom limit stack) (h : Figure.Stands cs v) :
    Reads limit stack cs v := by
  obtain ⟨f, hf, hcomplete, hvalue⟩ := h
  cases cs with
  | nil => cases hf
  | cons c cs =>
    rw [Figure.ofChars?, Option.bind_eq_some_iff] at hf
    obtain ⟨f₁, hbegin, hafter⟩ := hf
    obtain ⟨hc, hlong⟩ := begin?_cases hbegin
    obtain ⟨hgap, hend, -⟩ := head_number hc
    refine Reads.intro hgap hend (start_number hroom hbegin) hlong (takes_number hafter)
      (holds_number hcomplete ?_)
    rw [List.reverse_append, List.reverse_reverse]
    exact hvalue

theorem takes_word (hne : cs ≠ []) : Takes limit ⟨.word v cs, stack⟩ cs ⟨.more v, stack⟩ := by
  induction cs with
  | nil => exact absurd rfl hne
  | cons c cs ih =>
    cases cs with
    | nil => exact .step (fun rest => by simp [step]) rfl
    | cons d cs => exact .cons (fun rest => by simp [step]) rfl (ih (List.cons_ne_nil d cs))

theorem reads_word (hroom : HasRoom limit stack) (hgap : isGap c = false) (hend : c ≠ ']')
    (hstart : start none stack c = .ok ⟨.word v cs, stack⟩) (hne : cs ≠ []) :
    Reads limit stack (c :: cs) v := by
  refine Reads.intro hgap hend ?_ rfl (takes_word hne) holds_more
  have hroom : limit.any (· < stack.length) = false := hroom
  simpa [start, hroom] using hstart

theorem reads_null (hroom : HasRoom limit stack) : Reads limit stack (print .null).toList .null :=
  reads_word hroom rfl (by decide) rfl (by decide)

theorem reads_flag (hroom : HasRoom limit stack) (b : Bool) :
    Reads limit stack (print (.flag b)).toList (.flag b) := by
  cases b with
  | true => exact reads_word hroom rfl (by decide) rfl (by decide)
  | false => exact reads_word hroom rfl (by decide) rfl (by decide)

theorem quotes_text (limit : Option Nat) (stack : List Frame) :
    Quotes limit (fun q gathered => ⟨.text q gathered, stack⟩) fun s => ⟨.more (.text s), stack⟩ :=
  ⟨fun _ _ _ _ => rfl, fun _ _ => rfl, fun _ => rfl⟩

theorem quotes_name (limit : Option Nat) (stack : List Frame) (done : Fields) :
    Quotes limit (fun q gathered => ⟨.name q gathered done, stack⟩)
      fun s => ⟨.colon done s, stack⟩ :=
  ⟨fun _ _ _ _ => rfl, fun _ _ => rfl, fun _ => rfl⟩

theorem reads_text (hroom : HasRoom limit stack) (s : String) :
    Reads limit stack (print (.text s)).toList (.text s) := by
  obtain ⟨cs, hcs, htake⟩ := (quotes_text limit stack).quote s
  have hroom : limit.any (· < stack.length) = false := hroom
  rw [print, hcs]
  refine Reads.intro rfl (by decide) ?_ rfl htake holds_more
  simp [start, hroom, isOpenBrace]

theorem hasRoom_of_fits (hfit : ∀ most ∈ limit, stack.length + v.height ≤ most + 1) :
    HasRoom limit stack := by
  cases limit with
  | none => rfl
  | some most =>
    have hmost := hfit most rfl
    have hpos := v.height_pos
    have hroom : ¬most < stack.length := by omega
    simp [HasRoom, hroom]

theorem toList_intercalate {s : String} {rest : List String} (hne : rest ≠ []) :
    (",".intercalate (s :: rest)).toList = s.toList ++ ',' :: (",".intercalate rest).toList := by
  obtain ⟨t, rest, rfl⟩ := List.exists_cons_of_ne_nil hne
  rw [String.intercalate_cons_cons, String.toList_append, String.toList_append, List.append_assoc]
  rfl

theorem printItems_ne_nil {items : List Value} (hne : items ≠ []) : printItems items ≠ [] := by
  cases items with
  | nil => exact absurd rfl hne
  | cons v rest => exact List.cons_ne_nil _ _

theorem printFields_ne_nil {fields : Fields} (hne : fields ≠ []) : printFields fields ≠ [] := by
  cases fields with
  | nil => exact absurd rfl hne
  | cons field rest => exact List.cons_ne_nil _ _

variable {done : Fields}

/-- A reader that begins a name with a quote. -/
def AwaitsName (limit : Option Nat) (r : Reader) (done : Fields) (stack : List Frame) : Prop :=
  ∀ rest, r.step limit '"' rest = .ok ⟨.name .plain [] done, stack⟩

theorem takes_name (hr : AwaitsName limit r done stack) (name : String) :
    Takes limit r ((quote name).toList ++ [':']) ⟨.value, .fields done name :: stack⟩ := by
  obtain ⟨cs, hcs, htake⟩ := (quotes_name limit stack done).quote name
  rw [hcs]
  exact Takes.append (.cons hr rfl htake) (.step (fun rest => rfl) rfl)

theorem start_list (hroom : HasRoom limit stack) :
    start limit stack '[' = .ok ⟨.firstItem, .items [] :: stack⟩ := by
  have hany : limit.any (· < stack.length) = false := hroom
  simp [start, hany]

theorem start_record (hroom : HasRoom limit stack) :
    start limit stack (Char.ofNat 123) = .ok ⟨.firstName, stack⟩ := by
  have hany : limit.any (· < stack.length) = false := hroom
  simp [start, hany, isOpenBrace]

theorem reads_list {items : List Value} (hroom : HasRoom limit stack)
    (htake : items ≠ [] → Takes limit ⟨.firstItem, .items [] :: stack⟩
      ((",".intercalate (printItems items)).toList ++ [']']) ⟨.more (.list items), stack⟩) :
    Reads limit stack (print (.list items)).toList (.list items) := by
  have hstart := start_list hroom
  by_cases hne : items = []
  · subst hne
    have hclose : ∀ rest, Reader.step limit ⟨.firstItem, .items [] :: stack⟩ ']' rest =
        .ok ⟨.more (.list []), stack⟩ := fun _ => rfl
    exact Reads.intro rfl (by decide) hstart rfl (.step hclose rfl) holds_more
  · rw [print, String.toList_append, String.toList_append]
    exact Reads.intro rfl (by decide) hstart rfl (htake hne) holds_more

theorem reads_record {fields : Fields} (hroom : HasRoom limit stack)
    (htake : fields ≠ [] → Takes limit ⟨.firstName, stack⟩
      ((",".intercalate (printFields fields)).toList ++ [Char.ofNat 125])
      ⟨.more (.record fields), stack⟩) :
    Reads limit stack (print (.record fields)).toList (.record fields) := by
  have hstart := start_record hroom
  by_cases hne : fields = []
  · subst hne
    have hclose : ∀ rest, Reader.step limit ⟨.firstName, stack⟩ (Char.ofNat 125) rest =
        .ok ⟨.more (.record []), stack⟩ := fun _ => rfl
    exact Reads.intro rfl (by decide) hstart rfl (.step hclose rfl) holds_more
  · rw [print, String.toList_append, String.toList_append]
    exact Reads.intro rfl (by decide) hstart rfl (htake hne) holds_more

mutual

/-- A printed value reads as itself. -/
theorem reads_print {stack : List Frame} (v : Value) (hdata : v.isData = true)
    (hshort : v.isShort = true)
    (hfit : ∀ most ∈ limit, stack.length + v.height ≤ most + 1) :
    Reads limit stack (print v).toList v := by
  have hroom := hasRoom_of_fits hfit
  cases v with
  | null => exact reads_null hroom
  | flag b => exact reads_flag hroom b
  | whole n =>
    have hn : n.natAbs < tenTo Numeral.maxDigits := by
      simpa [Value.isShort, Value.every, Value.isLegible] using hshort
    rw [print]
    exact reads_number hroom (Figure.stands_toString hn)
  | real x =>
    have hx : x.isFinite = true := by simpa [Value.isData, Value.every, Value.isSound] using hdata
    rw [print, printReal, if_pos hx]
    exact reads_number hroom (Figure.stands_write hx)
  | text s => exact reads_text hroom s
  | list items =>
    refine reads_list hroom fun hne => ?_
    simp only [Value.isData, Value.isShort, Value.every, Bool.and_eq_true] at hdata hshort
    have hinner : ∀ most ∈ limit,
        stack.length + 1 + Value.heightOfItems items ≤ most + 1 := fun most hmost => by
      have hmost := hfit most hmost
      rw [Value.height] at hmost
      omega
    have hawait : Awaits limit ⟨.firstItem, .items [] :: stack⟩ (.items [] :: stack) :=
      awaits_firstItem
    exact takes_items items hne hdata.2 hshort.2 hinner hawait
  | record fields =>
    refine reads_record hroom fun hne => ?_
    simp only [Value.isData, Value.isShort, Value.every, Bool.and_eq_true] at hdata hshort
    have hnames : ((([] : Fields) ++ fields).map (·.1)).Nodup := by
      simpa [Value.isSound] using hdata.1
    have hinner : ∀ most ∈ limit,
        stack.length + 1 + Value.heightOfFields fields ≤ most + 1 := fun most hmost => by
      have hmost := hfit most hmost
      rw [Value.height] at hmost
      omega
    have hawait : AwaitsName limit ⟨.firstName, stack⟩ [] stack := fun _ => rfl
    exact takes_fields fields hne hdata.2 hshort.2 hinner hnames hawait

theorem takes_items {r : Reader} {outer : List Frame} {prior : List Value} (items : List Value)
    (hne : items ≠ []) (hdata : Value.everyItem Value.isSound items = true)
    (hshort : Value.everyItem Value.isLegible items = true)
    (hfit : ∀ most ∈ limit, outer.length + 1 + Value.heightOfItems items ≤ most + 1)
    (hr : Awaits limit r (.items prior :: outer)) :
    Takes limit r ((",".intercalate (printItems items)).toList ++ [']'])
      ⟨.more (.list (prior.reverse ++ items)), outer⟩ := by
  cases items with
  | nil => exact absurd rfl hne
  | cons v rest =>
    simp only [Value.everyItem, Value.heightOfItems, Bool.and_eq_true] at hdata hshort hfit
    have hfirst : ∀ most ∈ limit,
        (Frame.items prior :: outer).length + v.height ≤ most + 1 := fun most hmost => by
      have hmost := hfit most hmost
      rw [List.length_cons]
      omega
    obtain ⟨r', htake, hhold⟩ := reads_print v hdata.1 hshort.1 hfirst r hr
    by_cases hlast : rest = []
    · have hend : ∀ following, r'.step limit ']' following =
          .ok ⟨.more (.list (prior.reverse ++ v :: rest)), outer⟩ := fun following => by
        rw [hhold.follow ']' following (.inr (.inl rfl)), hlast, ← List.reverse_cons]
        rfl
      rw [printItems, hlast, printItems, String.intercalate_singleton, ← hlast]
      exact htake.append (.step hend rfl)
    · have hcomma : ∀ following, r'.step limit ',' following =
          .ok ⟨.nextItem, .items (v :: prior) :: outer⟩ := fun following =>
        hhold.follow ',' following (.inl rfl)
      have hothers : ∀ most ∈ limit,
          outer.length + 1 + Value.heightOfItems rest ≤ most + 1 := fun most hmost => by
        have hmost := hfit most hmost
        omega
      have hawait : Awaits limit ⟨.nextItem, .items (v :: prior) :: outer⟩
          (.items (v :: prior) :: outer) := awaits_nextItem
      have hrest := takes_items rest hlast hdata.2 hshort.2 hothers hawait
      have hlist : prior.reverse ++ v :: rest = (v :: prior).reverse ++ rest := by simp
      rw [printItems, toList_intercalate (printItems_ne_nil hlast), List.append_assoc, hlist]
      exact htake.append (.cons hcomma rfl hrest)

theorem takes_fields {r : Reader} {stack : List Frame} {done : Fields} (fields : Fields)
    (hne : fields ≠ []) (hdata : Value.everyField Value.isSound fields = true)
    (hshort : Value.everyField Value.isLegible fields = true)
    (hfit : ∀ most ∈ limit, stack.length + 1 + Value.heightOfFields fields ≤ most + 1)
    (hnames : ((done ++ fields).map (·.1)).Nodup) (hr : AwaitsName limit r done stack) :
    Takes limit r ((",".intercalate (printFields fields)).toList ++ [Char.ofNat 125])
      ⟨.more (.record (done ++ fields)), stack⟩ := by
  cases fields with
  | nil => exact absurd rfl hne
  | cons field rest =>
    obtain ⟨name, v⟩ := field
    simp only [Value.everyField, Value.heightOfFields, Bool.and_eq_true] at hdata hshort hfit
    have hname := takes_name hr name
    have hfirst : ∀ most ∈ limit,
        (Frame.fields done name :: stack).length + v.height ≤ most + 1 := fun most hmost => by
      have hmost := hfit most hmost
      rw [List.length_cons]
      omega
    obtain ⟨r', htake, hhold⟩ := reads_print v hdata.1 hshort.1 hfirst _ awaits_value
    have hput : done.put name v = done ++ [(name, v)] := by
      refine Fields.put_eq_append v fun hmem => ?_
      rw [List.map_append, List.map_cons, List.nodup_append] at hnames
      exact hnames.2.2 name hmem name List.mem_cons_self rfl
    by_cases hlast : rest = []
    · have hend : ∀ following, r'.step limit (Char.ofNat 125) following =
          .ok ⟨.more (.record (done ++ (name, v) :: rest)), stack⟩ := fun following => by
        rw [hhold.follow _ following (.inr (.inr rfl)), hlast, ← hput]
        rfl
      rw [printFields, hlast, printFields, String.intercalate_singleton, ← hlast,
        String.toList_append, String.toList_append]
      exact (hname.append htake).append (.step hend rfl)
    · have hcomma : ∀ following, r'.step limit ',' following =
          .ok ⟨.nextName (done ++ [(name, v)]), stack⟩ := fun following => by
        rw [hhold.follow ',' following (.inl rfl), ← hput]
        rfl
      have hfields : done ++ (name, v) :: rest = (done ++ [(name, v)]) ++ rest := by simp
      rw [hfields] at hnames ⊢
      have hothers : ∀ most ∈ limit,
          stack.length + 1 + Value.heightOfFields rest ≤ most + 1 := fun most hmost => by
        have hmost := hfit most hmost
        omega
      have hawait : AwaitsName limit ⟨.nextName (done ++ [(name, v)]), stack⟩
          (done ++ [(name, v)]) stack := fun _ => rfl
      have hrest := takes_fields rest hlast hdata.2 hshort.2 hothers hnames hawait
      rw [printFields, toList_intercalate (printFields_ne_nil hlast), String.toList_append,
        String.toList_append, List.append_assoc]
      exact (hname.append htake).append (.cons hcomma rfl hrest)

end

end Reader

/-- Reading is left inverse to printing, on data that fits the reader. -/
theorem read_print {limit : Option Nat} {v : Value} (hdata : v.isData = true)
    (hshort : v.isShort = true) (hfit : ∀ most ∈ limit, v.height ≤ most + 1) :
    read limit (print v) = .ok v := by
  have hinner : ∀ most ∈ limit, ([] : List Frame).length + v.height ≤ most + 1 := by
    simpa using hfit
  obtain ⟨r, htake, hhold⟩ :=
    Reader.reads_print v hdata hshort hinner ⟨.value, []⟩ Reader.awaits_value
  obtain ⟨here, hrun⟩ := htake 0 []
  rw [List.append_nil] at hrun
  rw [read, hrun, Reader.run, hhold.finish]
  rfl

end Json
end Runbook
