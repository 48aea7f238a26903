import Mathlib.Data.List.TakeDrop
import Mathlib.Data.List.TakeWhile
import Runbook.Condition

/-! How conditions are spelled: blanks, a name, blanks, a symbol, blanks, a literal and blanks. A
text is a condition exactly if it can be split in this way, there is only one way to split it, and
the condition that is read has the name, the comparison and the literal of the split. -/
namespace Runbook

namespace Text

def blankCodes : List Nat :=
  [9, 10, 11, 12, 13, 28, 29, 30, 31, 32, 133, 160, 5760, 8192, 8193, 8194, 8195, 8196, 8197, 8198,
    8199, 8200, 8201, 8202, 8232, 8233, 8239, 8287, 12288]

theorem toNat_mem_blankCodes {c : Char} (h : isBlank c = true) : c.toNat ∈ blankCodes := by
  simp only [isBlank, Bool.or_eq_true, Bool.and_eq_true, decide_eq_true_eq, beq_iff_eq] at h
  simp only [blankCodes, List.mem_cons, List.not_mem_nil]
  omega

theorem isBlank_of_class {p : Char → Bool} (hp : ∀ n ∈ blankCodes, p (Char.ofNat n) = false)
    {c : Char} (h : p c = true) : isBlank c = false := by
  by_contra hb
  have hcode := hp c.toNat (toNat_mem_blankCodes (by simpa using hb))
  rw [Char.ofNat_toNat, h] at hcode
  cases hcode

theorem isBlank_of_isWord {c : Char} (h : isWord c = true) : isBlank c = false :=
  isBlank_of_class (by decide +kernel) h

theorem isBlank_of_anyDigit {c : Char} (h : isDigit c = true) : isBlank c = false :=
  isBlank_of_class (by decide +kernel) h

theorem dropWhile_append_stop {p : Char → Bool} {front rest : List Char} (hfront : front.all p = true)
    (hrest : ∀ c ∈ rest.head?, p c = false) : (front ++ rest).dropWhile p = rest := by
  rw [List.dropWhile_append_of_pos (List.all_eq_true.1 hfront)]
  cases rest with
  | nil => rfl
  | cons c rest => exact List.dropWhile_cons_of_neg (by simp [hrest c rfl])

theorem takeWhile_append_stop {p : Char → Bool} {front rest : List Char} (hfront : front.all p = true)
    (hrest : ∀ c ∈ rest.head?, p c = false) : (front ++ rest).takeWhile p = front := by
  rw [List.takeWhile_append_of_pos (List.all_eq_true.1 hfront)]
  cases rest with
  | nil => simp
  | cons c rest => rw [List.takeWhile_cons_of_neg (by simp [hrest c rfl]), List.append_nil]

end Text
open Text

/-- The digits behind a point, or nothing. -/
inductive IsFraction : List Char → Prop where
  | none : IsFraction []
  | some {ds : List Char} : ds ≠ [] → ds.all isDigit = true → IsFraction ('.' :: ds)

/-- The spellings of literals: a text between two equal quotation marks that it does not hold, or a
number, which is digits with an optional sign and an optional fraction. -/
inductive Literal.Spelled : List Char → Literal → Prop where
  | quoted {mark : Char} {cs : List Char} : mark = singleQuote ∨ mark = doubleQuote → mark ∉ cs →
      Spelled (mark :: cs ++ [mark]) (.quoted (String.ofList cs))
  | numeral {sign whole fraction : List Char} : sign ∈ [[], ['+'], ['-']] → whole ≠ [] →
      whole.all isDigit = true → IsFraction fraction →
      Spelled (sign ++ whole ++ fraction) (.numeral (String.ofList (sign ++ whole ++ fraction)))

/-- A way to split a text into the parts of a condition. -/
@[ext]
structure Spelling where
  lead : List Char
  name : List Char
  gap : List Char
  comparison : Comparison
  space : List Char
  literal : List Char
  meaning : Literal
  tail : List Char
  lead_blank : lead.all isBlank = true
  name_ne_nil : name ≠ []
  name_word : name.all isWord = true
  gap_blank : gap.all isBlank = true
  space_blank : space.all isBlank = true
  spelled : meaning.Spelled literal
  tail_blank : tail.all isBlank = true

namespace Spelling

def fromLiteral (s : Spelling) : List Char := s.literal ++ s.tail

def fromSymbol (s : Spelling) : List Char :=
  s.comparison.symbol.toList ++ (s.space ++ s.fromLiteral)

def text (s : Spelling) : String :=
  String.ofList (s.lead ++ (s.name ++ (s.gap ++ s.fromSymbol)))

def condition (s : Spelling) : Condition :=
  ⟨String.ofList s.name, s.comparison, s.meaning⟩

end Spelling

namespace Condition

theorem comparison?_symbol (o : Comparison) {rest : List Char} (h : ∀ c ∈ rest.head?, c ≠ '=') :
    comparison? (o.symbol.toList ++ rest) = some (o, rest) := by
  cases o with
  | eq | ne | ge | le => rfl
  | gt | lt =>
    cases rest with
    | nil => rfl
    | cons c rest =>
      have hc : c ≠ '=' := h c rfl
      simp [Comparison.symbol, comparison?, hc]

theorem symbol_of_comparison? {cs rest : List Char} {o : Comparison}
    (h : comparison? cs = some (o, rest)) : cs = o.symbol.toList ++ rest := by
  unfold comparison? at h
  split at h <;> cases h <;> rfl

theorem quoted?_spelled {mark : Char} {cs : List Char} (h : mark ∉ cs) (rest : List Char) :
    quoted? mark (cs ++ mark :: rest) = some (.quoted (String.ofList cs), rest) := by
  have hall : cs.all (· != mark) = true := List.all_eq_true.2 fun c hc => by
    simpa using fun he : c = mark => h (he ▸ hc)
  have hstop : ∀ c ∈ (mark :: rest).head?, (c != mark) = false := by simp
  rw [quoted?, dropWhile_append_stop hall hstop, takeWhile_append_stop hall hstop]

theorem spelled_of_quoted? {mark : Char} {cs rest : List Char} {l : Literal}
    (hmark : mark = singleQuote ∨ mark = doubleQuote) (h : quoted? mark cs = some (l, rest)) :
    ∃ spelling, mark :: cs = spelling ++ rest ∧ l.Spelled spelling := by
  unfold quoted? at h
  split at h
  · cases h
  · next c rest' hdrop =>
    cases h
    have hc : c = mark := by
      have hhead := List.head?_dropWhile_not (· != mark) cs
      simpa [hdrop] using hhead
    subst hc
    refine ⟨c :: cs.takeWhile (· != c) ++ [c], ?_, .quoted hmark fun hmem => ?_⟩
    · have hsplit := List.takeWhile_append_dropWhile (p := (· != c)) (l := cs)
      rw [hdrop] at hsplit
      simp [hsplit]
    · simpa using List.mem_takeWhile_imp hmem

theorem signPart_spelled {sign cs : List Char} (hsign : sign ∈ [[], ['+'], ['-']])
    (h : ∀ c ∈ cs.head?, isDigit c = true) : signPart (sign ++ cs) = (sign, cs) := by
  simp only [List.mem_cons, List.not_mem_nil, or_false] at hsign
  obtain rfl | rfl | rfl := hsign
  · cases cs with
    | nil => rfl
    | cons c cs =>
      have hplus : c ≠ '+' := by
        rintro rfl
        exact absurd (h '+' rfl) (by decide)
      have hminus : c ≠ '-' := by
        rintro rfl
        exact absurd (h '-' rfl) (by decide)
      simp [signPart, hplus, hminus]
  · rfl
  · rfl

theorem sign_of_signPart (cs : List Char) :
    cs = (signPart cs).1 ++ (signPart cs).2 ∧ (signPart cs).1 ∈ [[], ['+'], ['-']] := by
  unfold signPart
  split <;> simp

theorem fractionPart_spelled {fraction cs : List Char} (hf : IsFraction fraction)
    (hdigit : ∀ c ∈ cs.head?, isDigit c = false) (hpoint : ∀ c ∈ cs.head?, c ≠ '.') :
    fractionPart (fraction ++ cs) = (fraction, cs) := by
  cases hf with
  | none =>
    cases cs with
    | nil => rfl
    | cons c cs =>
      have hc : c ≠ '.' := hpoint c rfl
      simp [fractionPart, hc]
  | @some ds hne hds =>
    obtain ⟨d, ds, rfl⟩ := List.exists_cons_of_ne_nil hne
    have htake := takeWhile_append_stop hds hdigit
    have hdrop := dropWhile_append_stop hds hdigit
    simp only [List.cons_append] at htake hdrop
    simp only [fractionPart, List.cons_append, htake, hdrop]

theorem fraction_of_fractionPart (cs : List Char) :
    cs = (fractionPart cs).1 ++ (fractionPart cs).2 ∧ IsFraction (fractionPart cs).1 := by
  unfold fractionPart
  split
  · next cs =>
    split
    · exact ⟨rfl, .none⟩
    · next hne =>
      refine ⟨?_, .some hne List.all_takeWhile⟩
      rw [List.cons_append, List.takeWhile_append_dropWhile]
  · exact ⟨rfl, .none⟩

theorem spelled_of_numeral? {cs rest : List Char} {l : Literal}
    (h : numeral? cs = some (l, rest)) :
    ∃ spelling, cs = spelling ++ rest ∧ l.Spelled spelling := by
  obtain ⟨hsign, hmem⟩ := sign_of_signPart cs
  obtain ⟨hfraction, hpart⟩ := fraction_of_fractionPart ((signPart cs).2.dropWhile isDigit)
  unfold numeral? at h
  simp only at h
  split at h
  · cases h
  · next hne =>
    cases h
    refine ⟨_, ?_, .numeral hmem hne List.all_takeWhile hpart⟩
    calc
      cs = (signPart cs).1 ++ (signPart cs).2 := hsign
      _ = (signPart cs).1 ++ ((signPart cs).2.takeWhile isDigit ++
            (signPart cs).2.dropWhile isDigit) := by rw [List.takeWhile_append_dropWhile]
      _ = _ := by simp only [List.append_assoc, ← hfraction]

theorem literal?_spelled {l : Literal} {spelling rest : List Char} (h : l.Spelled spelling)
    (hrest : rest.all isBlank = true) : literal? (spelling ++ rest) = some (l, rest) := by
  have hblank : ∀ c ∈ rest.head?, isBlank c = true := by
    intro c hc
    exact List.all_eq_true.1 hrest c (List.mem_of_head? hc)
  cases h with
  | @quoted mark cs hmark hcs =>
    have hread := quoted?_spelled hcs rest
    obtain rfl | rfl := hmark <;> simpa [literal?] using hread
  | @numeral sign whole fraction hsign hne hwhole hfraction =>
    -- what follows is blank, so that neither digits nor a fraction run on into it
    have hdigit : ∀ c ∈ rest.head?, isDigit c = false := by
      intro c hc
      by_contra hd
      have hnot := isBlank_of_anyDigit (c := c) (by simpa using hd)
      simp [hblank c hc] at hnot
    have hpoint : ∀ c ∈ rest.head?, c ≠ '.' := by
      rintro c hc rfl
      exact absurd (hblank '.' hc) (by decide)
    obtain ⟨d, ds, rfl⟩ := List.exists_cons_of_ne_nil hne
    have hd : isDigit d = true := List.all_eq_true.1 hwhole d List.mem_cons_self
    have hstop : ∀ c ∈ (fraction ++ rest).head?, isDigit c = false := by
      cases hfraction with
      | none => exact hdigit
      | some _ _ => simp; decide
    have hsigned : signPart (sign ++ (d :: ds ++ (fraction ++ rest))) =
        (sign, d :: ds ++ (fraction ++ rest)) := signPart_spelled hsign (by simpa using hd)
    have htake := takeWhile_append_stop hwhole hstop
    have hdrop := dropWhile_append_stop hwhole hstop
    have hread : numeral? (sign ++ (d :: ds ++ (fraction ++ rest))) =
        some (.numeral (String.ofList (sign ++ (d :: ds) ++ fraction)), rest) := by
      unfold numeral?
      simp only [hsigned, htake, hdrop, fractionPart_spelled hfraction hdigit hpoint]
    have hquote : ∀ c, isDigit c = true ∨ c = '+' ∨ c = '-' →
        (c == singleQuote || c == doubleQuote) = false := by
      intro c hc
      simp only [Bool.or_eq_false_iff, beq_eq_false_iff_ne]
      constructor <;> (rintro rfl; exact absurd hc (by decide))
    have hsigns : sign = [] ∨ sign = ['+'] ∨ sign = ['-'] := by simpa using hsign
    simp only [List.append_assoc, List.cons_append] at hread ⊢
    obtain rfl | rfl | rfl := hsigns
    · simpa [literal?, hquote d (.inl hd)] using hread
    · simpa [literal?, hquote '+' (by simp)] using hread
    · simpa [literal?, hquote '-' (by simp)] using hread

theorem spelled_of_literal? {cs rest : List Char} {l : Literal} (h : literal? cs = some (l, rest)) :
    ∃ spelling, cs = spelling ++ rest ∧ l.Spelled spelling := by
  unfold literal? at h
  split at h
  · cases h
  · split at h
    · next hmark => exact spelled_of_quoted? (by simpa using hmark) h
    · exact spelled_of_numeral? h

theorem parseChars?_eq_some_iff {cs : List Char} {c : Condition} :
    parseChars? cs = some c ↔ ∃ o rest l tail,
      (skipBlanks cs).takeWhile isWord ≠ [] ∧
      comparison? (skipBlanks ((skipBlanks cs).dropWhile isWord)) = some (o, rest) ∧
      literal? (skipBlanks rest) = some (l, tail) ∧ tail.all isBlank = true ∧
      c = ⟨String.ofList ((skipBlanks cs).takeWhile isWord), o, l⟩ := by
  by_cases hname : (skipBlanks cs).takeWhile isWord = []
  · simp [parseChars?, hname]
  · simp only [parseChars?, List.isEmpty_iff, hname, if_false, Option.bind_eq_bind,
      Option.bind_eq_some_iff, Prod.exists, ne_eq, not_false_eq_true, true_and]
    constructor
    · rintro ⟨o, rest, ho, l, tail, hl, hc⟩
      split at hc
      · next htail =>
        cases hc
        exact ⟨o, rest, l, tail, ho, hl, htail, rfl⟩
      · cases hc
    · rintro ⟨o, rest, l, tail, ho, hl, htail, rfl⟩
      exact ⟨o, rest, ho, l, tail, hl, by rw [if_pos htail]⟩

end Condition

namespace Literal

theorem Spelled.head {l : Literal} {spelling : List Char} (h : l.Spelled spelling) :
    ∃ c ∈ spelling.head?, isBlank c = false ∧ c ≠ '=' := by
  cases h with
  | quoted hmark _ => obtain rfl | rfl := hmark <;> exact ⟨_, rfl, by decide⟩
  | @numeral sign whole fraction hsign hne hwhole _ =>
    have hsigns : sign = [] ∨ sign = ['+'] ∨ sign = ['-'] := by simpa using hsign
    obtain ⟨d, ds, rfl⟩ := List.exists_cons_of_ne_nil hne
    have hd : isDigit d = true := List.all_eq_true.1 hwhole d List.mem_cons_self
    obtain rfl | rfl | rfl := hsigns
    · refine ⟨d, rfl, isBlank_of_anyDigit hd, ?_⟩
      rintro rfl
      exact absurd hd (by decide)
    · exact ⟨'+', rfl, by decide⟩
    · exact ⟨'-', rfl, by decide⟩

end Literal

theorem Comparison.head_symbol (o : Comparison) :
    ∃ c cs, o.symbol.toList = c :: cs ∧ isBlank c = false ∧ isWord c = false := by
  cases o <;> exact ⟨_, _, rfl, by decide⟩

namespace Spelling
variable (s : Spelling)

theorem head_fromLiteral : ∀ c ∈ s.fromLiteral.head?, isBlank c = false ∧ c ≠ '=' := by
  intro c hc
  obtain ⟨d, hd, hclass⟩ := s.spelled.head
  rw [fromLiteral, List.head?_append, Option.mem_def, hd] at hc
  obtain rfl : d = c := by simpa using hc
  exact hclass

theorem head_fromSymbol : ∀ c ∈ s.fromSymbol.head?, isBlank c = false ∧ isWord c = false := by
  intro c hc
  obtain ⟨d, ds, hd, hclass⟩ := s.comparison.head_symbol
  rw [fromSymbol, hd] at hc
  obtain rfl : d = c := by simpa using hc
  exact hclass

theorem comparison?_fromSymbol :
    Condition.comparison? s.fromSymbol = some (s.comparison, s.space ++ s.fromLiteral) := by
  refine Condition.comparison?_symbol s.comparison fun c hc => ?_
  rw [List.head?_append] at hc
  cases hspace : s.space with
  | nil =>
    rw [hspace] at hc
    exact (s.head_fromLiteral c (by simpa using hc)).2
  | cons b bs =>
    have hb : isBlank b = true := List.all_eq_true.1 s.space_blank b (by simp [hspace])
    rw [hspace] at hc
    obtain rfl : b = c := by simpa using hc
    rintro rfl
    exact absurd hb (by decide)

theorem dropWhile_lead :
    s.text.toList.dropWhile isBlank = s.name ++ (s.gap ++ s.fromSymbol) := by
  obtain ⟨c, cs, hname⟩ := List.exists_cons_of_ne_nil s.name_ne_nil
  have hc : isWord c = true := List.all_eq_true.1 s.name_word c (by simp [hname])
  rw [text, String.toList_ofList]
  refine dropWhile_append_stop s.lead_blank fun d hd => ?_
  obtain rfl : c = d := by simpa [hname] using hd
  exact isBlank_of_isWord hc

theorem head_gap : ∀ c ∈ (s.gap ++ s.fromSymbol).head?, isWord c = false := by
  intro c hc
  rw [List.head?_append] at hc
  cases hgap : s.gap with
  | nil =>
    rw [hgap] at hc
    exact (s.head_fromSymbol c (by simpa using hc)).2
  | cons b bs =>
    have hb : isBlank b = true := List.all_eq_true.1 s.gap_blank b (by simp [hgap])
    rw [hgap] at hc
    obtain rfl : b = c := by simpa using hc
    by_contra hw
    have hnot := isBlank_of_isWord (c := b) (by simpa using hw)
    simp [hb] at hnot

theorem takeWhile_name : (s.text.toList.dropWhile isBlank).takeWhile isWord = s.name := by
  rw [dropWhile_lead]
  exact takeWhile_append_stop s.name_word s.head_gap

theorem dropWhile_name :
    (s.text.toList.dropWhile isBlank).dropWhile isWord = s.gap ++ s.fromSymbol := by
  rw [dropWhile_lead]
  exact dropWhile_append_stop s.name_word s.head_gap

theorem dropWhile_gap : (s.gap ++ s.fromSymbol).dropWhile isBlank = s.fromSymbol :=
  dropWhile_append_stop s.gap_blank fun c hc => (s.head_fromSymbol c hc).1

theorem dropWhile_space : (s.space ++ s.fromLiteral).dropWhile isBlank = s.fromLiteral :=
  dropWhile_append_stop s.space_blank fun c hc => (s.head_fromLiteral c hc).1

theorem parse?_text : Condition.parse? s.text = some s.condition := by
  have hliteral : Condition.literal? s.fromLiteral = some (s.meaning, s.tail) :=
    Condition.literal?_spelled s.spelled s.tail_blank
  refine Condition.parseChars?_eq_some_iff.2 ⟨s.comparison, s.space ++ s.fromLiteral, s.meaning,
    s.tail, ?_, ?_, ?_, s.tail_blank, ?_⟩
  · rw [Condition.skipBlanks, takeWhile_name]
    exact s.name_ne_nil
  · rw [Condition.skipBlanks, Condition.skipBlanks, dropWhile_name, dropWhile_gap]
    exact s.comparison?_fromSymbol
  · rw [Condition.skipBlanks, dropWhile_space]
    exact hliteral
  · rw [Condition.skipBlanks, takeWhile_name]
    rfl

variable {s} in
/-- A text can be split in one way only. -/
theorem eq_of_text_eq {t : Spelling} (h : s.text = t.text) : s = t := by
  have hname : s.name = t.name := by rw [← s.takeWhile_name, h, t.takeWhile_name]
  have hrest : s.gap ++ s.fromSymbol = t.gap ++ t.fromSymbol := by
    rw [← s.dropWhile_name, h, t.dropWhile_name]
  have hsymbol : s.fromSymbol = t.fromSymbol := by
    rw [← s.dropWhile_gap, hrest, t.dropWhile_gap]
  have hgap : s.gap = t.gap := List.append_cancel_right (hsymbol ▸ hrest)
  have hread := s.comparison?_fromSymbol
  rw [hsymbol, t.comparison?_fromSymbol, Option.some.injEq, Prod.mk.injEq] at hread
  obtain ⟨hcomparison, hafter⟩ := hread
  have hliteral : s.fromLiteral = t.fromLiteral := by
    rw [← s.dropWhile_space, ← hafter, t.dropWhile_space]
  have hspace : s.space = t.space := List.append_cancel_right (hliteral ▸ hafter.symm)
  have hs : Condition.literal? s.fromLiteral = some (s.meaning, s.tail) :=
    Condition.literal?_spelled s.spelled s.tail_blank
  have ht : Condition.literal? t.fromLiteral = some (t.meaning, t.tail) :=
    Condition.literal?_spelled t.spelled t.tail_blank
  rw [hliteral, ht, Option.some.injEq, Prod.mk.injEq] at hs
  obtain ⟨hmeaning, htail⟩ := hs
  have hspelled : s.literal = t.literal := by
    have hboth : s.literal ++ s.tail = t.literal ++ t.tail := hliteral
    exact List.append_cancel_right (htail ▸ hboth)
  have hlead : s.lead = t.lead := by
    have hboth := congrArg String.toList h
    rw [text, text, String.toList_ofList, String.toList_ofList, hname, hrest] at hboth
    exact List.append_cancel_right hboth
  exact Spelling.ext hlead hname hgap hcomparison.symm hspace hspelled hmeaning.symm htail.symm

end Spelling

namespace Condition

/-- Whatever is read is split like this. -/
theorem spelling_of_parse? {e : String} {c : Condition} (h : parse? e = some c) :
    ∃ s : Spelling, s.text = e ∧ s.condition = c := by
  obtain ⟨o, rest, l, tail, hname, ho, hl, htail, rfl⟩ := parseChars?_eq_some_iff.1 h
  obtain ⟨spelling, hspelling, hspelled⟩ := spelled_of_literal? hl
  have hsymbol := symbol_of_comparison? ho
  refine ⟨⟨e.toList.takeWhile isBlank, _, ((skipBlanks e.toList).dropWhile isWord).takeWhile isBlank,
    o, rest.takeWhile isBlank, spelling, l, tail, List.all_takeWhile, hname, List.all_takeWhile,
    List.all_takeWhile, List.all_takeWhile, hspelled, htail⟩, ?_, rfl⟩
  have hliteral : rest.takeWhile isBlank ++ (spelling ++ tail) = rest := by
    rw [← hspelling]
    exact List.takeWhile_append_dropWhile
  simp only [Spelling.text, Spelling.fromSymbol, Spelling.fromLiteral, hliteral, ← hsymbol]
  simp only [skipBlanks, List.takeWhile_append_dropWhile, String.ofList_toList]

/-- A condition that can be written with the given quotation mark. -/
structure Printable (mark : Char) (c : Condition) : Prop where
  isMark : mark = singleQuote ∨ mark = doubleQuote
  name_ne_empty : c.name.toList ≠ []
  name_word : c.name.toList.all isWord = true
  literal : match c.literal with
    | .quoted s => mark ∉ s.toList
    | .numeral s => c.literal.Spelled s.toList

theorem Printable.spelling {mark : Char} {c : Condition} (h : c.Printable mark) :
    ∃ s : Spelling, s.text = c.render mark ∧ s.condition = c := by
  obtain ⟨name, o, l⟩ := c
  obtain ⟨spelling, hspelling, htext⟩ : ∃ spelling, l.Spelled spelling ∧
      (Condition.mk name o l).render mark = name ++ " " ++ o.symbol ++ " " ++
        String.ofList spelling := by
    have hliteral := h.literal
    cases l with
    | quoted s =>
      refine ⟨mark :: s.toList ++ [mark], ?_, ?_⟩
      · simpa using Literal.Spelled.quoted h.isMark hliteral
      · simp [render, ← String.toList_inj]
    | numeral s => exact ⟨s.toList, hliteral, by simp [render]⟩
  refine ⟨⟨[], name.toList, [' '], o, [' '], spelling, l, [], rfl, h.name_ne_empty, h.name_word,
    by decide, by decide, hspelling, rfl⟩, ?_, ?_⟩
  · rw [htext, ← String.toList_inj]
    simp [Spelling.text, Spelling.fromSymbol, Spelling.fromLiteral]
  · simp [Spelling.condition]

/-- A text is a condition exactly if it can be split into the parts of one. There is one way to
split it, and the condition that is read is that of the parts; so one that was written is read
back. -/
theorem parse?_spelling (e : String) :
    (isValid e = true ↔ ∃ s : Spelling, s.text = e) ∧
    (∀ s t : Spelling, s.text = e → t.text = e → s = t) ∧
    (∀ s : Spelling, s.text = e → parse? e = some s.condition) ∧
    ∀ (mark : Char) (c : Condition), c.Printable mark → parse? (c.render mark) = some c := by
  refine ⟨⟨fun h => ?_, ?_⟩, ?_, ?_, ?_⟩
  · obtain ⟨c, hc⟩ := Option.isSome_iff_exists.1 h
    obtain ⟨s, hs, -⟩ := spelling_of_parse? hc
    exact ⟨s, hs⟩
  · rintro ⟨s, rfl⟩
    rw [isValid, s.parse?_text]
    rfl
  · rintro s t rfl ht
    exact Spelling.eq_of_text_eq ht.symm
  · rintro s rfl
    exact s.parse?_text
  · intro mark c h
    obtain ⟨s, hs, rfl⟩ := h.spelling
    rw [← hs]
    exact s.parse?_text

theorem parse?_spelling_sample :
    Printable doubleQuote ⟨"count", .ge, .numeral "+12.5"⟩ ∧
      parse? "count >= +12.5" = some ⟨"count", .ge, .numeral "+12.5"⟩ := by
  have hspelled : Literal.Spelled "+12.5".toList (.numeral "+12.5") :=
    @Literal.Spelled.numeral ['+'] ['1', '2'] ['.', '5'] (by simp) (by simp) (by decide)
      (.some (by simp) (by decide))
  have hprintable : Printable doubleQuote ⟨"count", .ge, .numeral "+12.5"⟩ :=
    ⟨.inr rfl, by decide, by decide, hspelled⟩
  exact ⟨hprintable, (parse?_spelling "").2.2.2 _ _ hprintable⟩

/-- Blanks of every kind, a `>` before an `=`, and the other mark and a symbol in the literal. -/
example : parse? " count\t>=+12.50\u2003" = some ⟨"count", .ge, .numeral "+12.50"⟩ ∧
    parse? "state=='say \"a < b\"'" = some ⟨"state", .eq, .quoted "say \"a < b\""⟩ ∧
    parse? "count > = 1" = none ∧ parse? "count > 1." = none := by
  decide +kernel

end Condition
end Runbook
